/-!
# Byte strings

Files and records are lists of bytes. A number of a fixed width is written with its least
significant byte first.
-/

namespace Savegame

abbrev Bytes := List UInt8

namespace Bytes

/-- The `width` low bytes of `n`, least significant first; higher bytes are dropped. -/
def ofNat : (width n : Nat) → Bytes
  | 0, _ => []
  | width + 1, n => UInt8.ofNat n :: ofNat width (n / 256)

/-- The number whose bytes, least significant first, are given. -/
def toNat : Bytes → Nat
  | [] => 0
  | b :: rest => b.toNat + 256 * toNat rest

@[simp] theorem length_ofNat (width n : Nat) : (ofNat width n).length = width := by
  induction width generalizing n with
  | zero => rfl
  | succ width ih => simp [ofNat, ih]

def ofUInt32 (word : UInt32) : Bytes :=
  ofNat 4 word.toNat

/-- The word whose bytes are given; bytes past the fourth are dropped. -/
def toUInt32 (bytes : Bytes) : UInt32 :=
  UInt32.ofNat (toNat bytes)

@[simp] theorem length_ofUInt32 (word : UInt32) : (ofUInt32 word).length = 4 := length_ofNat 4 _

end Bytes

end Savegame
