import Savegame.Bytes.Basic

/-!
# Text as bytes

UTF-8, read one scalar value at a time. A byte string that is no text is refused at its first
fault: `index` counts the bytes of the text before it, and a fault is either a run of one to three
bytes that no continuation could complete, or the end of the input inside a sequence that might
have been completed.
-/

namespace Savegame.Utf8

/-- Why a byte string is no text, and after how many good bytes. -/
inductive Fault where
  | invalid (length index : Nat)
  | incomplete (index : Nat)
  deriving DecidableEq, Repr

def isTail (b : UInt8) : Bool :=
  0x80 ≤ b && b ≤ 0xBF

/-- The second bytes that may follow `a`, where `a` opens a sequence of two or more bytes: no
overlong form, no surrogate and nothing above the last scalar value. -/
def mayFollow (a b : UInt8) : Bool :=
  if a = 0xE0 then 0xA0 ≤ b && b ≤ 0xBF
  else if a = 0xED then 0x80 ≤ b && b ≤ 0x9F
  else if a = 0xF0 then 0x90 ≤ b && b ≤ 0xBF
  else if a = 0xF4 then 0x80 ≤ b && b ≤ 0x8F
  else isTail b

/-- The length of the sequence that `a` opens, or zero where it opens none. -/
def width (a : UInt8) : Nat :=
  if a < 0x80 then 1
  else if 0xC2 ≤ a && a ≤ 0xDF then 2
  else if 0xE0 ≤ a && a ≤ 0xEF then 3
  else if 0xF0 ≤ a && a ≤ 0xF4 then 4
  else 0

def tail (b : UInt8) : Nat :=
  b.toNat % 64

/-- The scalar value at the front of `a :: rest` with the bytes after it. -/
def scalar (index : Nat) (a : UInt8) (rest : Bytes) : Except Fault (Char × Bytes) :=
  match width a with
  | 1 => .ok (Char.ofNat a.toNat, rest)
  | 2 =>
    match rest with
    | [] => .error (.incomplete index)
    | b :: rest =>
      if isTail b then .ok (Char.ofNat (a.toNat % 32 * 64 + tail b), rest)
      else .error (.invalid 1 index)
  | 3 =>
    match rest with
    | [] => .error (.incomplete index)
    | b :: rest =>
      if !mayFollow a b then .error (.invalid 1 index) else
      match rest with
      | [] => .error (.incomplete index)
      | c :: rest =>
        if isTail c then .ok (Char.ofNat ((a.toNat % 16 * 64 + tail b) * 64 + tail c), rest)
        else .error (.invalid 2 index)
  | 4 =>
    match rest with
    | [] => .error (.incomplete index)
    | b :: rest =>
      if !mayFollow a b then .error (.invalid 1 index) else
      match rest with
      | [] => .error (.incomplete index)
      | c :: rest =>
        if !isTail c then .error (.invalid 2 index) else
        match rest with
        | [] => .error (.incomplete index)
        | d :: rest =>
          if isTail d then
            .ok (Char.ofNat (((a.toNat % 8 * 64 + tail b) * 64 + tail c) * 64 + tail d), rest)
          else .error (.invalid 3 index)
  | _ => .error (.invalid 1 index)

theorem length_le_of_scalar {index : Nat} {a : UInt8} {rest after : Bytes} {c : Char}
    (h : scalar index a rest = .ok (c, after)) : after.length ≤ rest.length := by
  unfold scalar at h
  split at h <;> (repeat' split at h) <;> simp_all <;> grind

/-- Reads scalar values up to the end; `done` holds those read so far, the latest first. Each takes
up as many bytes as its first one says. -/
def decodeFrom (index : Nat) (done : List Char) : Bytes → Except Fault (List Char)
  | [] => .ok done.reverse
  | a :: rest =>
    match _h : scalar index a rest with
    | .error fault => .error fault
    | .ok (c, after) => decodeFrom (index + width a) (c :: done) after
termination_by bytes => bytes.length
decreasing_by
  have := length_le_of_scalar _h
  simp only [List.length_cons]
  omega

def decode (bytes : Bytes) : Except Fault String :=
  (decodeFrom 0 [] bytes).map String.ofList

def encode (text : String) : Bytes :=
  text.toList.flatMap String.utf8EncodeChar

end Savegame.Utf8
