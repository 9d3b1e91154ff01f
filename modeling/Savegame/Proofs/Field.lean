import Savegame.Proofs.Reading
import Savegame.Proofs.Utf8

/-!
# Fields put out and read back

For every kind of field, and for every sequence of fields, reading from the front of what was put
out gives the values back and leaves what follows. The only conditions are that texts keep to the
limit, and that the limit fits the word in front of a text.
-/

namespace Savegame

namespace Kind

variable {f : Format}

/-- What can be put out and read back: texts have to keep to the limit. -/
def Fits (f : Format) : (k : Kind) → k.Value → Prop
  | text, x => String.utf8ByteSize x ≤ f.limit
  | row _ item, xs => ∀ x ∈ Vector.toList xs, item.Fits f x
  | word8, _ | word16, _ | word32, _ | integer, _ | flag, _ | real, _ | block _, _ => True

theorem put_text {s : String} (h : s.utf8ByteSize ≤ f.limit) :
    putText f s = ⟨Bytes.ofNat 4 s.utf8ByteSize ++ Utf8.encode s, none⟩ := by
  rw [putText, checkLength, if_neg (by omega)]

theorem put_text_of_lt {s : String} (h : f.limit < s.utf8ByteSize) :
    putText f s = ⟨[], some (.descriptionTooLong s.utf8ByteSize f.limit)⟩ := by
  rw [putText, checkLength, if_pos h]

theorem put_row_of_stop {count : Nat} {item : Kind} {xs : Vector item.Value count}
    (h : ∀ x ∈ xs.toList, (item.put f x).stop = none) :
    (row count item).put f xs = ⟨xs.toList.flatMap fun x => (item.put f x).bytes, none⟩ := by
  exact Emission.foldr_andThen (item.put f) xs.toList h

theorem stop_put {k : Kind} {x : k.Value} (h : k.Fits f x) : (k.put f x).stop = none := by
  induction k with
  | text => exact congrArg Emission.stop (put_text h)
  | row count item ih =>
    exact congrArg Emission.stop (put_row_of_stop fun x hx => ih (h x hx))
  | _ => rfl

theorem put_row {count : Nat} {item : Kind} {xs : Vector item.Value count}
    (h : ∀ x ∈ xs.toList, item.Fits f x) :
    (row count item).put f xs = ⟨xs.toList.flatMap fun x => (item.put f x).bytes, none⟩ :=
  put_row_of_stop fun x hx => stop_put (h x hx)

/-- A row is read from what its fields are put out as, one after the other. -/
theorem readRow_flatMap {α : Type} {read : Bytes → Reading α} {bytes : α → Bytes} {g : α → α}
    (count : Nat) (xs : Vector α count) (tail : Bytes)
    (h : ∀ x ∈ xs.toList, ∀ tail, read (bytes x ++ tail) = ⟨.ok (g x), (bytes x).length, tail⟩) :
    readRow read count (xs.toList.flatMap bytes ++ tail) =
      ⟨.ok (xs.map g), (xs.toList.flatMap bytes).length, tail⟩ := by
  induction count generalizing tail with
  | zero =>
    obtain rfl : xs = #v[] := Vector.eq_empty
    simp [readRow]
  | succ count ih =>
    obtain ⟨ys, y, rfl⟩ : ∃ ys y, xs = Vector.push ys y := Vector.exists_push
    rw [Vector.toList_push] at h ⊢
    have hys := ih ys (bytes y ++ tail) fun x hx => h x (List.mem_append_left _ hx)
    have hy := h y (by simp) tail
    rw [List.flatMap_append, List.flatMap_singleton, List.append_assoc, readRow, hys,
      Reading.andThen]
    simp only [hy, Reading.map, Except.map, List.length_append, Vector.map_push]

theorem read_word {α : Type} (g : Nat → α) (word : UInt32) (tail : Bytes) :
    (Reading.number 4 (Bytes.ofUInt32 word ++ tail)).map g = ⟨.ok (g word.toNat), 4, tail⟩ := by
  have hlt := word.toNat_lt
  rw [Bytes.ofUInt32, Reading.number_append, Nat.mod_eq_of_lt (by omega)]
  rfl

theorem read_put_word8 (x : UInt8) (tail : Bytes) :
    word8.read f (x :: tail) = ⟨.ok x, 1, tail⟩ := by
  have h : (Reading.number 1 (x :: tail)).map UInt8.ofNat =
      ⟨.ok (UInt8.ofNat (x.toNat + 256 * 0)), 1, tail⟩ := by
    rw [Reading.number_of_le (by simp)]
    rfl
  rw [Nat.mul_zero, Nat.add_zero, UInt8.ofNat_toNat] at h
  exact h

theorem read_put_word16 (x : UInt16) (tail : Bytes) :
    word16.read f (Bytes.ofNat 2 x.toNat ++ tail) = ⟨.ok x, 2, tail⟩ := by
  have hlt := x.toNat_lt
  have h : (Reading.number 2 (Bytes.ofNat 2 x.toNat ++ tail)).map UInt16.ofNat =
      ⟨.ok (UInt16.ofNat x.toNat), 2, tail⟩ := by
    rw [Reading.number_append, Nat.mod_eq_of_lt (by omega)]
    rfl
  rw [UInt16.ofNat_toNat] at h
  exact h

theorem read_put_word32 (x : UInt32) (tail : Bytes) :
    word32.read f (Bytes.ofUInt32 x ++ tail) = ⟨.ok x, 4, tail⟩ := by
  have h := read_word UInt32.ofNat x tail
  rw [UInt32.ofNat_toNat] at h
  exact h

theorem read_put_integer (x : Int32) (tail : Bytes) :
    integer.read f (Bytes.ofUInt32 x.toUInt32 ++ tail) = ⟨.ok x, 4, tail⟩ := by
  have h := read_word (fun n => (UInt32.ofNat n).toInt32) x.toUInt32 tail
  rw [UInt32.ofNat_toNat, Int32.toInt32_toUInt32] at h
  exact h

theorem read_put_flag (x : Bool) (tail : Bytes) :
    flag.read f (Bytes.ofUInt32 (if x then 1 else 0) ++ tail) = ⟨.ok x, 4, tail⟩ := by
  have h := read_word (fun n => decide (n ≠ 0)) (if x then 1 else 0) tail
  cases x <;> exact h

theorem read_put_real (x : Binary32) (tail : Bytes) :
    real.read f (Bytes.ofUInt32 (realWord f x) ++ tail) =
      ⟨.ok (ofRealWord f (realWord f x)), 4, tail⟩ := by
  have h := read_word (fun n => ofRealWord f (UInt32.ofNat n)) (realWord f x) tail
  rw [UInt32.ofNat_toNat] at h
  exact h

theorem read_put_text {s : String} (hlimit : f.limit < UInt32.size)
    (h : s.utf8ByteSize ≤ f.limit) (tail : Bytes) :
    readText f ((putText f s).bytes ++ tail) = ⟨.ok s, (putText f s).bytes.length, tail⟩ := by
  have hsize : s.utf8ByteSize % 256 ^ 4 = s.utf8ByteSize :=
    Nat.mod_eq_of_lt (by rw [UInt32.size] at hlimit; omega)
  have hcheck : checkLength f s.utf8ByteSize = .ok () := if_neg (by omega)
  let block : Block s.utf8ByteSize := ⟨Utf8.encode s, Utf8.length_encode s⟩
  have htake : Reading.take s.utf8ByteSize (Utf8.encode s ++ tail) =
      ⟨.ok block, (Utf8.encode s).length, tail⟩ := Reading.take_append block tail
  rw [put_text h, readText, List.append_assoc, Reading.number_append, hsize]
  simp only [Reading.check, Except.bind, hcheck, bind, pure, Except.pure, Reading.andThen, htake,
    block, Utf8.decode_encode, List.length_append, Bytes.length_ofNat, Utf8.length_encode]

/-- Reading from the front what was put out gives the value back, rounded where numbers travel in
fixed point, and leaves what follows. -/
theorem read_put {k : Kind} {x : k.Value} (hlimit : f.limit < UInt32.size) (h : k.Fits f x)
    (tail : Bytes) :
    k.read f ((k.put f x).bytes ++ tail) =
      ⟨.ok (k.settle f x), (k.put f x).bytes.length, tail⟩ := by
  induction k generalizing tail with
  | word8 => exact read_put_word8 x tail
  | word16 => exact read_put_word16 x tail
  | word32 => exact read_put_word32 x tail
  | integer => exact read_put_integer x tail
  | flag => exact read_put_flag x tail
  | real => exact read_put_real x tail
  | text => exact read_put_text hlimit h tail
  | block size => exact Reading.take_append x tail
  | row count item ih =>
    rw [put_row h]
    exact readRow_flatMap count x tail fun x hx tail => ih (h x hx) tail

end Kind

namespace Layout

variable {f : Format}

def Fits (f : Format) : (layout : Layout) → Values layout → Prop
  | [], _ => True
  | k :: rest, (x, xs) => k.Fits f x ∧ Fits f rest xs

def settle (f : Format) : (layout : Layout) → Values layout → Values layout
  | [], _ => ()
  | k :: rest, (x, xs) => (k.settle f x, settle f rest xs)

theorem stop_put {layout : Layout} {xs : Values layout} (h : layout.Fits f xs) :
    (layout.put f xs).stop = none := by
  induction layout with
  | nil => rfl
  | cons k rest ih =>
    obtain ⟨x, xs⟩ := xs
    rw [put, Emission.andThen, Kind.stop_put h.1]
    exact ih h.2

theorem bytes_put_cons {k : Kind} {rest : Layout} {x : k.Value} {xs : Values rest}
    (h : k.Fits f x) :
    (put f (k :: rest) (x, xs)).bytes = (k.put f x).bytes ++ (put f rest xs).bytes := by
  rw [put, Emission.andThen, Kind.stop_put h]

theorem read_put {layout : Layout} {xs : Values layout} (hlimit : f.limit < UInt32.size)
    (h : layout.Fits f xs) (tail : Bytes) :
    layout.read f ((layout.put f xs).bytes ++ tail) =
      ⟨.ok (layout.settle f xs), (layout.put f xs).bytes.length, tail⟩ := by
  induction layout with
  | nil => rfl
  | cons k rest ih =>
    obtain ⟨x, xs⟩ := xs
    rw [bytes_put_cons h.1, List.append_assoc, read, Kind.read_put hlimit h.1, Reading.andThen]
    simp only [ih h.2, Reading.map, Except.map, List.length_append, settle]

end Layout

end Savegame
