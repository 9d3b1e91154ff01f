import Savegame.Proofs.Field
import Savegame.Proofs.Words

/-!
# Fields at their offsets

Every kind but texts takes up a fixed number of bytes, so that its fields can be looked up where
they are instead of being read one after the other; the two agree. Putting out again what was read
keeps the bytes, except for flags, which become zero or one, and for numbers in fixed point, which
go through binary32.
-/

namespace Savegame

namespace Block

/-- The first bytes of a byte string, or zeros where there are too few. -/
def ofBytes (size : Nat) (bytes : Bytes) : Block size :=
  if h : (bytes.take size).length = size then ⟨bytes.take size, h⟩ else zero size

theorem bytes_ofBytes {size : Nat} {bytes : Bytes} (h : size ≤ bytes.length) :
    (ofBytes size bytes).bytes = bytes.take size := by
  rw [ofBytes, dif_pos (List.length_take_of_le h)]

theorem take_eq {size : Nat} {bytes : Bytes} (h : size ≤ bytes.length) :
    Reading.take size bytes = ⟨.ok (ofBytes size bytes), size, bytes.drop size⟩ := by
  rw [Reading.take_of_le h, ofBytes, dif_pos (List.length_take_of_le h)]

end Block

namespace Kind

/-- Whether all fields of a kind take up the same number of bytes. -/
def isFixed : Kind → Bool
  | text => false
  | row _ item => item.isFixed
  | word8 | word16 | word32 | integer | flag | real | block _ => true

/-- The number of bytes that a field of a fixed kind takes up. -/
def size : Kind → Nat
  | word8 => 1
  | word16 => 2
  | word32 | integer | flag | real => 4
  | text => 0
  | block size => size
  | row count item => count * item.size

/-- The field of a fixed kind at the front of a byte string that is long enough. -/
def ofBytes (f : Format) : (k : Kind) → Bytes → k.Value
  | word8, bytes => UInt8.ofNat (Bytes.toNat (bytes.take 1))
  | word16, bytes => UInt16.ofNat (Bytes.toNat (bytes.take 2))
  | word32, bytes => bytes.word 0
  | integer, bytes => (bytes.word 0).toInt32
  | flag, bytes => decide (bytes.word 0 ≠ 0)
  | real, bytes => ofRealWord f (bytes.word 0)
  | text, _ => ""
  | block size, bytes => Block.ofBytes size bytes
  | row _ item, bytes => Vector.ofFn fun i => item.ofBytes f (bytes.drop (i * item.size))

variable {f : Format}

theorem read_word_of_le {α : Type} (g : Nat → α) {bytes : Bytes} (h : 4 ≤ bytes.length) :
    (Reading.number 4 bytes).map g = ⟨.ok (g (bytes.word 0).toNat), 4, bytes.drop 4⟩ := by
  have hlt := Bytes.toNat_lt (bytes.take 4)
  rw [List.length_take_of_le h] at hlt
  have hword : (bytes.word 0).toNat = Bytes.toNat (bytes.take 4) := by
    rw [Bytes.word, Bytes.toUInt32, List.drop_zero, UInt32.toNat_ofNat',
      Nat.mod_eq_of_lt (by simpa using hlt)]
  rw [Reading.number_of_le h, hword]
  rfl

theorem read_number_of_le {α : Type} (g : Nat → α) {width : Nat} {bytes : Bytes}
    (h : width ≤ bytes.length) :
    (Reading.number width bytes).map g =
      ⟨.ok (g (Bytes.toNat (bytes.take width))), width, bytes.drop width⟩ := by
  rw [Reading.number_of_le h]
  rfl

theorem answer_number_of_lt {α : Type} (g : Nat → α) {width : Nat} {bytes : Bytes}
    (h : bytes.length < width) :
    ((Reading.number width bytes).map g).answer = .error (.stream .endOfInput) := by
  rw [Reading.number_of_lt h]
  rfl

theorem readRow_of_le {α : Type} {read : Bytes → Reading α} {size : Nat} {peek : Bytes → α}
    (hread : ∀ bytes : Bytes, size ≤ bytes.length →
      read bytes = ⟨.ok (peek bytes), size, bytes.drop size⟩)
    {count : Nat} {bytes : Bytes} (h : count * size ≤ bytes.length) :
    readRow read count bytes =
      ⟨.ok (Vector.ofFn fun i => peek (bytes.drop (i * size))), count * size,
        bytes.drop (count * size)⟩ := by
  induction count with
  | zero =>
    rw [readRow, Nat.zero_mul]
    rfl
  | succ count ih =>
    rw [Nat.succ_mul] at h
    have hlast := hread (bytes.drop (count * size)) (by rw [List.length_drop]; omega)
    rw [readRow, ih (by omega), Reading.andThen]
    simp only [hlast, Reading.map, Except.map, List.drop_drop, Nat.succ_mul]
    rw [Vector.ofFn_succ]
    rfl

theorem read_of_le {k : Kind} (hk : k.isFixed = true) {bytes : Bytes}
    (h : k.size ≤ bytes.length) :
    k.read f bytes = ⟨.ok (k.ofBytes f bytes), k.size, bytes.drop k.size⟩ := by
  induction k generalizing bytes with
  | word8 => exact read_number_of_le UInt8.ofNat h
  | word16 => exact read_number_of_le UInt16.ofNat h
  | word32 =>
    have hread := read_word_of_le UInt32.ofNat h
    rw [UInt32.ofNat_toNat] at hread
    exact hread
  | integer =>
    have hread := read_word_of_le (fun n => (UInt32.ofNat n).toInt32) h
    rw [UInt32.ofNat_toNat] at hread
    exact hread
  | flag =>
    have hread := read_word_of_le (fun n => decide (n ≠ 0)) h
    have hzero : (bytes.word 0).toNat ≠ 0 ↔ bytes.word 0 ≠ 0 := by
      rw [Ne, Ne, ← UInt32.toNat_inj]
      rfl
    simp only [hzero] at hread
    exact hread
  | real =>
    have hread := read_word_of_le (fun n => ofRealWord f (UInt32.ofNat n)) h
    rw [UInt32.ofNat_toNat] at hread
    exact hread
  | text => cases hk
  | block size => exact Block.take_eq h
  | row count item ih => exact readRow_of_le (fun bytes h => ih hk h) h

theorem readRow_of_lt {α : Type} {read : Bytes → Reading α} {size : Nat} {peek : Bytes → α}
    {e : SaveError}
    (hread : ∀ bytes : Bytes, size ≤ bytes.length →
      read bytes = ⟨.ok (peek bytes), size, bytes.drop size⟩)
    (hshort : ∀ bytes : Bytes, bytes.length < size → (read bytes).answer = .error e)
    {count : Nat} {bytes : Bytes} (h : bytes.length < count * size) :
    (readRow read count bytes).answer = .error e := by
  induction count with
  | zero => omega
  | succ count ih =>
    rw [Nat.succ_mul] at h
    rw [readRow, Reading.andThen]
    by_cases hfront : count * size ≤ bytes.length
    · rw [readRow_of_le hread hfront]
      have hlast := hshort (bytes.drop (count * size)) (by rw [List.length_drop]; omega)
      simp only [Reading.map, hlast, Except.map]
    · rw [ih (by omega)]

/-- A field of a fixed kind cannot be read from a byte string that is too short. -/
theorem answer_of_lt {k : Kind} (hk : k.isFixed = true) {bytes : Bytes}
    (h : bytes.length < k.size) :
    (k.read f bytes).answer = .error (.stream .endOfInput) := by
  induction k generalizing bytes with
  | text => cases hk
  | row count item ih =>
    have hitem : item.isFixed = true := hk
    exact readRow_of_lt (fun bytes h => read_of_le hitem h) (fun bytes h => ih hitem h) h
  | block size => exact congrArg Reading.answer (Reading.take_of_lt h)
  | _ => exact answer_number_of_lt _ h

theorem fits_of_isFixed {k : Kind} (hk : k.isFixed = true) (x : k.Value) : k.Fits f x := by
  induction k with
  | text => cases hk
  | row count item ih => exact fun x _ => ih hk x
  | _ => trivial

theorem length_flatMap_put {item : Kind} {count : Nat} (xs : Vector item.Value count)
    (h : ∀ x : item.Value, (item.put f x).bytes.length = item.size) :
    (xs.toList.flatMap fun x => (item.put f x).bytes).length = count * item.size := by
  have hsum : xs.toList.map (fun x => (item.put f x).bytes.length) =
      xs.toList.map fun _ => item.size := List.map_congr_left fun x _ => h x
  rw [List.length_flatMap, hsum, List.map_const', List.sum_replicate, Vector.length_toList,
    smul_eq_mul]

theorem length_put {k : Kind} (hk : k.isFixed = true) (x : k.Value) :
    (k.put f x).bytes.length = k.size := by
  induction k with
  | word8 => rfl
  | word16 => exact Bytes.length_ofNat 2 _
  | text => cases hk
  | block size => exact x.length_eq
  | row count item ih =>
    have hitem : item.isFixed = true := hk
    have hfits : (row count item).Fits f x := fits_of_isFixed hk x
    rw [put_row hfits]
    exact length_flatMap_put x (ih hitem)
  | _ => exact Bytes.length_ofUInt32 _

/-- What becomes of the word of a flag that is read and put out again. -/
def flagWord (word : UInt32) : UInt32 :=
  if word = 0 then 0 else 1

/-- What becomes of a word in fixed point that is read and put out again. -/
def fixedPointWord (word : UInt32) : UInt32 :=
  (Binary32.ofFixedPoint word.toInt32).toFixedPoint.toUInt32

/-- What reading a field of a fixed kind and putting it out again changes. -/
def edits (f : Format) : Kind → List Bytes.Edit
  | flag => [⟨0, flagWord⟩]
  | real => if f.isFixedPoint then [⟨0, fixedPointWord⟩] else []
  | row count item =>
    (List.range count).flatMap fun i => (item.edits f).map (.shift (i * item.size))
  | word8 | word16 | word32 | integer | text | block _ => []

open Bytes (Edit)

theorem within_edits {k : Kind} : Edit.Within k.size (k.edits f) := by
  induction k with
  | flag => simp [Edit.Within, edits, size]
  | real =>
    rw [edits]
    split <;> simp [Edit.Within, size]
  | row count item ih =>
    intro e he
    obtain ⟨i, hi, he⟩ := List.mem_flatMap.mp he
    obtain ⟨inner, hinner, rfl⟩ := List.mem_map.mp he
    have hlast := ih inner hinner
    have hi : i + 1 ≤ count := List.mem_range.mp hi
    have hmul := Nat.mul_le_mul_right item.size hi
    rw [Nat.succ_mul] at hmul
    simp only [Edit.shift, size]
    omega
  | _ => simp [Edit.Within, edits]

theorem bytes_word {bytes : Bytes} (h : 4 ≤ bytes.length) :
    Bytes.ofUInt32 (bytes.word 0) = bytes.take 4 := by
  rw [Bytes.word, List.drop_zero, Bytes.ofUInt32_toUInt32 (List.length_take_of_le h)]

theorem apply_word {bytes : Bytes} (h : 4 ≤ bytes.length) (change : UInt32 → UInt32) :
    (⟨0, change⟩ : Edit).apply (bytes.take 4) = Bytes.ofUInt32 (change (bytes.word 0)) := by
  have hword : Bytes.word (bytes.take 4) 0 = bytes.word 0 := by
    rw [Bytes.word, Bytes.word, List.drop_zero, List.drop_zero, List.take_take, Nat.min_self]
  have hlength := List.length_take_of_le h
  rw [Edit.apply, hword]
  simp [List.drop_eq_nil_of_le, hlength]

theorem ofNat_take {width : Nat} {bytes : Bytes} (h : width ≤ bytes.length) :
    Bytes.ofNat width (Bytes.toNat (bytes.take width)) = bytes.take width := by
  have hx := Bytes.ofNat_toNat (bytes.take width)
  rwa [List.length_take_of_le h] at hx

theorem put_ofBytes_word8 {bytes : Bytes} (h : 1 ≤ bytes.length) :
    word8.put f (UInt8.ofNat (Bytes.toNat (bytes.take 1))) = ⟨bytes.take 1, none⟩ :=
  congrArg (Emission.mk · none) (ofNat_take h)

theorem put_ofBytes_word16 {bytes : Bytes} (h : 2 ≤ bytes.length) :
    word16.put f (UInt16.ofNat (Bytes.toNat (bytes.take 2))) = ⟨bytes.take 2, none⟩ := by
  have hlt := Bytes.toNat_lt (bytes.take 2)
  rw [List.length_take_of_le h] at hlt
  have hword : (UInt16.ofNat (Bytes.toNat (bytes.take 2))).toNat = Bytes.toNat (bytes.take 2) := by
    rw [UInt16.toNat_ofNat', Nat.mod_eq_of_lt (by simpa using hlt)]
  have hput := ofNat_take h
  rw [← hword] at hput
  exact congrArg (Emission.mk · none) hput

theorem put_ofBytes_integer {bytes : Bytes} (h : 4 ≤ bytes.length) :
    integer.put f (bytes.word 0).toInt32 = ⟨bytes.take 4, none⟩ := by
  have hx := bytes_word h
  rw [← UInt32.toUInt32_toInt32 (bytes.word 0)] at hx
  exact congrArg (Emission.mk · none) hx

theorem put_ofBytes_flag {bytes : Bytes} (h : 4 ≤ bytes.length) :
    flag.put f (decide (bytes.word 0 ≠ 0)) =
      ⟨(⟨0, flagWord⟩ : Edit).apply (bytes.take 4), none⟩ := by
  rw [apply_word h, flagWord]
  by_cases hzero : bytes.word 0 = 0
  · rw [if_pos hzero, hzero]
    rfl
  · rw [if_neg hzero, decide_eq_true hzero]
    rfl

theorem put_ofBytes_real {bytes : Bytes} (h : 4 ≤ bytes.length) :
    real.put f (ofRealWord f (bytes.word 0)) =
      ⟨Edit.applyAll (real.edits f) (bytes.take 4), none⟩ := by
  by_cases hfixed : f.isFixedPoint = true
  · have hword : realWord f (ofRealWord f (bytes.word 0)) = fixedPointWord (bytes.word 0) := by
      rw [realWord, ofRealWord, if_pos hfixed, if_pos hfixed, fixedPointWord]
    have hx := apply_word h fixedPointWord
    rw [← hword] at hx
    rw [edits, if_pos hfixed]
    exact congrArg (Emission.mk · none) hx.symm
  · have hword : realWord f (ofRealWord f (bytes.word 0)) = bytes.word 0 := by
      rw [realWord, ofRealWord, if_neg hfixed, if_neg hfixed]
    have hx := bytes_word h
    rw [← hword] at hx
    rw [edits, if_neg hfixed]
    exact congrArg (Emission.mk · none) hx

theorem put_ofBytes_row {item : Kind} {count : Nat} {bytes : Bytes}
    (hitem : ∀ bytes : Bytes, item.size ≤ bytes.length →
      item.put f (item.ofBytes f bytes) =
        ⟨Edit.applyAll (item.edits f) (bytes.take item.size), none⟩)
    (h : count * item.size ≤ bytes.length) :
    (Vector.ofFn fun i : Fin count => item.ofBytes f (bytes.drop (i * item.size))).toList.flatMap
        (fun x => (item.put f x).bytes) =
      Edit.applyAll ((row count item).edits f) (bytes.take (count * item.size)) := by
  induction count with
  | zero =>
    simp [edits, Edit.applyAll]
  | succ count ih =>
    rw [Nat.succ_mul] at h
    have hlast : item.size ≤ (bytes.drop (count * item.size)).length := by
      rw [List.length_drop]
      omega
    have hfront : (bytes.take (count * item.size)).length = count * item.size :=
      List.length_take_of_le (by omega)
    have hwithin : Edit.Within (bytes.take (count * item.size)).length
        ((row count item).edits f) := by
      rw [hfront]
      exact within_edits (k := row count item)
    have hbeside := Edit.applyAll_beside hwithin (item.edits f)
      ((bytes.drop (count * item.size)).take item.size)
    rw [← List.take_add, hfront] at hbeside
    rw [Vector.ofFn_succ, Vector.toList_push, List.flatMap_append, List.flatMap_singleton,
      Nat.succ_mul, edits, List.range_succ, List.flatMap_append, List.flatMap_singleton, ← edits,
      hbeside]
    refine congrArg₂ (· ++ ·) (ih (by omega)) ?_
    have hput := hitem _ hlast
    simp only [hput]

/-- A field of a fixed kind that is read and put out again is the same bytes but for its edits. -/
theorem put_ofBytes {k : Kind} (hk : k.isFixed = true) {bytes : Bytes}
    (h : k.size ≤ bytes.length) :
    k.put f (k.ofBytes f bytes) = ⟨Edit.applyAll (k.edits f) (bytes.take k.size), none⟩ := by
  induction k generalizing bytes with
  | word8 => exact put_ofBytes_word8 h
  | word16 => exact put_ofBytes_word16 h
  | word32 => exact congrArg (Emission.mk · none) (bytes_word h)
  | integer => exact put_ofBytes_integer h
  | flag => exact put_ofBytes_flag h
  | real => exact put_ofBytes_real h
  | text => cases hk
  | block size => exact congrArg (Emission.mk · none) (Block.bytes_ofBytes h)
  | row count item ih =>
    have hitem : item.isFixed = true := hk
    have hrow := put_ofBytes_row (fun bytes h => ih hitem h) h
    have hfits : (row count item).Fits f ((row count item).ofBytes f bytes) :=
      fits_of_isFixed hk _
    have hput := put_row hfits
    exact hput.trans (congrArg (Emission.mk · none) hrow)

end Kind

namespace Layout

open Bytes (Edit)

variable {f : Format}

def isFixed (layout : Layout) : Bool :=
  layout.all Kind.isFixed

def size : Layout → Nat
  | [] => 0
  | k :: rest => k.size + size rest

def ofBytes (f : Format) : (layout : Layout) → Bytes → Values layout
  | [], _ => ()
  | k :: rest, bytes => (k.ofBytes f bytes, ofBytes f rest (bytes.drop k.size))

def edits (f : Format) : Layout → List Edit
  | [] => []
  | k :: rest => k.edits f ++ (edits f rest).map (.shift k.size)

theorem isFixed_cons {k : Kind} {rest : Layout} (h : isFixed (k :: rest) = true) :
    k.isFixed = true ∧ isFixed rest = true := by
  rwa [isFixed, List.all_cons, Bool.and_eq_true] at h

theorem fits_of_isFixed {layout : Layout} (hlayout : layout.isFixed = true)
    (xs : Values layout) : layout.Fits f xs := by
  induction layout with
  | nil => trivial
  | cons k rest ih =>
    obtain ⟨hk, hrest⟩ := isFixed_cons hlayout
    exact ⟨Kind.fits_of_isFixed hk xs.1, ih hrest xs.2⟩

theorem length_put {layout : Layout} (hlayout : layout.isFixed = true) (xs : layout.Values) :
    (layout.put f xs).bytes.length = layout.size := by
  induction layout with
  | nil => rfl
  | cons k rest ih =>
    obtain ⟨hk, hrest⟩ := isFixed_cons hlayout
    obtain ⟨x, xs⟩ := xs
    rw [bytes_put_cons (Kind.fits_of_isFixed hk x), List.length_append, Kind.length_put hk,
      ih hrest, size]

theorem within_edits {layout : Layout} :
    Bytes.Edit.Within layout.size (layout.edits f) := by
  induction layout with
  | nil => simp [Bytes.Edit.Within, edits]
  | cons k rest ih =>
    intro e he
    rw [edits, List.mem_append] at he
    rcases he with he | he
    · have hk := Kind.within_edits e he
      rw [size]
      omega
    · obtain ⟨inner, hinner, rfl⟩ := List.mem_map.mp he
      have hrest := ih inner hinner
      simp only [Bytes.Edit.shift, size]
      omega

/-- Reading fields one after the other is looking each up at its offset. -/
theorem read_of_le {layout : Layout} (hlayout : layout.isFixed = true) {bytes : Bytes}
    (h : layout.size ≤ bytes.length) :
    layout.read f bytes = ⟨.ok (layout.ofBytes f bytes), layout.size, bytes.drop layout.size⟩ := by
  induction layout generalizing bytes with
  | nil => rfl
  | cons k rest ih =>
    obtain ⟨hk, hrest⟩ := isFixed_cons hlayout
    rw [size] at h
    have hlength : size rest ≤ (bytes.drop k.size).length := by
      rw [List.length_drop]
      omega
    have htail := ih hrest hlength
    rw [read, Kind.read_of_le hk (by omega), Reading.andThen]
    simp only [htail, Reading.map, Except.map, List.drop_drop, ofBytes, size]

theorem answer_of_lt {layout : Layout} (hlayout : layout.isFixed = true) {bytes : Bytes}
    (h : bytes.length < layout.size) :
    (layout.read f bytes).answer = .error (.stream .endOfInput) := by
  induction layout generalizing bytes with
  | nil => exact absurd h (Nat.not_lt_zero _)
  | cons k rest ih =>
    obtain ⟨hk, hrest⟩ := isFixed_cons hlayout
    rw [size] at h
    rw [read, Reading.andThen]
    by_cases hfront : k.size ≤ bytes.length
    · have hlength : (bytes.drop k.size).length < size rest := by
        rw [List.length_drop]
        omega
      rw [Kind.read_of_le hk hfront]
      simp only [Reading.map, ih hrest hlength, Except.map]
    · rw [Kind.answer_of_lt hk (by omega)]

theorem put_ofBytes {layout : Layout} (hlayout : layout.isFixed = true) {bytes : Bytes}
    (h : layout.size ≤ bytes.length) :
    layout.put f (layout.ofBytes f bytes) =
      ⟨Edit.applyAll (layout.edits f) (bytes.take layout.size), none⟩ := by
  induction layout generalizing bytes with
  | nil => rfl
  | cons k rest ih =>
    obtain ⟨hk, hrest⟩ := isFixed_cons hlayout
    rw [size] at h
    have hfront : (bytes.take k.size).length = k.size := List.length_take_of_le (by omega)
    have hwithin : Edit.Within (bytes.take k.size).length (k.edits f) := by
      rw [hfront]
      exact Kind.within_edits
    have hlength : size rest ≤ (bytes.drop k.size).length := by
      rw [List.length_drop]
      omega
    have htail := ih hrest hlength
    have hbeside := Edit.applyAll_beside hwithin (edits f rest)
      ((bytes.drop k.size).take (size rest))
    rw [hfront, ← List.take_add] at hbeside
    rw [ofBytes, put, Kind.put_ofBytes hk (by omega), Emission.andThen_eq, htail, edits, size,
      hbeside]

/-- The values of one sequence of fields before those of another. -/
def append : {first second : Layout} → first.Values → second.Values → Values (first ++ second)
  | [], _, _, ys => ys
  | _ :: _, _, (x, xs), ys => (x, append xs ys)

/-- The values of a sequence of fields, with another value for the field at a position. -/
def set : {layout : Layout} → (i : Fin layout.length) → (layout.get i).Value → layout.Values →
    layout.Values
  | _ :: _, ⟨0, _⟩, y, (_, xs) => (y, xs)
  | _ :: _, ⟨i + 1, h⟩, y, (x, xs) => (x, set ⟨i, Nat.lt_of_succ_lt_succ h⟩ y xs)

/-- The field at a position is put out at its offset, and its value changes nothing around it. -/
theorem bytes_put_set {layout : Layout} (hlayout : layout.isFixed = true)
    (i : Fin layout.length) (xs : layout.Values) :
    ∃ front back : Bytes, front.length = size (layout.take i) ∧ ∀ y,
      (layout.put f (set i y xs)).bytes = front ++ (((layout.get i).put f y).bytes ++ back) := by
  induction layout with
  | nil => exact i.elim0
  | cons k rest ih =>
    obtain ⟨hk, hrest⟩ := isFixed_cons hlayout
    obtain ⟨x, xs⟩ := xs
    cases i using Fin.cases with
    | zero =>
      refine ⟨[], (put f rest xs).bytes, rfl, fun y => ?_⟩
      exact bytes_put_cons (Kind.fits_of_isFixed hk y)
    | succ i =>
      obtain ⟨front, back, hlength, hput⟩ := ih hrest i xs
      refine ⟨(k.put f x).bytes ++ front, back, ?_, fun y => ?_⟩
      · rw [List.length_append, Kind.length_put hk, hlength]
        rfl
      · have hhead : (put f (k :: rest) (set i.succ y (x, xs))).bytes =
            (k.put f x).bytes ++ (put f rest (set i y xs)).bytes :=
          bytes_put_cons (Kind.fits_of_isFixed hk x)
        rw [hput] at hhead
        exact hhead.trans (List.append_assoc _ _ _).symm

theorem read_append (f : Format) (first second : Layout) (bytes : Bytes) :
    Layout.read f (first ++ second) bytes =
      (Layout.read f first bytes).andThen fun xs rest =>
        (Layout.read f second rest).map fun ys => append xs ys := by
  induction first generalizing bytes with
  | nil =>
    change Layout.read f second bytes =
      ⟨(Layout.read f second bytes).answer.map id, 0 + _, (Layout.read f second bytes).rest⟩
    rw [Nat.zero_add, Except.map_id]
    rfl
  | cons k rest ih =>
    change Layout.read f (k :: (rest ++ second)) bytes = _
    rw [read, read]
    simp only [Reading.andThen]
    cases (k.read f bytes).answer with
    | error e => rfl
    | ok x =>
      simp only [Reading.map, ih, Reading.andThen]
      cases (Layout.read f rest (k.read f bytes).rest).answer with
      | error e => rfl
      | ok xs =>
        simp only [Except.map, Nat.add_assoc]
        cases (Layout.read f second (Layout.read f rest (k.read f bytes).rest).rest).answer <;> rfl

end Layout

end Savegame
