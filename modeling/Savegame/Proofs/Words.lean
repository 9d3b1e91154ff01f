import Savegame.Bytes.Lemmas

/-!
# Words inside byte strings

The word at an offset of a byte string, and changes to single words that leave all other bytes and
the length alone. Changes to one part of a byte string do not see the other parts.
-/

namespace Savegame.Bytes

def word (bytes : Bytes) (offset : Nat) : UInt32 :=
  toUInt32 ((bytes.drop offset).take 4)

theorem word_append_left {front back : Bytes} {offset : Nat} (h : offset + 4 ≤ front.length) :
    word (front ++ back) offset = word front offset := by
  rw [word, word, List.drop_append_of_le_length (by omega), List.take_append_of_le_length]
  rw [List.length_drop]
  omega

theorem word_append_right (front back : Bytes) (offset : Nat) :
    word (front ++ back) (front.length + offset) = word back offset := by
  rw [word, word, List.drop_append, List.drop_eq_nil_of_le (by omega)]
  simp

theorem word_ofUInt32_append (word : UInt32) (back : Bytes) :
    Bytes.word (ofUInt32 word ++ back) 0 = word := by
  have hlength := length_ofUInt32 word
  rw [Bytes.word, List.drop_zero, List.take_left' hlength, toUInt32_ofUInt32]

/-- A change to the word at an offset. -/
structure Edit where
  offset : Nat
  change : UInt32 → UInt32

namespace Edit

def apply (e : Edit) (bytes : Bytes) : Bytes :=
  bytes.take e.offset ++ ofUInt32 (e.change (bytes.word e.offset)) ++ bytes.drop (e.offset + 4)

def applyAll (edits : List Edit) (bytes : Bytes) : Bytes :=
  edits.foldl (fun bytes e => e.apply bytes) bytes

def shift (distance : Nat) (e : Edit) : Edit :=
  { e with offset := distance + e.offset }

/-- All changes are to words of the first `size` bytes. -/
def Within (size : Nat) (edits : List Edit) : Prop :=
  ∀ e ∈ edits, e.offset + 4 ≤ size

theorem length_apply {e : Edit} {bytes : Bytes} (h : e.offset + 4 ≤ bytes.length) :
    (e.apply bytes).length = bytes.length := by
  simp only [apply, List.length_append, List.length_take, List.length_drop, length_ofUInt32]
  omega

theorem apply_append {e : Edit} {front : Bytes} (h : e.offset + 4 ≤ front.length) (back : Bytes) :
    e.apply (front ++ back) = e.apply front ++ back := by
  rw [apply, apply, word_append_left h, List.take_append_of_le_length (by omega),
    List.drop_append_of_le_length h, List.append_assoc, List.append_assoc, List.append_assoc]

theorem shift_apply (e : Edit) (front back : Bytes) :
    (e.shift front.length).apply (front ++ back) = front ++ e.apply back := by
  have htake : (front ++ back).take (front.length + e.offset) = front ++ back.take e.offset := by
    simp [List.take_append]
  have hdrop : (front ++ back).drop (front.length + e.offset + 4) = back.drop (e.offset + 4) := by
    simp [List.drop_append, Nat.add_assoc]
  simp only [apply, shift, word_append_right]
  rw [htake, hdrop, List.append_assoc, List.append_assoc, List.append_assoc]

/-- A change replaces the word at its offset and nothing else. -/
theorem apply_between (front back : Bytes) (word : UInt32) (change : UInt32 → UInt32) :
    (⟨front.length, change⟩ : Edit).apply (front ++ (ofUInt32 word ++ back)) =
      front ++ (ofUInt32 (change word) ++ back) := by
  have hlength := length_ofUInt32 word
  have hshift := shift_apply ⟨0, change⟩ front (ofUInt32 word ++ back)
  have hzero : (⟨0, change⟩ : Edit).apply (ofUInt32 word ++ back) =
      ofUInt32 (change word) ++ back := by
    simp only [apply, word_ofUInt32_append, List.take_zero, List.nil_append]
    rw [List.drop_left' hlength]
  rwa [hzero] at hshift

theorem length_applyAll {edits : List Edit} {bytes : Bytes} (h : Within bytes.length edits) :
    (applyAll edits bytes).length = bytes.length := by
  induction edits generalizing bytes with
  | nil => rfl
  | cons e rest ih =>
    have hlength := length_apply (h e List.mem_cons_self)
    rw [applyAll, List.foldl_cons, ← applyAll, ih, hlength]
    rw [hlength]
    exact fun e he => h e (List.mem_cons_of_mem _ he)

theorem applyAll_append {edits : List Edit} {front : Bytes} (h : Within front.length edits)
    (back : Bytes) : applyAll edits (front ++ back) = applyAll edits front ++ back := by
  induction edits generalizing front with
  | nil => rfl
  | cons e rest ih =>
    have he := h e List.mem_cons_self
    rw [applyAll, List.foldl_cons, apply_append he, ← applyAll, ih, applyAll, applyAll,
      List.foldl_cons]
    rw [length_apply he]
    exact fun e he => h e (List.mem_cons_of_mem _ he)

theorem applyAll_shift (edits : List Edit) (front back : Bytes) :
    applyAll (edits.map (shift front.length)) (front ++ back) = front ++ applyAll edits back := by
  induction edits generalizing back with
  | nil => rfl
  | cons e rest ih =>
    rw [applyAll, List.map_cons, List.foldl_cons, shift_apply, ← applyAll, ih, applyAll, applyAll,
      List.foldl_cons]

/-- Changes to the front of a byte string and to what follows are done independently. -/
theorem applyAll_beside {first : List Edit} {front : Bytes} (h : Within front.length first)
    (second : List Edit) (back : Bytes) :
    applyAll (first ++ second.map (shift front.length)) (front ++ back) =
      applyAll first front ++ applyAll second back := by
  rw [applyAll, List.foldl_append, ← applyAll, ← applyAll, applyAll_append h,
    ← length_applyAll h, applyAll_shift]

end Edit

end Savegame.Bytes
