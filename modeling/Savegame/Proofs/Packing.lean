import Savegame.Proofs.Evaluation

/-!
# Packing conditions

Packing undoes unpacking and nothing else: a condition is packed into the one word that is unpacked
to it, and if there is no such word it is refused. What has no word is irregular at one place: of
the tests for 15, only the opposite one of variable 0 has a word, the lowest.
-/

namespace Savegame.Condition

/-- The test that a stored target stands for. -/
def Test.ofStored : Nat → Test
  | 0 => .truthy
  | target + 1 => .equals (Int32.ofNat target)

/-- The absolute value of the word for a condition whose test is stored as a number. -/
def packed (c : Condition) (stored : Nat) : Nat :=
  stored * 2048 + c.index.toNat

variable {c : Condition} {word : Int16} {stored : Nat}

theorem stored?_equals (target : Int32) :
    Test.stored? (.equals target) =
      if 0 ≤ target.toInt ∧ target.toInt < 31 then some (target.toInt.toNat + 1) else none := by
  have hfits : 0 ≤ target ∧ target.toInt + 1 < 32 ↔ 0 ≤ target.toInt ∧ target.toInt < 31 := by
    rw [Int32.le_iff_toInt_le]
    exact and_congr Iff.rfl (by omega)
  rw [Test.stored?]
  simp only [hfits]

theorem stored?_eq_some_iff {t : Test} :
    Test.stored? t = some stored ↔ stored < 32 ∧ Test.ofStored stored = t := by
  cases t with
  | truthy =>
    constructor
    · intro h
      cases h
      exact ⟨by decide, rfl⟩
    · rintro ⟨-, h⟩
      cases stored with
      | zero => rfl
      | succ target => cases h
  | equals target =>
    rw [stored?_equals]
    constructor
    · intro h
      split at h
      case isTrue hfits =>
        cases h
        have htarget : Int32.ofNat target.toInt.toNat = target := by
          rw [← Int32.toInt_inj, Int32.toInt_ofNat_of_lt (by omega)]
          omega
        refine ⟨by omega, ?_⟩
        rw [Test.ofStored, htarget]
      case isFalse => cases h
    · rintro ⟨hlt, h⟩
      cases stored with
      | zero => cases h
      | succ number =>
        cases h
        have hnumber : (Int32.ofNat number).toInt = number := Int32.toInt_ofNat_of_lt (by omega)
        rw [hnumber, if_pos (by omega)]
        rfl

theorem ofInt_eq_iff {n : Int} (hlow : -32768 ≤ n) (hhigh : n < 32768) :
    Int16.ofInt n = word ↔ word.toInt = n := by
  rw [← Int16.toInt_inj, Int16.toInt_ofInt_of_le hlow hhigh]
  exact eq_comm

theorem encode_of_none (h : Test.stored? c.test = none) : c.encode = none := by
  rw [encode, h]
  rfl

theorem encode_of_some (h : Test.stored? c.test = some stored) :
    c.encode =
      if 2047 < c.index.toNat then none
      else if c.negated then
        if 0 < c.packed stored ∧ c.packed stored ≤ 32768 then
          some (Int16.ofInt (-(c.packed stored : Int)))
        else none
      else if c.packed stored < 32768 then some (Int16.ofInt (c.packed stored))
      else none := by
  rw [encode, h]
  rfl

/-- The word for a condition, in numbers. There is none for minus zero. -/
theorem encode_eq_some_iff_toInt :
    c.encode = some word ↔ ∃ stored, Test.stored? c.test = some stored ∧ c.index.toNat ≤ 2047 ∧
      if c.negated = true then 0 < c.packed stored ∧ word.toInt = -c.packed stored
      else word.toInt = c.packed stored := by
  have hlow : -32768 ≤ word.toInt := word.le_toInt
  have hhigh : word.toInt < 32768 := word.toInt_lt
  cases hstored : Test.stored? c.test with
  | none => simp [encode_of_none hstored]
  | some stored =>
    rw [encode_of_some hstored]
    simp only [Option.some.injEq, exists_eq_left']
    by_cases hindex : 2047 < c.index.toNat
    · simp [hindex, not_le.mpr hindex]
    rw [if_neg hindex, and_iff_right (not_lt.mp hindex)]
    by_cases hnegated : c.negated = true
    · rw [if_pos hnegated, if_pos hnegated]
      by_cases hfits : 0 < c.packed stored ∧ c.packed stored ≤ 32768
      · rw [if_pos hfits, Option.some.injEq, ofInt_eq_iff (by omega) (by omega)]
        exact (and_iff_right hfits.1).symm
      · rw [if_neg hfits]
        refine iff_of_false nofun ?_
        rintro ⟨hpos, hword⟩
        exact hfits ⟨hpos, by omega⟩
    · rw [if_neg hnegated, if_neg hnegated]
      by_cases hfits : c.packed stored < 32768
      · rw [if_pos hfits, Option.some.injEq, ofInt_eq_iff (by omega) (by omega)]
      · rw [if_neg hfits]
        refine iff_of_false nofun ?_
        intro hword
        omega

/-- The condition in a word, in numbers. -/
theorem decode_eq_iff :
    decode word = c ↔ magnitude word % 2048 = c.index.toNat ∧
      Test.ofStored (magnitude word / 2048) = c.test ∧ (c.negated = true ↔ word.toInt < 0) := by
  obtain ⟨index, test, negated⟩ := c
  have hindex : packedIndex word = index ↔ magnitude word % 2048 = index.toNat := by
    rw [← UInt16.toNat_inj, toNat_packedIndex]
    rfl
  have hnegated : decide (word < 0) = negated ↔ (negated = true ↔ word.toInt < 0) := by
    rw [Bool.eq_iff_iff, decide_eq_true_eq, Int16.lt_iff_toInt_lt]
    exact iff_comm
  rw [decode, mk.injEq, hindex, hnegated]
  exact Iff.rfl

/-- A condition is packed into a word exactly if it is unpacked from it. -/
theorem encode_eq_some_iff : c.encode = some word ↔ decode word = c := by
  have hle := magnitude_le word
  rw [encode_eq_some_iff_toInt, decode_eq_iff]
  constructor
  · rintro ⟨stored, hstored, hindex, hword⟩
    obtain ⟨hlt, htest⟩ := stored?_eq_some_iff.mp hstored
    have hsigned : magnitude word = c.packed stored ∧ (c.negated = true ↔ word.toInt < 0) := by
      unfold magnitude
      split at hword
      case isTrue hnegated => exact ⟨by omega, iff_of_true hnegated (by omega)⟩
      case isFalse hnegated => exact ⟨by omega, iff_of_false hnegated (by omega)⟩
    obtain ⟨hmagnitude, hnegated⟩ := hsigned
    unfold packed at hmagnitude
    have hdiv : magnitude word / 2048 = stored := by omega
    exact ⟨by omega, by rw [hdiv, htest], hnegated⟩
  · rintro ⟨hindex, htest, hnegated⟩
    have hpacked : c.packed (magnitude word / 2048) = magnitude word := by
      unfold packed
      omega
    refine ⟨magnitude word / 2048, stored?_eq_some_iff.mpr ⟨by omega, htest⟩, by omega, ?_⟩
    rw [hpacked]
    unfold magnitude
    split
    case isTrue h =>
      have hneg := hnegated.mp h
      exact ⟨by omega, by omega⟩
    case isFalse h =>
      have hneg := mt hnegated.mpr h
      omega

theorem encode_eq_none_iff_packed (h : Test.stored? c.test = some stored) :
    c.encode = none ↔ 2047 < c.index.toNat ∨
      if c.negated = true then c.packed stored = 0 ∨ 32768 < c.packed stored
      else 32768 ≤ c.packed stored := by
  rw [encode_of_some h]
  by_cases hindex : 2047 < c.index.toNat
  · simp [hindex]
  rw [if_neg hindex, or_iff_right hindex]
  by_cases hnegated : c.negated = true
  · rw [if_pos hnegated, if_pos hnegated, ite_eq_right_iff]
    simp only [reduceCtorEq, imp_false]
    omega
  · rw [if_neg hnegated, if_neg hnegated, ite_eq_right_iff]
    simp only [reduceCtorEq, imp_false]
    omega

/-- The conditions that there is no word for: on a variable that there is not, for a target that is
negative or too large, and minus zero. -/
def HasNoWord (c : Condition) : Prop :=
  2047 < c.index.toNat ∨
    match c.test with
    | .truthy => c.negated = true ∧ c.index = 0
    | .equals target =>
      target.toInt < 0 ∨
        14 < target.toInt ∧ ¬ (target.toInt = 15 ∧ c.negated = true ∧ c.index = 0)

theorem encode_eq_none_iff : c.encode = none ↔ c.HasNoWord := by
  have hzero : c.index = 0 ↔ c.index.toNat = 0 := UInt16.toNat_inj.symm
  rw [HasNoWord, hzero]
  cases htest : c.test with
  | truthy =>
    have hstored : Test.stored? c.test = some 0 := by rw [htest, Test.stored?]
    rw [encode_eq_none_iff_packed hstored, packed]
    cases c.negated <;> simp <;> omega
  | equals target =>
    by_cases hfits : 0 ≤ target.toInt ∧ target.toInt < 31
    · have hstored : Test.stored? c.test = some (target.toInt.toNat + 1) := by
        rw [htest, stored?_equals, if_pos hfits]
      rw [encode_eq_none_iff_packed hstored, packed]
      dsimp only
      generalize target.toInt = number at hfits
      cases c.negated <;> simp <;> omega
    · have hstored : Test.stored? c.test = none := by rw [htest, stored?_equals, if_neg hfits]
      refine iff_of_true (encode_of_none hstored) (.inr ?_)
      dsimp only
      omega

/-- Packing is the exact inverse of unpacking, as far as there is one. It fails only for conditions
that no word is unpacked to, and these are known by their parts. The lowest word is packed too. -/
theorem encode_inverts_decode (c : Condition) :
    (∀ word, c.encode = some word ↔ decode word = c) ∧
      (c.encode = none ↔ ∀ word, decode word ≠ c) ∧
      (c.encode = none ↔ c.HasNoWord) ∧
      encode ⟨0, .equals 15, true⟩ = some Int16.minValue := by
  refine ⟨fun word => encode_eq_some_iff, ?_, encode_eq_none_iff, by decide⟩
  rw [Option.eq_none_iff_forall_ne_some]
  simp only [ne_eq, encode_eq_some_iff]

end Savegame.Condition
