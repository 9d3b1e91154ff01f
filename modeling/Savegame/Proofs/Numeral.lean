import Mathlib
import Savegame.Text.Numeral

/-!
# Numerals say which number they are

The digits of a decimal numeral determine its number, whatever the number of zeros in front, and
only the numeral of zero without a width starts with a zero.
-/

namespace Savegame.Numeral

theorem toList_decimal (width n : Nat) :
    (decimal width n).toList =
      List.replicate (width - (Nat.toDigits 10 n).length) '0' ++ Nat.toDigits 10 n := by
  simp [decimal, pad]

theorem toList_decimal_one (n : Nat) : (decimal 1 n).toList = Nat.toDigits 10 n := by
  have hpos : 0 < (Nat.toDigits 10 n).length := List.length_pos_iff.mpr Nat.toDigits_ne_nil
  rw [toList_decimal, Nat.sub_eq_zero_of_le hpos, List.replicate_zero, List.nil_append]

theorem isDigit_of_mem_decimal {width n : Nat} {c : Char} (h : c ∈ (decimal width n).toList) :
    c.isDigit = true := by
  rw [toList_decimal, List.mem_append] at h
  rcases h with hzero | hdigit
  · rw [List.eq_of_mem_replicate hzero]
    rfl
  · exact Nat.isDigit_of_mem_toDigits (by decide) (by decide) hdigit

theorem ofDigitChars_decimal (width n : Nat) :
    Nat.ofDigitChars 10 (decimal width n).toList 0 = n := by
  rw [toList_decimal, Nat.ofDigitChars_append, Nat.ofDigitChars_replicate_zero, Nat.mul_zero,
    Nat.ofDigitChars_ten_toDigits]

theorem decimal_injective {width m n : Nat} (h : decimal width m = decimal width n) : m = n := by
  calc
    m = Nat.ofDigitChars 10 (decimal width m).toList 0 := (ofDigitChars_decimal width m).symm
    _ = Nat.ofDigitChars 10 (decimal width n).toList 0 := by rw [h]
    _ = n := ofDigitChars_decimal width n

theorem head?_toDigits_ne_zero {n : Nat} (h : 0 < n) : (Nat.toDigits 10 n).head? ≠ some '0' := by
  induction n using Nat.strongRecOn with
  | ind n ih =>
    rw [Nat.toDigits_eq_if (by decide)]
    split
    case isTrue hlt =>
      have hdigit : ∀ d < 10, 0 < d → Nat.digitChar d ≠ '0' := by decide
      simpa using hdigit n hlt h
    case isFalse hge =>
      have hne : Nat.toDigits 10 (n / 10) ≠ [] := Nat.toDigits_ne_nil
      rw [List.head?_append_of_ne_nil _ hne]
      exact ih (n / 10) (by omega) (by omega)

end Savegame.Numeral
