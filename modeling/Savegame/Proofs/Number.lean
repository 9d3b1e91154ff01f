import Mathlib.Algebra.Order.Field.Basic
import Mathlib.Algebra.Order.Field.Rat
import Savegame.Proofs.FixedPoint

/-!
# The numbers that patterns denote

A pattern that is no NaN denotes a rational number; infinities count as the first power of two that
is out of reach. Both ways between numbers and fixed point act on the magnitude alone and carry the
sign along.
-/

namespace Savegame.Binary32

/-- A magnitude with a sign. -/
def signed (negative : Bool) (magnitude : Nat) : Int :=
  if negative then -(magnitude : Int) else magnitude

section signed

variable {negative negative' : Bool} {m m' : Nat} {f : Nat → Nat}

theorem natAbs_signed (negative : Bool) (m : Nat) : (signed negative m).natAbs = m := by
  rw [signed]
  split <;> omega

theorem signed_sub (negative : Bool) (m m' : Nat) :
    |signed negative m - signed negative m'| = |(m : Int) - m'| := by
  rw [signed, signed]
  split
  · rw [neg_sub_neg, abs_sub_comm]
  · rfl

/-- What is done to magnitudes in order, and not to zero, keeps the order of signed ones. -/
theorem signed_mono (hf : Monotone f) (hzero : f 0 = 0)
    (h : signed negative m ≤ signed negative' m') :
    signed negative (f m) ≤ signed negative' (f m') := by
  rw [signed, signed] at h ⊢
  cases negative with
  | true =>
    cases negative' with
    | true =>
      have hle : f m' ≤ f m := hf (by simpa using h)
      simpa using hle
    | false =>
      simp only [if_true, Bool.false_eq_true, if_false]
      omega
  | false =>
    cases negative' with
    | true =>
      simp only [if_true, Bool.false_eq_true, if_false] at h ⊢
      obtain rfl : m = 0 := by omega
      obtain rfl : m' = 0 := by omega
      rw [hzero]
      decide
    | false =>
      have hle : f m ≤ f m' := hf (by simpa using h)
      simpa using hle

/-- The sign of a signed magnitude is that of the magnitude, unless it is zero. -/
theorem signed_signed (hzero : f 0 = 0) (negative : Bool) (m : Nat) :
    signed (decide (signed negative m < 0)) (f (signed negative m).natAbs) =
      signed negative (f m) := by
  rw [natAbs_signed]
  rcases Nat.eq_zero_or_pos m with rfl | hpos
  · rw [hzero]
    cases negative <;> rfl
  · congr 1
    cases negative with
    | true => exact decide_eq_true (by rw [signed, if_pos rfl]; omega)
    | false => exact decide_eq_false (by rw [signed, if_neg Bool.false_ne_true]; omega)

end signed

/-- The number of a pattern in units of `2 ^ -149`. -/
def signedUnits (x : Binary32) : Int :=
  signed x.isNegative (units x.pattern)

/-- The number that a pattern denotes. Infinities count as `2 ^ 128`, which is above all finite
numbers; of a NaN this says nothing. -/
def value (x : Binary32) : ℚ :=
  x.signedUnits / one

/-- The order of numbers. Both zeros are equal, infinities are at the ends, and a NaN is not even in
order with itself. -/
instance : LE Binary32 where
  le x y := x.isNaN = false ∧ y.isNaN = false ∧ x.value ≤ y.value

section value

variable {x y : Binary32}

theorem one_pos : (0 : ℚ) < one := by
  have h : 0 < one := by
    rw [one_eq]
    exact Nat.two_pow_pos 149
  exact_mod_cast h

theorem le_iff :
    x ≤ y ↔ x.isNaN = false ∧ y.isNaN = false ∧ x.signedUnits ≤ y.signedUnits := by
  have hvalue : x.value ≤ y.value ↔ x.signedUnits ≤ y.signedUnits := by
    rw [value, value, div_le_div_iff_of_pos_right one_pos, Int.cast_le]
  exact and_congr_right fun _ => and_congr_right fun _ => hvalue

instance (x y : Binary32) : Decidable (x ≤ y) :=
  decidable_of_iff _ le_iff.symm

theorem abs_value (x : Binary32) : |x.value| = (units x.pattern : ℚ) / one := by
  have h : |x.signedUnits| = units x.pattern := by
    rw [Int.abs_eq_natAbs, signedUnits, natAbs_signed]
  rw [value, abs_div, abs_of_pos one_pos, ← Int.cast_abs, h, Int.cast_natCast]

end value

/-- The count of steps nearest to a magnitude that is multiplied by the precision. -/
def steps (magnitude : Nat) : Nat :=
  (2 * rounded (magnitude * precision) 1 + one) / (2 * one)

/-- The magnitude of a count of steps. -/
def stepped (count : Nat) : Nat :=
  rounded (rounded (count * one) 1) precision

theorem steps_zero : steps 0 = 0 := by decide +kernel

theorem stepped_zero : stepped 0 = 0 := by decide +kernel

theorem steps_mono : Monotone steps := by
  intro m m' h
  have hproduct := rounded_mono Nat.one_pos (Nat.mul_le_mul_right precision h)
  exact Nat.div_le_div_right (by omega)

theorem stepped_mono : Monotone stepped := by
  intro n n' h
  exact rounded_mono precision_pos (rounded_mono Nat.one_pos (Nat.mul_le_mul_right one h))

theorem toInt_toFixedPoint {x : Binary32} (h : x.isNaN = false) :
    x.toFixedPoint.toInt =
      max (-2 ^ 31) (min (signed x.isNegative (steps (units x.pattern))) (2 ^ 31 - 1)) := by
  have hround : x.toFixedPoint =
      if x.isNegative then
        Int32.ofInt (max (-(steps (units x.pattern) : Int)) Int32.minValue.toInt)
      else Int32.ofInt (min (steps (units x.pattern)) Int32.maxValue.toInt) := by
    rw [toFixedPoint, scale, h, if_neg Bool.false_ne_true, round_nearest]
    rfl
  rw [hround, toInt_clamped, signed]
  split <;> omega

section ofFixedPoint

variable (n : Int32)

theorem ofFixedPoint_eq :
    ofFixedPoint n = ofPattern (decide (n.toInt < 0))
      (nearest (rounded (n.toInt.natAbs * one) 1) precision) := by
  rw [ofFixedPoint, ofInt, divide_nearest (nearest_natAbs_lt n)]

theorem isNaN_ofFixedPoint : (ofFixedPoint n).isNaN = false := by
  rw [ofFixedPoint_eq]
  exact isNaN_nearest

theorem isFinite_ofFixedPoint : (ofFixedPoint n).isFinite = true := by
  have hle := n.le_toInt
  have hlt := n.toInt_lt
  have hpow : (2 ^ 31 * one : Nat) = 1 * 2 ^ 180 := by
    rw [one_eq, ← pow_add, Nat.one_mul]
  have hcount : rounded (n.toInt.natAbs * one) 1 ≤ 1 * 2 ^ 180 := by
    rw [← rounded_one (x := 1) (s := 180) (by decide) (by decide) (by decide), ← hpow]
    apply rounded_mono Nat.one_pos
    exact Nat.mul_le_mul_right one (by omega)
  have hfinite : nearest (rounded (n.toInt.natAbs * one) 1) precision < infinityPattern := by
    apply nearest_lt_infinityPattern (e := 157) precision_pos _ (by decide)
    exact hcount.trans_lt (by decide)
  rw [isFinite, ofFixedPoint_eq, pattern_ofPattern (hfinite.trans (by decide))]
  exact decide_eq_true hfinite

theorem signedUnits_ofFixedPoint :
    (ofFixedPoint n).signedUnits = signed (decide (n.toInt < 0)) (stepped n.toInt.natAbs) := by
  have hlt := nearest_lt_signBit (rounded (n.toInt.natAbs * one) 1) precision
  rw [ofFixedPoint_eq, signedUnits, isNegative_ofPattern hlt, pattern_ofPattern hlt]
  rfl

end ofFixedPoint

end Savegame.Binary32
