import Mathlib.Algebra.Order.Group.Abs
import Mathlib.Algebra.Order.Group.Int
import Savegame.Binary32.FixedPoint
import Savegame.Proofs.Rounding

/-!
# Fixed-point words through binary32

Dividing by the precision and multiplying again rounds twice. How much that moves a number depends
on its significand alone: below `finerBound` the quotient has a bit to spare and the product
rounds back to the significand; from there on the product has the spare bit, and a second round
gets the same quotient as the first.
-/

namespace Savegame.Binary32

theorem precision_pos : 0 < precision := by decide

/-- Significands below this bound have quotients in a binade with a finer step. -/
def finerBound : Nat := 10240000

/-- What becomes of a significand that is divided by the precision and multiplied again. -/
def resettled (a : Nat) : Nat :=
  if a < finerBound then a
  else divNearestEven (divNearestEven (a * 2 ^ 13) precision * precision) (2 ^ 13)

theorem resettled_of_ge {a : Nat} (h : finerBound ≤ a) :
    resettled a =
      divNearestEven (divNearestEven (a * 2 ^ 13) precision * precision) (2 ^ 13) :=
  if_neg (not_lt.mpr h)

section significand

variable {a s : Nat}

theorem rounded_rounded_of_lt (hlow : 2 ^ 23 ≤ a) (h : a < finerBound) (hs : 14 ≤ s)
    (hs' : s ≤ 230) :
    rounded (rounded (a * 2 ^ s) precision * precision) 1 = a * 2 ^ s := by
  obtain ⟨s, rfl⟩ := Nat.exists_eq_add_of_le' hs
  rw [finerBound] at h
  have hquotient : rounded (a * 2 ^ (s + 14)) precision =
      divNearestEven (a * 2 ^ 14) precision * 2 ^ s := by
    have hsplit : a * 2 ^ (s + 14) = a * 2 ^ 14 * 2 ^ s := by ring
    rw [hsplit, rounded_mul_two_pow (i := 0) precision_pos ?_ ?_ (by omega)]
    · simp
    · rw [precision]
      omega
    · rw [precision]
      omega
  obtain ⟨habove, hbelow⟩ := divNearestEven_near (a * 2 ^ 14) precision_pos
  rw [hquotient, Nat.mul_right_comm]
  generalize divNearestEven (a * 2 ^ 14) precision = quotient at habove hbelow ⊢
  simp only [precision] at habove hbelow ⊢
  rcases Nat.lt_or_ge (quotient * 10000) (2 ^ 37) with hless | hmore
  · -- only the least significand has a product in the binade below
    obtain rfl : a = 2 ^ 23 := by omega
    obtain rfl : quotient = 13743895 := by omega
    have hround : divNearestEven (13743895 * 10000) (1 * 2 ^ 13) = 2 * 2 ^ 23 :=
      divNearestEven_eq (by decide) (by decide)
    rw [rounded_mul_two_pow (i := 13) Nat.one_pos (by omega) (by omega) (by omega), hround]
    ring
  · have hround : divNearestEven (quotient * 10000) (1 * 2 ^ 14) = a :=
      divNearestEven_eq (by omega) (by omega)
    rw [rounded_mul_two_pow (i := 14) Nat.one_pos (by omega) (by omega) (by omega), hround]

theorem rounded_rounded_of_le (h : finerBound ≤ a) (hhigh : a < 2 ^ 24) (hs : 13 ≤ s)
    (hs' : s ≤ 230) :
    rounded (rounded (a * 2 ^ s) precision * precision) 1 =
      divNearestEven (divNearestEven (a * 2 ^ 13) precision * precision) (2 ^ 13) * 2 ^ s := by
  obtain ⟨s, rfl⟩ := Nat.exists_eq_add_of_le' hs
  rw [finerBound] at h
  have hquotient : rounded (a * 2 ^ (s + 13)) precision =
      divNearestEven (a * 2 ^ 13) precision * 2 ^ s := by
    have hsplit : a * 2 ^ (s + 13) = a * 2 ^ 13 * 2 ^ s := by ring
    rw [hsplit, rounded_mul_two_pow (i := 0) precision_pos ?_ ?_ (by omega)]
    · simp
    · rw [precision]
      omega
    · rw [precision]
      omega
  obtain ⟨habove, hbelow⟩ := divNearestEven_near (a * 2 ^ 13) precision_pos
  rw [hquotient, Nat.mul_right_comm]
  generalize divNearestEven (a * 2 ^ 13) precision * precision = product at habove hbelow ⊢
  rw [precision] at habove hbelow
  rw [rounded_mul_two_pow (i := 13) Nat.one_pos (by omega) (by omega) (by omega), Nat.one_mul]

/-- Division and multiplication act on the significand, whatever power of two it is scaled by. -/
theorem rounded_rounded (hlow : 2 ^ 23 ≤ a) (hhigh : a < 2 ^ 24) (hs : 14 ≤ s) (hs' : s ≤ 230) :
    rounded (rounded (a * 2 ^ s) precision * precision) 1 = resettled a * 2 ^ s := by
  rw [resettled]
  split
  case isTrue h => exact rounded_rounded_of_lt hlow h hs hs'
  case isFalse h => exact rounded_rounded_of_le (not_lt.mp h) hhigh (by omega) hs'

theorem resettled_of_le (h : a ≤ finerBound) : resettled a = a := by
  rcases Nat.lt_or_eq_of_le h with hless | rfl
  · exact if_pos hless
  · rw [resettled, if_neg (Nat.lt_irrefl _), finerBound]
    decide

/-- Nothing is moved by more than one. -/
theorem resettled_near (a : Nat) : resettled a ≤ a + 1 ∧ a ≤ resettled a + 1 := by
  rw [resettled]
  split
  case isTrue => omega
  case isFalse =>
    obtain ⟨habove, hbelow⟩ := divNearestEven_near (a * 2 ^ 13) precision_pos
    generalize divNearestEven (a * 2 ^ 13) precision = quotient at habove hbelow ⊢
    obtain ⟨habove', hbelow'⟩ :=
      divNearestEven_near (quotient * precision) (Nat.two_pow_pos 13)
    rw [precision] at habove hbelow habove' hbelow' ⊢
    omega

theorem le_resettled (h : 2 ^ 23 ≤ a) : 2 ^ 23 ≤ resettled a := by
  rcases Nat.lt_or_ge finerBound a with hmore | hless
  · have hnear := resettled_near a
    rw [finerBound] at hmore
    omega
  · rwa [resettled_of_le hless]

/-- Rounding the product moves it by less than what would change the quotient. -/
theorem divNearestEven_product (quotient : Nat) :
    divNearestEven (divNearestEven (quotient * precision) (2 ^ 13) * 2 ^ 13) precision =
      quotient := by
  obtain ⟨habove, hbelow⟩ := divNearestEven_near (quotient * precision) (Nat.two_pow_pos 13)
  generalize divNearestEven (quotient * precision) (2 ^ 13) = product at habove hbelow ⊢
  simp only [precision] at habove hbelow ⊢
  exact divNearestEven_eq (by omega) (by omega)

/-- Going through binary32 a second time changes nothing. -/
theorem resettled_resettled (a : Nat) : resettled (resettled a) = resettled a := by
  rcases Nat.lt_or_ge finerBound a with hmore | hless
  · have hnear := resettled_near a
    have hstays : finerBound ≤ resettled a := by omega
    rw [resettled_of_ge hstays, resettled_of_ge hmore.le, divNearestEven_product]
  · rw [resettled_of_le hless, resettled_of_le hless]

/-- A significand that moves up is not followed by another one that does. -/
theorem resettled_add_two (h : resettled a = a + 1) : resettled (a + 2) ≤ a + 2 := by
  rcases Nat.lt_or_ge finerBound a with hmore | hless
  · have hfirst := resettled_of_ge hmore.le
    have hsecond := resettled_of_ge (a := a + 2) (by omega)
    rw [h] at hfirst
    obtain ⟨habove, hbelow⟩ := divNearestEven_near (a * 2 ^ 13) precision_pos
    obtain ⟨hnext, hnext'⟩ := divNearestEven_near ((a + 2) * 2 ^ 13) precision_pos
    generalize divNearestEven (a * 2 ^ 13) precision = quotient at habove hbelow hfirst
    generalize divNearestEven ((a + 2) * 2 ^ 13) precision = next at hnext hnext' hsecond
    obtain ⟨hproduct, hproduct'⟩ :=
      divNearestEven_near (quotient * precision) (Nat.two_pow_pos 13)
    obtain ⟨hlast, hlast'⟩ := divNearestEven_near (next * precision) (Nat.two_pow_pos 13)
    rw [← hfirst] at hproduct hproduct'
    rw [← hsecond] at hlast hlast'
    simp only [precision] at habove hbelow hnext hnext' hproduct hproduct' hlast hlast'
    have hstep : next = quotient + 1 := by omega
    omega
  · rw [resettled_of_le hless] at h
    omega

end significand

/-- What becomes of a whole count of steps on its way through binary32. -/
def recounted (n : Nat) : Nat :=
  (2 * rounded (rounded (rounded (n * one) 1) precision * precision) 1 + one) / (2 * one)

section count

variable {n a s i j : Nat}

theorem recounted_of_rounded (h : rounded (n * one) 1 = a * 2 ^ s) (hlow : 2 ^ 23 ≤ a)
    (hhigh : a < 2 ^ 24) (hs : 14 ≤ s) (hs' : s ≤ 230) :
    recounted n = (2 * (resettled a * 2 ^ s) + one) / (2 * one) := by
  rw [recounted, h, rounded_rounded hlow hhigh hs hs']

theorem rounded_one_mul (h : n < 2 ^ 24) : rounded (n * one) 1 = n * one := by
  rw [one_eq, rounded_one h (by decide) (by decide)]

/-- Counts below `2 ^ 24` are represented, with `i` bits behind the point. -/
theorem recounted_of_lt (hlow : 2 ^ 23 ≤ n * 2 ^ i) (hhigh : n * 2 ^ i < 2 ^ 24) (hi : i ≤ 23) :
    recounted n = (2 * resettled (n * 2 ^ i) + 2 ^ i) / (2 * 2 ^ i) := by
  have hn : n < 2 ^ 24 := (Nat.le_mul_of_pos_right n (Nat.two_pow_pos i)).trans_lt hhigh
  have hone : one = 2 ^ i * 2 ^ (149 - i) := by
    rw [one_eq, ← pow_add]
    congr 1
    omega
  have hrounded : rounded (n * one) 1 = n * 2 ^ i * 2 ^ (149 - i) := by
    rw [rounded_one_mul hn, hone, Nat.mul_assoc]
  rw [recounted_of_rounded hrounded hlow hhigh (by omega) (by omega), hone, ← Nat.mul_assoc,
    ← Nat.mul_assoc, ← Nat.add_mul, Nat.mul_div_mul_right _ _ (Nat.two_pow_pos _)]

/-- Greater counts are a significand times a power of two. -/
theorem recounted_of_significand (h : rounded (n * one) 1 = a * 2 ^ (149 + j))
    (hlow : 2 ^ 23 ≤ a) (hhigh : a < 2 ^ 24) (hj : j ≤ 81) : recounted n = resettled a * 2 ^ j := by
  have hone : resettled a * 2 ^ (149 + j) = resettled a * 2 ^ j * one := by
    rw [one_eq]
    ring
  have hpos : 0 < one := by
    rw [one_eq]
    exact Nat.two_pow_pos 149
  rw [recounted_of_rounded h hlow hhigh (by omega) (by omega), hone]
  generalize resettled a * 2 ^ j = count
  have hsum : 2 * (count * one) + one = one + count * (2 * one) := by ring
  rw [hsum, Nat.add_mul_div_right _ _ (by omega), Nat.div_eq_of_lt (by omega), Nat.zero_add]

theorem exists_significand (hlow : 2 ^ 23 ≤ n) (hhigh : n < 2 ^ 33) :
    ∃ a j, 2 ^ 23 ≤ a ∧ a < 2 ^ 24 ∧ j ≤ 10 ∧ rounded (n * one) 1 = a * 2 ^ (149 + j) := by
  have hpos : n ≠ 0 := by omega
  have hlog := (Nat.le_log2 hpos).mpr hlow
  have hlog' := (Nat.log2_lt hpos).mpr hhigh
  obtain ⟨i, hi⟩ := Nat.exists_eq_add_of_le hlog
  have hpow : 2 ^ (23 + i) ≤ n := hi ▸ Nat.log2_self_le hpos
  have hpow' : n < 2 ^ (24 + i) := by
    have hlt := Nat.lt_log2_self (n := n)
    rwa [hi, Nat.add_right_comm] at hlt
  have hrounded : rounded (n * one) 1 = divNearestEven n (2 ^ i) * 2 ^ (149 + i) := by
    rw [one_eq, rounded_mul_two_pow (i := i) Nat.one_pos (by omega) (by omega) (by omega),
      Nat.one_mul]
  have hleast : 2 ^ 23 ≤ divNearestEven n (2 ^ i) :=
    le_divNearestEven (Nat.two_pow_pos i) (by rwa [← pow_add])
  have hmost : divNearestEven n (2 ^ i) ≤ 2 ^ 24 := by
    apply divNearestEven_le (Nat.two_pow_pos i)
    rw [← pow_add]
    omega
  rcases Nat.lt_or_eq_of_le hmost with hless | hcarry
  · exact ⟨_, i, hleast, hless, by omega, hrounded⟩
  · refine ⟨2 ^ 23, i + 1, by decide, by decide, by omega, ?_⟩
    rw [hrounded, hcarry]
    ring

theorem recounted_mul_two_pow (hlow : 2 ^ 23 ≤ a) (hhigh : a < 2 ^ 24) (hj : j ≤ 81) :
    recounted (a * 2 ^ j) = resettled a * 2 ^ j := by
  have hpow : a * 2 ^ j * one = a * 2 ^ (149 + j) := by
    rw [one_eq]
    ring
  apply recounted_of_significand _ hlow hhigh hj
  rw [hpow, rounded_one hhigh (by omega) (by omega)]

/-- Up to 512 units in steps of a ten-thousandth, every count comes back. -/
theorem recounted_of_le (h : n ≤ 5120000) : recounted n = n := by
  rcases Nat.eq_zero_or_pos n with rfl | hpos
  · rfl
  obtain ⟨i, hi, hlow, hhigh⟩ := exists_normal hpos (by omega)
  rw [recounted_of_lt hlow hhigh hi]
  have hnear := resettled_near (n * 2 ^ i)
  rcases Nat.lt_or_ge i 2 with hless | hmore
  · -- there is only one bit behind the point, but the significand stays where it is
    obtain rfl : i = 1 := by
      by_contra hne
      obtain rfl : i = 0 := by omega
      omega
    rw [resettled_of_le (by rw [finerBound]; omega)]
    omega
  · have hfour : 2 ^ 2 ≤ 2 ^ i := Nat.pow_le_pow_right (by decide) hmore
    generalize resettled (n * 2 ^ i) = significand at hnear ⊢
    generalize 2 ^ i = step at hnear hfour ⊢
    have hmul : n * (2 * step) = 2 * (n * step) := by ring
    have hnext : (n + 1) * (2 * step) = 2 * (n * step) + 2 * step := by ring
    apply Nat.div_eq_of_lt_le <;> omega

/-- Between there and `2 ^ 23`, where there is one bit behind the point, counts stay or move up,
and none moves twice. -/
theorem recounted_recounted_of_lt (h : n < 2 ^ 23) : recounted (recounted n) = recounted n := by
  rcases Nat.lt_or_ge 5120000 n with hmore | hless
  · have hvalue := recounted_of_lt (n := n) (i := 1) (by omega) (by omega) (by decide)
    have hnear := resettled_near (n * 2)
    rw [pow_one] at hvalue
    have hcases : recounted n = n ∨ recounted n = n + 1 ∧ resettled (n * 2) = n * 2 + 1 := by
      omega
    rcases hcases with hsame | ⟨hup, hmoved⟩
    · rw [hsame, hsame]
    · rw [hup]
      rcases Nat.lt_or_eq_of_le (Nat.succ_le_of_lt h) with hnext | hborder
      · have hvalue' := recounted_of_lt (n := n + 1) (i := 1) (by omega) (by omega) (by decide)
        have hle := resettled_add_two hmoved
        have hnear' := resettled_near ((n + 1) * 2)
        rw [← Nat.add_one_mul n 2] at hle
        rw [pow_one] at hvalue'
        omega
      · have hvalue' := recounted_of_lt (n := n + 1) (i := 0) (by omega) (by omega) (by decide)
        rw [pow_zero, Nat.mul_one, resettled_of_le (by rw [finerBound]; omega)] at hvalue'
        omega
  · rw [recounted_of_le hless, recounted_of_le hless]

theorem recounted_recounted (h : n < 2 ^ 33) : recounted (recounted n) = recounted n := by
  rcases Nat.lt_or_ge n (2 ^ 23) with hless | hmore
  · exact recounted_recounted_of_lt hless
  · obtain ⟨a, j, hlow, hhigh, hj, hrounded⟩ := exists_significand hmore h
    have hleast := le_resettled hlow
    have hnear := resettled_near a
    rw [recounted_of_significand hrounded hlow hhigh (by omega)]
    rcases Nat.lt_or_ge (resettled a) (2 ^ 24) with hless | hcarry
    · rw [recounted_mul_two_pow hleast hless (by omega), resettled_resettled]
    · have hsplit : resettled a * 2 ^ j = 2 ^ 23 * 2 ^ (j + 1) := by
        have htop : resettled a = 2 ^ 24 := by omega
        rw [htop]
        ring
      rw [hsplit, recounted_mul_two_pow (by decide) (by decide) (by omega),
        resettled_of_le (by decide)]

theorem recounted_two_pow : recounted (2 ^ 31) = 2 ^ 31 := by
  have hvalue := recounted_mul_two_pow (a := 2 ^ 23) (j := 8) (by decide) (by decide) (by decide)
  rwa [resettled_of_le (by decide), ← pow_add] at hvalue

/-- The greatest count of 32 bits is rounded up, out of them. -/
theorem recounted_max : recounted (2 ^ 31 - 1) = 2 ^ 31 := by
  have hrounded : rounded ((2 ^ 31 - 1) * one) 1 = 2 ^ 23 * 2 ^ (149 + 8) := by
    have hround : divNearestEven (2 ^ 31 - 1) (1 * 2 ^ 7) = 2 ^ 24 :=
      divNearestEven_eq (by decide) (by decide)
    rw [one_eq, rounded_mul_two_pow (i := 7) Nat.one_pos (by decide) (by decide) (by decide),
      hround, ← pow_add, ← pow_add]
  rw [recounted_of_significand hrounded (by decide) (by decide) (by decide),
    resettled_of_le (by decide), ← pow_add]

end count

/-- A count with a sign, kept within 32 bits. -/
theorem toInt_clamped (negative : Prop) [Decidable negative] (count : Nat) :
    (if negative then Int32.ofInt (max (-(count : Int)) Int32.minValue.toInt)
      else Int32.ofInt (min count Int32.maxValue.toInt)).toInt =
      if negative then max (-(count : Int)) (-2 ^ 31) else min count (2 ^ 31 - 1) := by
  have hpos := Int.natCast_nonneg count
  rw [Int32.toInt_minValue, Int32.toInt_maxValue]
  split
  · exact Int32.toInt_ofInt_of_le (by omega) (by omega)
  · exact Int32.toInt_ofInt_of_le (by omega) (by omega)

section word

variable (n : Int32)

theorem nearest_natAbs_lt : nearest (n.toInt.natAbs * one) 1 < infinityPattern := by
  have hle := n.le_toInt
  have hlt := n.toInt_lt
  apply nearest_lt_infinityPattern (e := 157) Nat.one_pos _ (by decide)
  have hpow : 1 * 2 ^ (24 + 157) = 2 ^ 32 * one := by
    rw [one_eq, Nat.one_mul, ← pow_add]
  rw [hpow]
  exact Nat.mul_lt_mul_of_pos_right (by omega) (by decide)

theorem toFixedPoint_ofFixedPoint :
    (ofFixedPoint n).toFixedPoint =
      if n.toInt < 0 then
        Int32.ofInt (max (-(recounted n.toInt.natAbs : Int)) Int32.minValue.toInt)
      else Int32.ofInt (min (recounted n.toInt.natAbs) Int32.maxValue.toInt) := by
  rw [ofFixedPoint, ofInt, divide_nearest (nearest_natAbs_lt n), toFixedPoint, scale_nearest,
    round_nearest]
  simp only [decide_eq_true_eq]
  rfl

theorem toInt_toFixedPoint_ofFixedPoint :
    (ofFixedPoint n).toFixedPoint.toInt =
      if n.toInt < 0 then max (-(recounted n.toInt.natAbs : Int)) (-2 ^ 31)
      else min (recounted n.toInt.natAbs) (2 ^ 31 - 1) := by
  rw [toFixedPoint_ofFixedPoint]
  exact toInt_clamped (n.toInt < 0) (recounted n.toInt.natAbs)

/-- The counts that come back from binary32 as they were. -/
theorem toFixedPoint_ofFixedPoint_of_le (h : |n.toInt| ≤ 5120000) :
    (ofFixedPoint n).toFixedPoint = n := by
  have hbounds := abs_le.mp h
  have hcount : recounted n.toInt.natAbs = n.toInt.natAbs := recounted_of_le (by omega)
  rw [← Int32.toInt_inj, toInt_toFixedPoint_ofFixedPoint, hcount]
  split <;> omega

-- beyond the bound a count may move
example : (ofFixedPoint 5120004).toFixedPoint = 5120005 := by decide +kernel

/-- A word that has been through binary32 stays as it is. -/
theorem toFixedPoint_idempotent :
    (ofFixedPoint (ofFixedPoint n).toFixedPoint).toFixedPoint = (ofFixedPoint n).toFixedPoint := by
  have hle := n.le_toInt
  have hlt := n.toInt_lt
  have hagain : recounted (recounted n.toInt.natAbs) = recounted n.toInt.natAbs :=
    recounted_recounted (by omega)
  have hvalue := toInt_toFixedPoint_ofFixedPoint n
  rw [← Int32.toInt_inj, toInt_toFixedPoint_ofFixedPoint]
  generalize (ofFixedPoint n).toFixedPoint.toInt = word at hvalue ⊢
  generalize recounted n.toInt.natAbs = count at hagain hvalue
  rcases lt_or_ge n.toInt 0 with hnegative | hpositive
  · rw [if_pos hnegative] at hvalue
    rcases Nat.lt_or_ge (2 ^ 31) count with hmore | hless
    · obtain rfl : word = -2 ^ 31 := by omega
      have hborder : recounted (-2 ^ 31 : Int).natAbs = 2 ^ 31 := recounted_two_pow
      rw [if_pos (by decide), hborder]
      rfl
    · obtain rfl : word = -(count : Int) := by omega
      rw [Int.natAbs_neg, Int.natAbs_natCast, hagain]
      split <;> omega
  · rw [if_neg (not_lt.mpr hpositive)] at hvalue
    rcases Nat.lt_or_ge (2 ^ 31 - 1) count with hmore | hless
    · obtain rfl : word = 2 ^ 31 - 1 := by omega
      have hborder : recounted (2 ^ 31 - 1 : Int).natAbs = 2 ^ 31 := recounted_max
      rw [if_neg (by decide), hborder]
      rfl
    · obtain rfl : word = (count : Int) := by omega
      rw [Int.natAbs_natCast, hagain]
      split <;> omega

end word

end Savegame.Binary32
