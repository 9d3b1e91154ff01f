import Mathlib.Data.Nat.Log
import Mathlib.Tactic.Ring
import Savegame.Binary32.Basic

/-!
# Rounding to the nearest number

Where a quotient has 24 bits or more, `nearest` rounds it to an integer times a power of two, with
one rounding of integers. Magnitudes of at most 24 bits are left as they are. Rounding keeps the
order of quotients, and it moves none by more than half a step.
-/

namespace Savegame.Binary32

theorem one_eq : one = 2 ^ 149 :=
  Nat.one_shiftLeft 149

theorem units_pos {pattern : Nat} (h : 0 < pattern) : 0 < units pattern := by
  rw [units, Nat.shiftLeft_eq]
  apply Nat.mul_pos _ (Nat.two_pow_pos _)
  rw [parts]
  split
  case isTrue => exact h
  case isFalse => exact Nat.add_pos_left (by decide) _

section divNearestEven

variable {num den q : Nat}

theorem divNearestEven_cases (num den : Nat) :
    divNearestEven num den = num / den ∨ divNearestEven num den = num / den + 1 := by
  rw [divNearestEven]
  split
  · exact .inl rfl
  · split
    · exact .inr rfl
    · rcases Nat.mod_two_eq_zero_or_one (num / den) with heven | hodd
      · exact .inl (by rw [heven, Nat.add_zero])
      · exact .inr (by rw [hodd])

/-- The rounded quotient is off by half a divisor at most. -/
theorem divNearestEven_near (num : Nat) (h : 0 < den) :
    2 * num ≤ 2 * (divNearestEven num den * den) + den ∧
      2 * (divNearestEven num den * den) ≤ 2 * num + den := by
  have hdiv := Nat.div_add_mod' num den
  have hmod := Nat.mod_lt num h
  have hsucc : (num / den + 1) * den = num / den * den + den := Nat.succ_mul _ _
  rw [divNearestEven]
  split
  · omega
  · split
    · omega
    · rcases Nat.mod_two_eq_zero_or_one (num / den) with heven | hodd
      · rw [heven, Nat.add_zero]
        omega
      · rw [hodd]
        omega

theorem divNearestEven_le (hden : 0 < den) (h : num ≤ q * den) : divNearestEven num den ≤ q := by
  obtain ⟨-, hbelow⟩ := divNearestEven_near num hden
  by_contra hlarge
  have hmul := Nat.mul_le_mul_right den (not_le.mp hlarge)
  rw [Nat.succ_mul] at hmul
  omega

theorem le_divNearestEven (hden : 0 < den) (h : q * den ≤ num) : q ≤ divNearestEven num den := by
  obtain ⟨habove, -⟩ := divNearestEven_near num hden
  by_contra hsmall
  have hmul := Nat.mul_le_mul_right den (not_le.mp hsmall)
  rw [Nat.succ_mul] at hmul
  omega

theorem divNearestEven_mono {num' : Nat} (hden : 0 < den) (h : num ≤ num') :
    divNearestEven num den ≤ divNearestEven num' den := by
  rcases Nat.eq_or_lt_of_le h with rfl | hlt
  · exact Nat.le_refl _
  · by_contra hless
    obtain ⟨-, hbelow⟩ := divNearestEven_near num hden
    obtain ⟨habove, -⟩ := divNearestEven_near num' hden
    have hmul := Nat.mul_le_mul_right den (not_le.mp hless)
    rw [Nat.succ_mul] at hmul
    omega

/-- An integer that is off by less than half a divisor is the rounded quotient. -/
theorem divNearestEven_eq (habove : 2 * num < 2 * (q * den) + den)
    (hbelow : 2 * (q * den) < 2 * num + den) : divNearestEven num den = q := by
  have hden : 0 < den := by omega
  obtain ⟨hnear, hnear'⟩ := divNearestEven_near num hden
  rcases Nat.lt_trichotomy (divNearestEven num den) q with hsmall | heq | hlarge
  · have hmul := Nat.mul_le_mul_right den hsmall
    rw [Nat.succ_mul] at hmul
    omega
  · exact heq
  · have hmul := Nat.mul_le_mul_right den hlarge
    rw [Nat.succ_mul] at hmul
    omega

theorem divNearestEven_mul_right (num den : Nat) {c : Nat} (h : 0 < c) :
    divNearestEven (num * c) (den * c) = divNearestEven num den := by
  have hless (a b : Nat) : 2 * (a * c) < b * c ↔ 2 * a < b := by
    rw [← Nat.mul_assoc, Nat.mul_lt_mul_right h]
  have hmore (a b : Nat) : b * c < 2 * (a * c) ↔ b < 2 * a := by
    rw [← Nat.mul_assoc, Nat.mul_lt_mul_right h]
  simp only [divNearestEven, Nat.mul_div_mul_right num den h, Nat.mul_mod_mul_right, hless, hmore]

@[simp]
theorem divNearestEven_one (num : Nat) : divNearestEven num 1 = num :=
  divNearestEven_eq (by omega) (by omega)

end divNearestEven

/-- The pattern of a significand at a power of two. A significand of more than 24 bits moves on to
the next power. -/
theorem units_add {e significand : Nat} (h : e = 0 ∨ hiddenBit ≤ significand)
    (hle : significand ≤ 2 * hiddenBit) :
    units (e * hiddenBit + significand) = significand * 2 ^ e := by
  rw [units, Nat.shiftLeft_eq, parts]
  rcases Nat.lt_or_ge significand hiddenBit with hsmall | hlarge
  · obtain rfl : e = 0 := h.resolve_right (not_le.mpr hsmall)
    rw [Nat.zero_mul, Nat.zero_add, if_pos hsmall]
  · have hhidden : 0 < hiddenBit := by decide
    obtain ⟨rest, rfl⟩ := Nat.exists_eq_add_of_le hlarge
    have hsum : e * hiddenBit + (hiddenBit + rest) = rest + (e + 1) * hiddenBit := by ring
    rw [if_neg (by omega), hsum, Nat.add_mul_mod_self_right, Nat.add_mul_div_right _ _ hhidden]
    rcases Nat.lt_or_ge rest hiddenBit with hrest | hcarry
    · rw [Nat.mod_eq_of_lt hrest, Nat.div_eq_of_lt hrest, Nat.zero_add, Nat.add_sub_cancel]
    · obtain rfl : rest = hiddenBit := by omega
      rw [Nat.mod_self, Nat.div_self hhidden, Nat.add_comm 1, Nat.add_sub_cancel]
      ring

/-- Every pattern is a significand at a power of two. -/
theorem exists_significand_of_pattern (pattern : Nat) :
    ∃ e significand, pattern = e * hiddenBit + significand ∧
      (e = 0 ∨ hiddenBit ≤ significand) ∧ significand < 2 * hiddenBit := by
  have hhidden : 0 < hiddenBit := by decide
  rcases Nat.lt_or_ge pattern hiddenBit with hsmall | hlarge
  · exact ⟨0, pattern, by omega, .inl rfl, by omega⟩
  · have hdiv := Nat.div_add_mod' pattern hiddenBit
    have hmod := Nat.mod_lt pattern hhidden
    obtain ⟨e, he⟩ := Nat.exists_eq_add_of_le' ((Nat.one_le_div_iff hhidden).mpr hlarge)
    rw [he, Nat.succ_mul] at hdiv
    exact ⟨e, hiddenBit + pattern % hiddenBit, by omega, .inr (by omega), by omega⟩

/-- Magnitudes are in the order of their patterns. -/
theorem units_strictMono : StrictMono units := by
  apply strictMono_nat_of_lt_succ
  intro pattern
  obtain ⟨e, significand, rfl, hlow, hhigh⟩ := exists_significand_of_pattern pattern
  rw [Nat.add_assoc, units_add hlow hhigh.le, units_add (hlow.imp_right Nat.le_succ_of_le) hhigh]
  exact Nat.mul_lt_mul_of_pos_right (Nat.lt_succ_self _) (Nat.two_pow_pos e)

/-- The magnitude nearest to a quotient of magnitudes. -/
def rounded (num den : Nat) : Nat :=
  units (nearest num den)

section rounded

variable {num den x e s i : Nat}

theorem log2_div_sub (hden : 0 < den) (hlow : e = 0 ∨ den * 2 ^ (23 + e) ≤ num)
    (hhigh : num < den * 2 ^ (24 + e)) : Nat.log2 (num / den) - 23 = e := by
  have hlt : num / den < 2 ^ (24 + e) := Nat.div_lt_of_lt_mul hhigh
  have hge (h : den * 2 ^ (23 + e) ≤ num) : 2 ^ (23 + e) ≤ num / den := by
    rwa [Nat.le_div_iff_mul_le hden, Nat.mul_comm]
  rcases Nat.eq_zero_or_pos (num / den) with hzero | hpos
  · rcases hlow with rfl | hlow
    · rw [hzero]
      rfl
    · have hquotient := hge hlow
      have htwo := Nat.two_pow_pos (23 + e)
      omega
  · have hlog := (Nat.log2_lt hpos.ne').mpr hlt
    rcases hlow with rfl | hlow
    · omega
    · have hlog' := (Nat.le_log2 hpos.ne').mpr (hge hlow)
      omega

theorem significand_le (hden : 0 < den) (h : num < den * 2 ^ (24 + e)) :
    divNearestEven num (den * 2 ^ e) ≤ 2 * hiddenBit := by
  apply divNearestEven_le (Nat.mul_pos hden (Nat.two_pow_pos e))
  have hpow : 2 * hiddenBit * (den * 2 ^ e) = den * 2 ^ (24 + e) := by
    rw [pow_add, hiddenBit]
    ring
  omega

theorem le_significand (hden : 0 < den) (h : den * 2 ^ (23 + e) ≤ num) :
    hiddenBit ≤ divNearestEven num (den * 2 ^ e) := by
  apply le_divNearestEven (Nat.mul_pos hden (Nat.two_pow_pos e))
  have hpow : hiddenBit * (den * 2 ^ e) = den * 2 ^ (23 + e) := by
    rw [pow_add, hiddenBit]
    ring
  omega

/-- The pattern of a rounded quotient, if patterns went on beyond infinity. -/
def unclamped (num den : Nat) : Nat :=
  let scale := Nat.log2 (num / den) - 23
  scale * hiddenBit + divNearestEven num (den <<< scale)

theorem nearest_eq_min (num den : Nat) :
    nearest num den = min infinityPattern (unclamped num den) := rfl

theorem unclamped_eq (hden : 0 < den) (hlow : e = 0 ∨ den * 2 ^ (23 + e) ≤ num)
    (hhigh : num < den * 2 ^ (24 + e)) :
    unclamped num den = e * hiddenBit + divNearestEven num (den * 2 ^ e) := by
  rw [unclamped, log2_div_sub hden hlow hhigh, Nat.shiftLeft_eq]

theorem nearest_eq (hden : 0 < den) (hlow : e = 0 ∨ den * 2 ^ (23 + e) ≤ num)
    (hhigh : num < den * 2 ^ (24 + e)) (he : e ≤ 252) :
    let significand := divNearestEven num (den * 2 ^ e)
    nearest num den = e * hiddenBit + significand ∧ significand ≤ 2 * hiddenBit ∧
      (e = 0 ∨ hiddenBit ≤ significand) := by
  intro significand
  have hle : significand ≤ 2 * hiddenBit := significand_le hden hhigh
  refine ⟨?_, hle, hlow.imp_right (le_significand hden)⟩
  rw [nearest_eq_min, unclamped_eq hden hlow hhigh]
  apply min_eq_right
  rw [hiddenBit] at hle ⊢
  rw [infinityPattern]
  change e * 0x800000 + significand ≤ _
  omega

theorem rounded_eq (hden : 0 < den) (hlow : e = 0 ∨ den * 2 ^ (23 + e) ≤ num)
    (hhigh : num < den * 2 ^ (24 + e)) (he : e ≤ 252) :
    rounded num den = divNearestEven num (den * 2 ^ e) * 2 ^ e := by
  obtain ⟨hnearest, hle, hfull⟩ := nearest_eq hden hlow hhigh he
  rw [rounded, hnearest, units_add hfull hle]

/-- The power of two that a quotient is rounded at. -/
theorem exists_scale {bound : Nat} (h : num < den * 2 ^ (24 + bound)) :
    ∃ e ≤ bound, (e = 0 ∨ den * 2 ^ (23 + e) ≤ num) ∧ num < den * 2 ^ (24 + e) := by
  induction bound with
  | zero => exact ⟨0, Nat.le_refl 0, .inl rfl, h⟩
  | succ bound ih =>
    rcases Nat.lt_or_ge num (den * 2 ^ (24 + bound)) with hless | hmore
    · obtain ⟨e, he, hlow, hhigh⟩ := ih hless
      exact ⟨e, Nat.le_succ_of_le he, hlow, hhigh⟩
    · refine ⟨bound + 1, Nat.le_refl _, .inr ?_, h⟩
      rwa [← Nat.add_assoc, Nat.add_right_comm]

theorem nearest_lt_infinityPattern (hden : 0 < den) (h : num < den * 2 ^ (24 + e))
    (he : e ≤ 252) : nearest num den < infinityPattern := by
  obtain ⟨scale, hscale, hlow, hhigh⟩ := exists_scale h
  obtain ⟨hnearest, hle, -⟩ := nearest_eq hden hlow hhigh (hscale.trans he)
  rw [hnearest]
  rw [hiddenBit] at hle ⊢
  rw [infinityPattern]
  omega

theorem exists_scale_of_pos (num : Nat) (hden : 0 < den) :
    ∃ e, (e = 0 ∨ den * 2 ^ (23 + e) ≤ num) ∧ num < den * 2 ^ (24 + e) := by
  have hbound : num < den * 2 ^ (24 + num) := by
    calc num < 2 ^ num := Nat.lt_two_pow_self
      _ ≤ 2 ^ (24 + num) := Nat.pow_le_pow_right (by decide) (by omega)
      _ ≤ den * 2 ^ (24 + num) := Nat.le_mul_of_pos_left _ hden
  obtain ⟨e, -, hscale⟩ := exists_scale hbound
  exact ⟨e, hscale⟩

/-- Greater quotients have greater patterns: on one scale because of their significands, on two
because no significand goes further than where the next scale starts. -/
theorem unclamped_mono {num' : Nat} (hden : 0 < den) (h : num ≤ num') :
    unclamped num den ≤ unclamped num' den := by
  obtain ⟨e, hlow, hhigh⟩ := exists_scale_of_pos num hden
  obtain ⟨e', hlow', hhigh'⟩ := exists_scale_of_pos num' hden
  rw [unclamped_eq hden hlow hhigh, unclamped_eq hden hlow' hhigh']
  rcases Nat.lt_trichotomy e e' with hless | rfl | hmore
  · have hlast := significand_le hden hhigh
    have hfirst := le_significand hden (hlow'.resolve_left (by omega))
    have hscale := Nat.mul_le_mul_right hiddenBit hless
    rw [Nat.succ_mul] at hscale
    omega
  · apply Nat.add_le_add_left
    exact divNearestEven_mono (Nat.mul_pos hden (Nat.two_pow_pos e)) h
  · have hgap : den * 2 ^ (24 + e') ≤ den * 2 ^ (23 + e) :=
      Nat.mul_le_mul_left den (Nat.pow_le_pow_right (by decide) (by omega))
    have hlarge := hlow.resolve_left (by omega)
    omega

theorem rounded_mono {num' : Nat} (hden : 0 < den) (h : num ≤ num') :
    rounded num den ≤ rounded num' den := by
  apply units_strictMono.monotone
  rw [nearest_eq_min, nearest_eq_min]
  exact min_le_min_left infinityPattern (unclamped_mono hden h)

/-- What is rounded is off by half a step at most, on its own scale or on any coarser one. -/
theorem rounded_near (hden : 0 < den) (h : num < den * 2 ^ (24 + e)) (he : e ≤ 252) :
    2 * num ≤ 2 * (rounded num den * den) + den * 2 ^ e ∧
      2 * (rounded num den * den) ≤ 2 * num + den * 2 ^ e := by
  obtain ⟨scale, hscale, hlow, hhigh⟩ := exists_scale h
  obtain ⟨habove, hbelow⟩ := divNearestEven_near num (Nat.mul_pos hden (Nat.two_pow_pos scale))
  have hstep : den * 2 ^ scale ≤ den * 2 ^ e :=
    Nat.mul_le_mul_left den (Nat.pow_le_pow_right (by decide) hscale)
  have hrounded : rounded num den * den =
      divNearestEven num (den * 2 ^ scale) * (den * 2 ^ scale) := by
    rw [rounded_eq hden hlow hhigh (hscale.trans he), Nat.mul_assoc, Nat.mul_comm den]
  rw [hrounded]
  omega

/-- Powers of two pass through a rounding. -/
theorem rounded_mul_two_pow (hden : 0 < den) (hlow : den * 2 ^ (23 + i) ≤ x)
    (hhigh : x < den * 2 ^ (24 + i)) (hs : s + i ≤ 252) :
    rounded (x * 2 ^ s) den = divNearestEven x (den * 2 ^ i) * 2 ^ (s + i) := by
  have hpow (k : Nat) : den * 2 ^ (k + (s + i)) = den * 2 ^ (k + i) * 2 ^ s := by ring
  have hstep : den * 2 ^ (s + i) = den * 2 ^ i * 2 ^ s := by ring
  have htwo := Nat.two_pow_pos s
  rw [rounded_eq hden (.inr ?_) ?_ hs, hstep, divNearestEven_mul_right _ _ htwo]
  · rw [hpow]
    exact Nat.mul_le_mul_right _ hlow
  · rw [hpow]
    exact Nat.mul_lt_mul_of_pos_right hhigh htwo

/-- A magnitude of fewer than 24 bits is shifted until it has 24. -/
theorem exists_normal (hpos : 0 < x) (h : x < 2 ^ 24) :
    ∃ i ≤ 23, 2 ^ 23 ≤ x * 2 ^ i ∧ x * 2 ^ i < 2 ^ 24 := by
  have hlog := (Nat.log2_lt hpos.ne').mpr h
  obtain ⟨i, hi⟩ : ∃ i, x.log2 + i = 23 := Nat.exists_eq_add_of_le (Nat.le_of_lt_succ hlog) |>.imp
    fun _ h => h.symm
  refine ⟨i, by omega, ?_, ?_⟩
  · calc 2 ^ 23 = 2 ^ x.log2 * 2 ^ i := by rw [← pow_add, hi]
      _ ≤ x * 2 ^ i := Nat.mul_le_mul_right _ (Nat.log2_self_le hpos.ne')
  · calc x * 2 ^ i < 2 ^ (x.log2 + 1) * 2 ^ i :=
        Nat.mul_lt_mul_of_pos_right Nat.lt_log2_self (Nat.two_pow_pos i)
      _ = 2 ^ 24 := by rw [← pow_add, Nat.add_right_comm, hi]

/-- Magnitudes of at most 24 bits are not rounded. -/
theorem rounded_one (hx : x < 2 ^ 24) (hs : 23 ≤ s) (hs' : s ≤ 252) :
    rounded (x * 2 ^ s) 1 = x * 2 ^ s := by
  rcases Nat.eq_zero_or_pos x with rfl | hpos
  · rw [Nat.zero_mul]
    rfl
  · obtain ⟨i, hi, hlow, hhigh⟩ := exists_normal hpos hx
    have hsplit : x * 2 ^ s = x * 2 ^ i * 2 ^ (s - i) := by
      rw [Nat.mul_assoc, ← pow_add]
      congr 2
      omega
    rw [hsplit, rounded_mul_two_pow (i := 0) Nat.one_pos (by omega) (by omega) (by omega),
      pow_zero, Nat.mul_one, divNearestEven_one, Nat.add_zero]

end rounded

section ofPattern

variable {negative : Bool} {pattern num den : Nat}

theorem toNat_bits_ofPattern (h : pattern < signBit) :
    (ofPattern negative pattern).bits.toNat = if negative then signBit + pattern else pattern := by
  rw [signBit] at h
  rw [ofPattern, UInt32.toNat_ofNat', signBit]
  apply Nat.mod_eq_of_lt
  split <;> omega

theorem pattern_ofPattern (h : pattern < signBit) : (ofPattern negative pattern).pattern = pattern := by
  rw [Binary32.pattern, toNat_bits_ofPattern h]
  split
  · rw [Nat.add_mod_left, Nat.mod_eq_of_lt h]
  · exact Nat.mod_eq_of_lt h

theorem isNegative_ofPattern (h : pattern < signBit) :
    (ofPattern negative pattern).isNegative = negative := by
  rw [isNegative, toNat_bits_ofPattern h]
  cases negative with
  | true => exact decide_eq_true (Nat.le_add_right _ _)
  | false => exact decide_eq_false (not_le.mpr h)

theorem nearest_le (num den : Nat) : nearest num den ≤ infinityPattern :=
  Nat.min_le_left _ _

theorem nearest_lt_signBit (num den : Nat) : nearest num den < signBit :=
  (nearest_le num den).trans_lt (by decide)

theorem isNaN_nearest : (ofPattern negative (nearest num den)).isNaN = false := by
  rw [isNaN, pattern_ofPattern (nearest_lt_signBit num den)]
  exact decide_eq_false (not_lt.mpr (nearest_le num den))

theorem scale_nearest (factor : Nat) :
    (ofPattern negative (nearest num den)).scale factor =
      ofPattern negative (nearest (rounded num den * factor) 1) := by
  have hlt := nearest_lt_signBit num den
  rw [scale, isNaN_nearest, if_neg Bool.false_ne_true, isNegative_ofPattern hlt,
    pattern_ofPattern hlt, rounded]

theorem divide_nearest (h : nearest num den < infinityPattern) (divisor : Nat) :
    (ofPattern negative (nearest num den)).divide divisor =
      ofPattern negative (nearest (rounded num den) divisor) := by
  have hlt := nearest_lt_signBit num den
  have hfinite : (ofPattern negative (nearest num den)).isFinite = true := by
    rw [isFinite, pattern_ofPattern hlt]
    exact decide_eq_true h
  rw [divide, isNaN_nearest, if_neg Bool.false_ne_true, if_pos hfinite, isNegative_ofPattern hlt,
    pattern_ofPattern hlt, rounded]

theorem round_nearest :
    (ofPattern negative (nearest num den)).round =
      let magnitude : Int := ((2 * rounded num den + one) / (2 * one) : Nat)
      if negative then Int32.ofInt (max (-magnitude) Int32.minValue.toInt)
      else Int32.ofInt (min magnitude Int32.maxValue.toInt) := by
  have hlt := nearest_lt_signBit num den
  rw [round, isNaN_nearest, if_neg Bool.false_ne_true, isNegative_ofPattern hlt,
    pattern_ofPattern hlt, rounded]

end ofPattern

end Savegame.Binary32
