import Savegame.Proofs.Number
import Savegame.Proofs.SavedNumbers

/-!
# The precision of fixed point

Up to 512 a number comes back from fixed point within a ten-thousandth, which is one step. Three
errors add up: the product is off by a quarter of a step at worst, the count of steps by half of
one, and the quotient by less than a sixth.
-/

namespace Savegame.Binary32

section magnitude

variable {m n : Nat}

theorem steps_le (h : m ≤ 512 * one) : steps m ≤ 5120000 := by
  have hlast : steps (512 * one) = 5120000 := by decide +kernel
  exact hlast ▸ steps_mono h

/-- The product is off by a quarter of a step, and the count of steps by another half. -/
theorem steps_near (h : m ≤ 512 * one) :
    4 * (m * precision) ≤ 4 * (steps m * one) + 3 * one ∧
      4 * (steps m * one) ≤ 4 * (m * precision) + 3 * one := by
  have hone : one = 2 * 2 ^ 148 := by
    rw [one_eq]
    rfl
  have hlimit : 1 * 2 ^ (24 + 148) = 2 ^ 23 * one := by
    rw [hone]
    rfl
  have hnum : m * precision < 1 * 2 ^ (24 + 148) := by
    rw [hlimit, precision]
    rw [hone] at h ⊢
    omega
  obtain ⟨habove, hbelow⟩ := rounded_near Nat.one_pos hnum (by decide)
  have hdiv := Nat.div_add_mod (2 * rounded (m * precision) 1 + one) (2 * one)
  have hmod := Nat.mod_lt (2 * rounded (m * precision) 1 + one) (y := 2 * one) (by rw [hone]; omega)
  have hsteps : 2 * one * steps m = 2 * (steps m * one) := by ring
  rw [← steps, hsteps] at hdiv
  rw [hone] at hdiv hmod ⊢
  omega

/-- The quotient is off by less than a sixth of a step. -/
theorem stepped_near (h : n ≤ 5120000) :
    6 * (n * one) ≤ 6 * (stepped n * precision) + one ∧
      6 * (stepped n * precision) ≤ 6 * (n * one) + one := by
  have hone : one = 2 ^ 15 * 2 ^ 134 := by
    rw [one_eq]
    rfl
  rcases Nat.lt_or_eq_of_le h with hless | rfl
  · have hlimit : precision * 2 ^ (24 + 134) = 5120000 * one := by
      rw [hone]
      rfl
    have hnum : n * one < precision * 2 ^ (24 + 134) := by
      rw [hlimit]
      exact Nat.mul_lt_mul_of_pos_right hless (by rw [hone]; decide)
    obtain ⟨habove, hbelow⟩ := rounded_near precision_pos hnum (by decide)
    rw [stepped, rounded_one_mul (by omega)]
    rw [hone] at habove hbelow ⊢
    rw [precision] at habove hbelow ⊢
    omega
  · -- The bound itself is a power of two and comes back as it is.
    have hlast : stepped 5120000 * precision = 5120000 * one := by decide +kernel
    rw [hlast]
    omega

theorem stepped_steps_near (h : m ≤ 512 * one) :
    m * precision ≤ stepped (steps m) * precision + one ∧
      stepped (steps m) * precision ≤ m * precision + one := by
  obtain ⟨hsteps, hsteps'⟩ := steps_near h
  obtain ⟨hstepped, hstepped'⟩ := stepped_near (steps_le h)
  omega

end magnitude

section word

variable {x : Binary32}

theorem abs_value_le_iff (n : Nat) : |x.value| ≤ n ↔ units x.pattern ≤ n * one := by
  rw [abs_value, div_le_iff₀ one_pos]
  norm_cast

theorem isNaN_of_isFinite (h : x.isFinite = true) : x.isNaN = false := by
  rw [isFinite, decide_eq_true_iff] at h
  exact decide_eq_false (Nat.lt_asymm h)

/-- Within the bound no count is held back, and the sign is kept. -/
theorem signedUnits_ofFixedPoint_toFixedPoint (hfinite : x.isFinite = true)
    (h : units x.pattern ≤ 512 * one) :
    (ofFixedPoint x.toFixedPoint).signedUnits =
      signed x.isNegative (stepped (steps (units x.pattern))) := by
  have hsteps := steps_le h
  have habs := natAbs_signed x.isNegative (steps (units x.pattern))
  have hcount : x.toFixedPoint.toInt = signed x.isNegative (steps (units x.pattern)) := by
    rw [toInt_toFixedPoint (isNaN_of_isFinite hfinite)]
    omega
  rw [signedUnits_ofFixedPoint, hcount, signed_signed stepped_zero]

theorem ofFixedPoint_toFixedPoint_near (hfinite : x.isFinite = true) (h : |x.value| ≤ 512) :
    |(ofFixedPoint x.toFixedPoint).value - x.value| ≤ 1 / 10000 := by
  have hunits : units x.pattern ≤ 512 * one := (abs_value_le_iff 512).mp h
  obtain ⟨hbelow, habove⟩ := stepped_steps_near hunits
  have hdistance : |(ofFixedPoint x.toFixedPoint).signedUnits - x.signedUnits| * precision ≤
      one := by
    rw [signedUnits_ofFixedPoint_toFixedPoint hfinite hunits, signedUnits, signed_sub]
    rcases abs_cases ((stepped (steps (units x.pattern)) : Int) - units x.pattern) with h | h
    · rw [h.1, sub_mul]
      omega
    · rw [h.1, neg_sub, sub_mul]
      omega
  have hprecision : (0 : ℚ) < 10000 := by norm_num
  rw [value, value, ← sub_div, abs_div, abs_of_pos one_pos, div_le_div_iff₀ one_pos hprecision,
    one_mul]
  exact_mod_cast hdistance

end word

end Savegame.Binary32

namespace Savegame.Game

/-- A finite number of at most 512 is a ten-thousandth at most from what it comes back from fixed
point as. So is each such number of a game from the one in its place after the game was written at
version 149 and loaded again. -/
theorem fixed_point_precise :
    (∀ x : Binary32, x.isFinite = true → |x.value| ≤ 512 →
      (Binary32.ofFixedPoint x.toFixedPoint).isFinite = true ∧
        |(Binary32.ofFixedPoint x.toFixedPoint).value - x.value| ≤ 1 / 10000) ∧
    ∀ (g other : Game) (room : Option Nat),
      (other.load (g.write 149 room).sink).answer = .ok () →
        List.Forall₂
          (fun x y => x.isFinite = true → |x.value| ≤ 512 →
            y.isFinite = true ∧ |y.value - x.value| ≤ 1 / 10000)
          g.record.reals (other.load (g.write 149 room).sink).state.record.reals := by
  have hnumber (x : Binary32) (hfinite : x.isFinite = true) (h : |x.value| ≤ 512) :
      (Binary32.ofFixedPoint x.toFixedPoint).isFinite = true ∧
        |(Binary32.ofFixedPoint x.toFixedPoint).value - x.value| ≤ 1 / 10000 :=
    ⟨Binary32.isFinite_ofFixedPoint _, Binary32.ofFixedPoint_toFixedPoint_near hfinite h⟩
  refine ⟨hnumber, fun g other room hload => ?_⟩
  rw [reals_of_write hload, List.forall₂_map_right_iff, List.forall₂_same]
  exact fun x _ => hnumber x

/-- The greatest number below 512 and the negative one nearest to zero, saved and loaded. -/
theorem fixed_point_precise_extremes :
    let x : Binary32 := ⟨0x43FFFFFF⟩
    let g := (start {}).lookAt x ⟨0x80000001⟩
    let other := start {}
    (x.isFinite = true ∧ |x.value| ≤ 512) ∧
      |(Binary32.ofFixedPoint x.toFixedPoint).value - x.value| ≤ 1 / 10000 ∧
      (other.load (g.write 149 none).sink).answer = .ok () ∧
        List.Forall₂
          (fun x y => x.isFinite = true → |x.value| ≤ 512 →
            y.isFinite = true ∧ |y.value - x.value| ≤ 1 / 10000)
          g.record.reals (other.load (g.write 149 none).sink).state.record.reals := by
  intro x g other
  have hfinite : x.isFinite = true := by decide
  have hvalue : |x.value| ≤ 512 := (Binary32.abs_value_le_iff 512).mpr (by decide +kernel)
  have hload : (other.load (g.write 149 none).sink).answer = .ok () := by
    have hsavable : g.IsSavable := (Reachable.after (.lookAt x ⟨0x80000001⟩) .start).isSavable.2
    exact g.answer_load_emission (by decide) (by decide) hsavable rfl
  exact ⟨⟨hfinite, hvalue⟩, (fixed_point_precise.1 x hfinite hvalue).2, hload,
    fixed_point_precise.2 g other none hload⟩

end Savegame.Game
