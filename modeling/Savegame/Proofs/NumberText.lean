import Savegame.CommandLine.Summary
import Savegame.Proofs.Decimal
import Savegame.Proofs.Rounding

/-!
# The texts of numbers are read back

The shortest decimal of a positive number is not zero, so neither of its two layouts starts with a
zero that other digits follow.
-/

namespace Savegame

namespace Json

theorem isRun_decimal (width n : Nat) : IsRun (Numeral.decimal width n).toList := by
  refine ⟨fun c hc => Numeral.isDigit_of_mem_decimal hc, ?_⟩
  rw [Numeral.toList_decimal]
  exact List.append_ne_nil_of_right_ne_nil _ Nat.toDigits_ne_nil

theorem IsRun.of_subset {run piece : List Char} (h : IsRun run) (hpiece : piece ⊆ run)
    (hne : piece ≠ []) : IsRun piece :=
  ⟨fun c hc => h.digits c (hpiece hc), hne⟩

/-- A run of one digit may be a zero. -/
theorem IsRun.isWhole {run : List Char} (h : IsRun run) (hlength : run.length = 1) : IsWhole run :=
  ⟨h, fun _ => hlength⟩

end Json

namespace Binary32

open Json (IsRun IsWhole IsPlaces IsPower IsUnsigned IsDecimal)

namespace Shortest

theorem Interval.not_contains_zero {i : Interval} {g : Grid} (hlow : 0 < i.low)
    (hquarter : 0 < g.quarter) : i.contains g 0 = false := by
  have hpos : 0 < i.low * g.quarter := Nat.mul_pos hlow hquarter
  rw [contains, Nat.zero_mul]
  split
  · simp only [Bool.and_eq_false_iff, decide_eq_false_iff_not]
    exact .inl (by omega)
  · simp

theorem pick_ne_zero {i : Interval} {g : Grid} (hzero : i.contains g 0 = false) {digits : Nat}
    (h : pick i g = some digits) : digits ≠ 0 := by
  have hinside : ∀ n, i.contains g n = true → n ≠ 0 := by
    rintro n hn rfl
    exact absurd hn (by rw [hzero]; exact Bool.false_ne_true)
  rw [pick] at h
  split at h
  next hbelow _ =>
    obtain rfl := Option.some.inj h
    rcases divNearestEven_cases (i.middle * g.quarter) g.step with heq | heq
    · rw [heq]
      exact hinside _ hbelow
    · rw [heq]
      exact Nat.succ_ne_zero _
  next hbelow _ => exact Option.some.inj h ▸ hinside _ hbelow
  next => exact Option.some.inj h ▸ Nat.succ_ne_zero _
  next => cases h

theorem digits_search_ne_zero {i : Interval} (hlow : 0 < i.low) {exponent : Int} {fuel : Nat}
    {d : Decimal} (h : search i exponent fuel = some d) : d.digits ≠ 0 := by
  induction fuel generalizing exponent with
  | zero => cases h
  | succ fuel ih =>
    rw [search] at h
    split at h
    next digits hpick =>
      obtain rfl := Option.some.inj h
      exact pick_ne_zero (Interval.not_contains_zero hlow (Nat.pow_pos (by decide))) hpick
    next => exact ih h

end Shortest

theorem Decimal.digits_trim_ne_zero {d : Decimal} (h : d.digits ≠ 0) (fuel : Nat) :
    (d.trim fuel).digits ≠ 0 := by
  induction fuel generalizing d with
  | zero => exact h
  | succ fuel ih =>
    rw [trim]
    split
    case isTrue hzeros => exact ih (d := ⟨d.digits / 10, d.exponent + 1⟩) (by dsimp only; omega)
    case isFalse => exact h

theorem digits_shortest {pattern : Nat} (h : 0 < pattern) :
    (shortest pattern).digits ≠ 0 ∨ (shortest pattern).exponent = 0 := by
  rw [shortest]
  split
  next d hsearch =>
    have hlow : 0 < (Shortest.Interval.of pattern).low :=
      Nat.mul_pos (by decide) (Nat.add_pos_left (units_pos h) _)
    exact .inl (Decimal.digits_trim_ne_zero (Shortest.digits_search_ne_zero hlow hsearch) 12)
  next => exact .inr rfl

/-- Zeros are only filled in behind a digit that is not zero. -/
theorem isWhole_fill {n zeros : Nat} (h : n ≠ 0 ∨ zeros = 0) :
    IsWhole (Nat.toDigits 10 n ++ List.replicate zeros '0') := by
  have hwhole := Json.isWhole_toDigits n
  rcases h with hn | rfl
  · refine ⟨⟨fun c hc => ?_, List.append_ne_nil_of_left_ne_nil hwhole.notEmpty _⟩, fun hhead => ?_⟩
    · rcases List.mem_append.mp hc with hdigit | hzero
      · exact hwhole.digits c hdigit
      · rw [List.eq_of_mem_replicate hzero]
        rfl
    · rw [List.head?_append_of_ne_nil _ hwhole.notEmpty] at hhead
      exact absurd hhead (Numeral.head?_toDigits_ne_zero (Nat.pos_of_ne_zero hn))
  · rwa [List.replicate_zero, List.append_nil]

/-- What stands before the point once there are more digits than places. -/
theorem isWhole_take (n : Nat) {places : Nat} (hplaces : 0 < places) :
    let padded := (Numeral.decimal (places + 1) n).toList
    IsWhole (padded.take (padded.length - places)) := by
  intro padded
  have hrun : IsRun padded := Json.isRun_decimal (places + 1) n
  have hlist : padded = _ := Numeral.toList_decimal (places + 1) n
  have hlength := congrArg List.length hlist
  rw [List.length_append, List.length_replicate] at hlength
  have hne : padded.take (padded.length - places) ≠ [] := by
    rw [ne_eq, List.take_eq_nil_iff]
    rintro (hzero | hnil)
    · omega
    · exact hrun.notEmpty hnil
  have hpiece := hrun.of_subset (List.take_subset _ _) hne
  rcases Nat.lt_or_ge places (Nat.toDigits 10 n).length with hlong | hshort
  · refine ⟨hpiece, fun hhead => ?_⟩
    have hsame : padded = Nat.toDigits 10 n := by
      rw [hlist, Nat.sub_eq_zero_of_le (by omega), List.replicate_zero, List.nil_append]
    rw [List.head?_take, if_neg (by omega), hsame] at hhead
    have hone := (Json.isWhole_toDigits n).lead hhead
    omega
  · apply hpiece.isWhole
    rw [List.length_take]
    omega

theorem isUnsigned_positional {d : Decimal} (h : d.digits ≠ 0 ∨ d.exponent = 0) :
    IsUnsigned (positional d).toList := by
  rw [positional]
  dsimp only
  split
  case isTrue hpos =>
    have hwhole : IsWhole (Nat.toDigits 10 d.digits ++ List.replicate d.exponent.toNat '0') :=
      isWhole_fill (by omega)
    have hplaces : IsPlaces ['.', '0'] := .some ⟨by simp, by simp⟩
    have hunsigned := IsUnsigned.mk hwhole hplaces .none (by simp)
    simpa [Numeral.toList_decimal_one] using hunsigned
  case isFalse hneg =>
    have hplaces : 0 < (-d.exponent).toNat := by omega
    generalize (-d.exponent).toNat = places at hplaces
    have hrun : IsRun (Numeral.decimal (places + 1) d.digits).toList := Json.isRun_decimal _ _
    have hwhole := isWhole_take d.digits hplaces
    generalize (Numeral.decimal (places + 1) d.digits).toList = padded at hrun hwhole
    have hne : padded.drop (padded.length - places) ≠ [] := by
      have hpos := List.length_pos_iff.mpr hrun.notEmpty
      rw [ne_eq, List.drop_eq_nil_iff]
      omega
    have hrest := hrun.of_subset (List.drop_subset _ _) hne
    have hunsigned := IsUnsigned.mk hwhole (.some hrest) .none (by simp)
    simpa using hunsigned

theorem isUnsigned_scientific (d : Decimal) : IsUnsigned (scientific d).toList := by
  rw [scientific]
  have hrun : IsRun (Numeral.decimal 1 d.digits).toList := Json.isRun_decimal _ _
  generalize (Numeral.decimal 1 d.digits).toList = digits at hrun
  generalize d.exponent + ((digits.length - 1 : Nat) : Int) = exponent
  have hpower : IsPower ('e' :: ((if exponent < 0 then "-" else "+").toList ++
      (Numeral.decimal 1 exponent.natAbs).toList)) := by
    split
    · exact .some (.inr rfl) (Json.isRun_decimal 1 _)
    · exact .some (.inl rfl) (Json.isRun_decimal 1 _)
  cases digits with
  | nil => exact absurd rfl hrun.notEmpty
  | cons c rest =>
    have hfirst : IsWhole [c] := (hrun.of_subset (by simp) (List.cons_ne_nil _ _)).isWhole rfl
    cases rest with
    | nil => simpa using IsUnsigned.mk hfirst .none hpower (by simp)
    | cons next rest =>
      have hrest := hrun.of_subset (List.subset_cons_self _ _) (List.cons_ne_nil _ _)
      simpa using IsUnsigned.mk hfirst (.some hrest) hpower (by simp)

theorem isDecimal_toText? {layout : Layout} {x : Binary32} {text : String}
    (h : x.toText? layout = some text) : IsDecimal text.toList := by
  have hsign : ∀ digits : String, IsUnsigned digits.toList →
      IsDecimal ((if x.isNegative then "-" else "") ++ digits).toList := by
    intro digits hdigits
    split
    · simpa using IsDecimal.negative hdigits
    · simpa using IsDecimal.positive hdigits
  rw [toText?] at h
  generalize (if x.isNegative then "-" else "") = sign at h hsign
  split at h
  · split at h
    · obtain rfl := Option.some.inj h
      exact hsign "0.0" (isUnsigned_positional (d := ⟨0, 0⟩) (.inr rfl))
    next hne =>
      obtain rfl := Option.some.inj h
      apply hsign
      split
      · exact isUnsigned_positional (digits_shortest (Nat.pos_of_ne_zero hne))
      · exact isUnsigned_scientific _
  · cases h

end Binary32

namespace Summary

open Json (ReadsBack)

theorem readsBack_number (x : Binary32) : ReadsBack (number x) := by
  rw [number]
  split
  next h => exact Json.readsBack_decimal (Binary32.isDecimal_toText? h)
  next => exact Json.readsBack_null

end Summary

end Savegame
