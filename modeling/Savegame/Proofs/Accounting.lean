import Savegame.Proofs.Spacing

/-!
# The account of updates

What any number of updates leaves of a game, wherever the clock jumps. Five counters change: the
frames, the two countdowns, the seconds and the deadline for the next of them. They go by the number
of updates and by those that count a second, and nothing else of the game changes.
-/

namespace Savegame.Game

/-- The value of the countdown that goes by frames. -/
def framesLeft (g : Game) : Int :=
  (g.record.table.read Variable.frameCountdown).toInt

/-- Two readings of a clock that wraps are at most two seconds apart, one way round or the other. -/
def Near (deadline now : UInt32) : Prop :=
  (deadline - now).toNat ≤ 2000 ∨ (now - deadline).toNat ≤ 2000

theorem natAbs_toInt32 (word : UInt32) :
    word.toInt32.toInt.natAbs = min word.toNat (4294967296 - word.toNat) := by
  have hlt := word.toNat_lt
  rw [← Int32.toInt_toBitVec, UInt32.toBitVec_toInt32, BitVec.toInt_eq_toNat_cond,
    UInt32.toNat_toBitVec]
  split <;> omega

/-- The drift is the distance the shorter way round, also half a turn away. -/
theorem near_iff (deadline now : UInt32) :
    Near deadline now ↔ drift deadline now ≤ driftAllowed := by
  have hahead := UInt32.toNat_sub deadline now
  have hbehind := UInt32.toNat_sub now deadline
  have hdeadline := deadline.toNat_lt
  have hnow := now.toNat_lt
  unfold Near drift driftAllowed
  rw [natAbs_toInt32]
  omega

theorem near_of_not_due {deadline now : UInt32} (h : secondIsDue deadline now = false) :
    Near deadline now := by
  apply (near_iff deadline now).mpr
  unfold secondIsDue at h
  rw [Bool.or_eq_false_iff] at h
  exact not_lt.mp (of_decide_eq_false h.2)

theorem near_nextSecond (now : UInt32) : Near (now + secondLength) now := by
  apply Or.inl
  rw [add_sub_cancel_left]
  decide

/-- What a number of updates makes of a running game, those at the readings `seconds` having counted
a second. -/
structure Accounts (g after : Game) (updates : Nat) (seconds : List UInt32) : Prop
    extends Counts g after seconds.length where
  frame : after.record.frame = g.record.frame + UInt32.ofNat updates
  framesLeft : after.framesLeft = countedDown g.framesLeft updates
  nextSecond : after.record.nextSecond = seconds.getLast?.elim g.record.nextSecond (· + 1000)
  others : ∀ index, Variable.slot Variable.frameCountdown ≠ Variable.slot index →
    Variable.slot Variable.secondsCountdown ≠ Variable.slot index →
      after.record.table.read index = g.record.table.read index
  rest : after = { g with record := { g.record with
    frame := after.record.frame
    nextSecond := after.record.nextSecond
    secondsPlayed := after.record.secondsPlayed
    table := after.record.table } }

namespace Accounts

variable {g middle after : Game} {m n : Nat} {xs ys : List UInt32}

theorem refl (g : Game) : Accounts g g 0 [] where
  toCounts := .refl g
  frame := (UInt32.add_zero _).symm
  framesLeft := (countedDown_zero _).symm
  nextSecond := rfl
  others _ _ _ := rfl
  rest := rfl

theorem trans (h : Accounts g middle m xs) (hafter : Accounts middle after n ys) :
    Accounts g after (m + n) (xs ++ ys) where
  toCounts := by
    rw [List.length_append]
    exact h.toCounts.trans hafter.toCounts
  frame := by rw [hafter.frame, h.frame, UInt32.ofNat_add, UInt32.add_assoc]
  framesLeft := by rw [hafter.framesLeft, h.framesLeft, countedDown_add]
  nextSecond := by
    rw [hafter.nextSecond, h.nextSecond, List.getLast?_append]
    cases ys.getLast? <;> rfl
  others index hframes hseconds :=
    (hafter.others index hframes hseconds).trans (h.others index hframes hseconds)
  rest := by
    have hrest := hafter.rest
    rw [h.rest] at hrest
    exact hrest

end Accounts

variable {g : Game}

theorem accounts_tick (h : g.record.running = true) (now : UInt32) :
    Accounts g (g.tick now) 1 (if secondIsDue g.record.nextSecond now then [now] else []) := by
  have hcounts := counts_tick h now
  have hother :
      Variable.slot Variable.secondsCountdown ≠ Variable.slot Variable.frameCountdown := by
    decide
  have hframes := toInt_read_countDown g.record.table Variable.frameCountdown
  have hkept := read_countDown_of_ne (countDown g.record.table Variable.frameCountdown) hother
  rw [tick_of_running h] at hcounts ⊢
  by_cases hdue : secondIsDue g.record.nextSecond now = true
  · simp only [hdue, if_true] at hcounts ⊢
    refine ⟨hcounts, rfl, ?_, rfl, ?_, rfl⟩
    · unfold framesLeft
      exact (congrArg Int32.toInt hkept).trans hframes
    · intro index hne hne'
      exact (read_countDown_of_ne _ hne').trans (read_countDown_of_ne _ hne)
  · simp only [hdue, if_false, Bool.false_eq_true] at hcounts ⊢
    refine ⟨hcounts, rfl, hframes, rfl, ?_, rfl⟩
    intro index hne _
    exact read_countDown_of_ne _ hne

theorem secondsAt_cons (h : g.record.running = true) (now : UInt32) (rest : List UInt32) :
    g.secondsAt (now :: rest) =
      (if secondIsDue g.record.nextSecond now then [now] else []) ++ (g.tick now).secondsAt rest := by
  rw [secondsAt]
  simp only [countsSecond_iff h]
  split <;> rfl

theorem accounts_tickAll (h : g.record.running = true) (readings : List UInt32) :
    Accounts g (g.tickAll readings) readings.length (g.secondsAt readings) := by
  induction readings generalizing g with
  | nil => exact .refl g
  | cons now rest ih =>
    have hfirst := accounts_tick h now
    have hrest := ih (hfirst.running.trans h)
    rw [secondsAt_cons h, List.length_cons, Nat.add_comm]
    exact hfirst.trans hrest

theorem near_tick (h : g.record.running = true) (now : UInt32) :
    Near (g.tick now).record.nextSecond now := by
  rw [nextSecond_tick h]
  split
  case isTrue => exact near_nextSecond now
  case isFalse hdue => exact near_of_not_due (Bool.eq_false_iff.mpr hdue)

theorem tickAll_of_paused (h : g.record.running = false) (readings : List UInt32) :
    g.tickAll readings = { g with record := { g.record with
      frame := g.record.frame + UInt32.ofNat readings.length } } := by
  induction readings generalizing g with
  | nil =>
    have hzero : g.record.frame + UInt32.ofNat ([] : List UInt32).length = g.record.frame :=
      UInt32.add_zero _
    rw [hzero]
    rfl
  | cons now rest ih =>
    have hfirst : g.tick now =
        { g with record := { g.record with frame := g.record.frame + 1 } } := by
      unfold tick
      exact if_neg (by rw [h]; exact Bool.false_ne_true)
    have hpaused : (g.tick now).record.running = false := by rw [hfirst]; exact h
    have hrest := ih hpaused
    rw [hfirst] at hrest
    rw [tickAll, List.foldl_cons, hfirst, List.length_cons, Nat.add_comm, UInt32.ofNat_add,
      ← UInt32.add_assoc]
    exact hrest

/-- Whatever the clock reads, updates of a running game count the frames, those that fall due also
the seconds, and lower the countdowns by as many; nothing else changes, and after each of them the
deadline is within two seconds of its reading. Updates of a paused game count the frames alone. -/
theorem updates_accounted (g : Game) (readings : List UInt32) :
    (g.record.running = true →
      Accounts g (g.tickAll readings) readings.length (g.secondsAt readings) ∧
        ∀ front now, front ++ [now] <+: readings →
          Near (g.tickAll (front ++ [now])).record.nextSecond now) ∧
      (g.record.running = false →
        g.tickAll readings = { g with record := { g.record with
          frame := g.record.frame + UInt32.ofNat readings.length } }) := by
  refine ⟨?_, fun h => tickAll_of_paused h readings⟩
  intro h
  refine ⟨accounts_tickAll h readings, ?_⟩
  intro front now _
  have hrunning := (accounts_tickAll h front).running.trans h
  have hnear := near_tick hrunning now
  unfold tickAll at hnear ⊢
  rw [List.foldl_append]
  exact hnear

/-- Five updates by a clock that jumps, the fourth of them half a turn before the deadline. The
countdown by frames ends at zero, the one by seconds has been negative from the start. -/
theorem updates_accounted_half_turn :
    let g := (start {}).withTable ((VariableTable.initial.write Variable.frameCountdown 3).write
      Variable.secondsCountdown (-7))
    let paused := g.setRunning false
    let readings : List UInt32 := [5000, 4999, 2147482648, 0, 900]
    (g.record.running = true ∧ paused.record.running = false) ∧
      Accounts g (g.tickAll readings) 5 [5000, 2147482648, 0] ∧
      ((g.tickAll readings).framesLeft = 0 ∧ (g.tickAll readings).secondsLeft = -7) ∧
      Near (g.tickAll [5000, 4999, 2147482648, 0]).record.nextSecond 0 ∧
      paused.tickAll readings = { paused with record := { paused.record with frame := 5 } } := by
  intro g paused readings
  have hrunning : g.record.running = true := rfl
  have hseconds : g.secondsAt readings = [5000, 2147482648, 0] := by
    rw [secondsAt_eq_dueAt hrunning]
    decide
  obtain ⟨haccounts, hnear⟩ := (updates_accounted g readings).1 hrunning
  have hpaused := (updates_accounted paused readings).2 rfl
  rw [hseconds] at haccounts
  refine ⟨⟨hrunning, rfl⟩, haccounts, ⟨?_, ?_⟩, ?_, hpaused⟩
  · exact haccounts.framesLeft.trans (by decide +kernel)
  · exact haccounts.secondsLeft.trans (by decide +kernel)
  · exact hnear [5000, 4999, 2147482648] 0 (by decide)

end Savegame.Game
