import Savegame.Proofs.Variables

/-!
# Seconds by a clock that wraps

How many seconds a running game counts while it is updated at known times. The clock tells the time
modulo 2^32. Deadlines wrap with it, but a reading is compared with a deadline as it stands, so that
in the last second before the clock wraps every update but the first may count a second. Otherwise
a second takes more than its thousand milliseconds.
-/

namespace Savegame.Game

/-- The game after updates at the given readings. -/
def tickAll (g : Game) (readings : List UInt32) : Game :=
  readings.foldl tick g

/-- How many seconds updates at the given readings count from a deadline on. -/
def secondsCounted (deadline : UInt32) : List UInt32 → Nat
  | [] => 0
  | now :: rest =>
    if secondIsDue deadline now then secondsCounted (now + secondLength) rest + 1
    else secondsCounted deadline rest

/-- What a number of steps leaves of a countdown, which ends at zero. -/
def countedDown (value : Int) (steps : Nat) : Int :=
  if 0 < value then max 0 (value - steps) else value

@[simp] theorem countedDown_zero (value : Int) : countedDown value 0 = value := by
  rw [countedDown]
  omega

theorem countedDown_add (value : Int) (m n : Nat) :
    countedDown value (m + n) = countedDown (countedDown value m) n := by
  simp only [countedDown]
  omega

theorem le_countedDown {value : Int} (h : 0 < value) (steps : Nat) :
    value - steps ≤ countedDown value steps := by
  rw [countedDown]
  omega

theorem toInt_sub_one {x : Int32} (h : 0 < x) : (x - 1).toInt = x.toInt - 1 := by
  have hpos : 0 < x.toInt := Int32.lt_iff_toInt_lt.mp h
  have hlt : x.toInt < 2147483648 := x.toInt_lt
  rw [Int32.toInt_sub, (by decide : Int32.toInt 1 = 1)]
  exact Int.bmod_eq_of_le (by norm_num; omega) (by norm_num; omega)

theorem toInt_read_countDown (table : VariableTable) (index : UInt16) :
    ((countDown table index).read index).toInt = countedDown (table.read index).toInt 1 := by
  simp only [countDown, countedDown]
  by_cases h : 0 < table.read index
  · have hpos : 0 < (table.read index).toInt := Int32.lt_iff_toInt_lt.mp h
    rw [if_pos h, if_pos hpos, VariableTable.read_write_self, toInt_sub_one h]
    omega
  · have hpos : ¬ 0 < (table.read index).toInt := fun hlt => h (Int32.lt_iff_toInt_lt.mpr hlt)
    rw [if_neg h, if_neg hpos]

/-- The value of the countdown that goes by seconds. -/
def secondsLeft (g : Game) : Int :=
  (g.record.table.read Variable.secondsCountdown).toInt

/-- A change of a game that counts a number of seconds. -/
structure Counts (g after : Game) (seconds : Nat) : Prop where
  running : after.record.running = g.record.running
  secondsPlayed : after.record.secondsPlayed = g.record.secondsPlayed + UInt32.ofNat seconds
  secondsLeft : after.secondsLeft = countedDown g.secondsLeft seconds

namespace Counts

variable {g middle after : Game} {m n : Nat}

theorem refl (g : Game) : Counts g g 0 :=
  ⟨rfl, (UInt32.add_zero _).symm, (countedDown_zero _).symm⟩

theorem trans (h : Counts g middle m) (hafter : Counts middle after n) :
    Counts g after (m + n) where
  running := hafter.running.trans h.running
  secondsPlayed := by
    rw [hafter.secondsPlayed, h.secondsPlayed, UInt32.ofNat_add, UInt32.add_assoc]
  secondsLeft := by rw [hafter.secondsLeft, h.secondsLeft, countedDown_add]

end Counts

variable {g : Game}

theorem tick_of_running (h : g.record.running = true) (now : UInt32) :
    g.tick now =
      let counted : Record := { g.record with
        frame := g.record.frame + 1
        table := countDown g.record.table Variable.frameCountdown }
      { g with record :=
        if secondIsDue g.record.nextSecond now then countSecond counted now else counted } := by
  rw [tick]
  exact if_pos h

theorem nextSecond_tick (h : g.record.running = true) (now : UInt32) :
    (g.tick now).record.nextSecond =
      if secondIsDue g.record.nextSecond now then now + secondLength
      else g.record.nextSecond := by
  rw [tick_of_running h]
  dsimp only
  split <;> rfl

theorem counts_tick (h : g.record.running = true) (now : UInt32) :
    Counts g (g.tick now) (if secondIsDue g.record.nextSecond now then 1 else 0) := by
  have hne : Variable.slot Variable.frameCountdown ≠ Variable.slot Variable.secondsCountdown := by
    decide
  -- The countdown by frames is done first and is another variable.
  have hother := read_countDown_of_ne g.record.table hne
  rw [tick_of_running h]
  dsimp only
  split
  case isTrue =>
    refine ⟨rfl, rfl, ?_⟩
    rw [secondsLeft, secondsLeft, ← hother]
    exact toInt_read_countDown _ _
  case isFalse =>
    refine ⟨rfl, (UInt32.add_zero _).symm, ?_⟩
    rw [countedDown_zero, secondsLeft, secondsLeft, ← hother]

/-- Updates of a running game count the seconds that fall due, and nothing else does. -/
theorem counts_tickAll (h : g.record.running = true) (readings : List UInt32) :
    Counts g (g.tickAll readings) (secondsCounted g.record.nextSecond readings) := by
  induction readings generalizing g with
  | nil => exact .refl g
  | cons now rest ih =>
    have hfirst := counts_tick h now
    have hrest := hfirst.trans (ih (hfirst.running.trans h))
    rw [nextSecond_tick h] at hrest
    rw [secondsCounted]
    split at hrest
    case isTrue hdue =>
      rw [if_pos hdue, Nat.add_comm]
      exact hrest
    case isFalse hdue =>
      rw [if_neg hdue, ← Nat.zero_add (secondsCounted _ _)]
      exact hrest

/-- What the clock reads at a time, in milliseconds. -/
def reading (time : Int) : UInt32 :=
  UInt32.ofInt time

theorem toNat_reading (time : Int) : ((reading time).toNat : Int) = time % 4294967296 := by
  rw [reading, UInt32.ofInt, UInt32.toNat_ofNat']
  omega

theorem toNat_deadline (now : UInt32) :
    (now + secondLength).toNat = (now.toNat + 1000) % 4294967296 := by
  rw [UInt32.toNat_add]
  rfl

/-- The two times lie between the same wraps of the clock, and the first less than a second before
the second of them. -/
def SharesLastSecond (previous time : Int) : Prop :=
  4294966296 ≤ previous % 4294967296 ∧ previous / 4294967296 = time / 4294967296

instance (previous time : Int) : Decidable (SharesLastSecond previous time) :=
  inferInstanceAs (Decidable (_ ∧ _))

/-- How many times follow another one in the last second before the clock wraps. -/
def crowded : List Int → Nat
  | previous :: time :: rest =>
    (if SharesLastSecond previous time then 1 else 0) + crowded (time :: rest)
  | _ => 0

theorem drift_of_le {deadline now : UInt32} {ahead : Nat} (h : deadline = now + UInt32.ofNat ahead)
    (hahead : ahead < 2147483648) : drift deadline now = ahead := by
  have hdifference : (deadline - now).toNat = ahead := by
    rw [h, add_sub_cancel_left, UInt32.toNat_ofNat']
    omega
  have hsigned : (deadline - now).toInt32.toInt = ahead := by
    rw [← Int32.toInt_toBitVec, UInt32.toBitVec_toInt32, BitVec.toInt_eq_toNat_of_lt]
    · exact congrArg Int.ofNat hdifference
    · rw [UInt32.toNat_toBitVec, hdifference]
      omega
  rw [drift, hsigned]
  rfl

/-- No second is due within a second of the last one, unless the clock is about to wrap. -/
theorem not_secondIsDue_of_le {last time : Int} (hle : last ≤ time) (hsoon : time ≤ last + 1000)
    (h : ¬ SharesLastSecond last time) :
    secondIsDue (reading last + secondLength) (reading time) = false := by
  have hlast := toNat_reading last
  have htime := toNat_reading time
  obtain ⟨ahead, hahead⟩ := Int.le.dest hsoon
  have hdeadline : reading last + secondLength = reading time + UInt32.ofNat ahead := by
    apply UInt32.toNat_inj.mp
    rw [toNat_deadline, UInt32.toNat_add, UInt32.toNat_ofNat']
    omega
  have hdrift := drift_of_le hdeadline (by omega)
  have hpassed : ¬ reading last + secondLength < reading time := by
    rw [UInt32.lt_iff_toNat_lt, toNat_deadline]
    rw [SharesLastSecond] at h
    omega
  rw [secondIsDue, hdrift, driftAllowed, decide_eq_false hpassed, Bool.false_or]
  exact decide_eq_false (by omega)

/-- The seconds counted after one at the time `last`. The updates go on from the time `previous`,
which is that of the latest update and from which on no second was counted. -/
theorem secondsCounted_after_le {last previous : Int} {times : List Int} (hlast : last ≤ previous)
    (htimes : (previous :: times).IsChain (· ≤ ·)) :
    (secondsCounted (reading last + secondLength) (times.map reading) : Int) ≤
      (times.getLastD previous - last) / 1000 + crowded (previous :: times) := by
  induction times generalizing last previous with
  | nil =>
    simp only [List.map_nil, secondsCounted, List.getLastD_nil, crowded]
    omega
  | cons time rest ih =>
    obtain ⟨hprevious, hrest⟩ := List.isChain_cons_cons.mp htimes
    rw [List.map_cons, secondsCounted, List.getLastD_cons, crowded]
    split
    case isTrue hdue =>
      have hcounted := ih (le_refl time) hrest
      by_cases hsoon : time ≤ last + 1000
      · -- The second came early, so both updates are in the last second before a wrap.
        have hshares : SharesLastSecond last time := by
          by_contra hnot
          rw [not_secondIsDue_of_le (hlast.trans hprevious) hsoon hnot] at hdue
          cases hdue
        have hcrowded : SharesLastSecond previous time := by
          rw [SharesLastSecond] at hshares ⊢
          omega
        rw [if_pos hcrowded]
        push_cast
        omega
      · push_cast
        omega
    case isFalse =>
      have hcounted := ih (hlast.trans hprevious) hrest
      push_cast
      omega

/-- From any deadline on, the first second that is counted takes no time. -/
theorem secondsCounted_le (deadline : UInt32) {first : Int} {times : List Int}
    (htimes : (first :: times).IsChain (· ≤ ·)) :
    (secondsCounted deadline ((first :: times).map reading) : Int) ≤
      1 + (times.getLastD first - first) / 1000 + crowded (first :: times) := by
  induction times generalizing first with
  | nil =>
    simp only [List.map_cons, List.map_nil, secondsCounted, List.getLastD_nil, crowded]
    split <;> simp
  | cons time rest ih =>
    obtain ⟨hfirst, hrest⟩ := List.isChain_cons_cons.mp htimes
    rw [List.map_cons, secondsCounted]
    split
    case isTrue =>
      have hcounted := secondsCounted_after_le (le_refl first) htimes
      push_cast
      omega
    case isFalse =>
      have hcounted := ih hrest
      rw [List.getLastD_cons, crowded]
      push_cast
      omega

/-- A running game that is updated at times in order counts at most one second, another one for each
second that passes, and one more for each update that follows another one in the last second before
the clock wraps. The countdown by seconds loses no more. -/
theorem seconds_of_times {g : Game} (hrunning : g.record.running = true) {first : Int}
    {times : List Int} (htimes : (first :: times).IsChain (· ≤ ·)) :
    let after := g.tickAll ((first :: times).map reading)
    let bound := 1 + (times.getLastD first - first) / 1000 + crowded (first :: times)
    ((after.record.secondsPlayed - g.record.secondsPlayed).toNat : Int) ≤ bound ∧
      (0 < g.secondsLeft → g.secondsLeft - after.secondsLeft ≤ bound) := by
  have hcounts := counts_tickAll hrunning ((first :: times).map reading)
  have hle := secondsCounted_le g.record.nextSecond htimes
  generalize secondsCounted g.record.nextSecond ((first :: times).map reading) = seconds
    at hcounts hle
  refine ⟨?_, fun hpos => ?_⟩
  · rw [hcounts.secondsPlayed, add_sub_cancel_left, UInt32.toNat_ofNat']
    refine le_trans ?_ hle
    exact Int.ofNat_le.mpr (Nat.mod_le _ _)
  · have hleft := le_countedDown hpos seconds
    rw [hcounts.secondsLeft]
    omega

/-- Four updates around a wrap of the clock count as many seconds as they may. -/
theorem seconds_of_times_around_wrap :
    let g := (start {}).withTable (VariableTable.initial.write Variable.secondsCountdown 5)
    let times : List Int := [4294966797, 4294967000, 4294968500]
    let after := g.tickAll ((4294966796 :: times).map reading)
    g.record.running = true ∧ (4294966796 :: times).IsChain (· ≤ ·) ∧
      1 + (times.getLastD 4294966796 - 4294966796) / 1000 + crowded (4294966796 :: times) = 4 ∧
      ((after.record.secondsPlayed - g.record.secondsPlayed).toNat : Int) ≤ 4 ∧
      (0 < g.secondsLeft → g.secondsLeft - after.secondsLeft ≤ 4) ∧
      (after.record.secondsPlayed - g.record.secondsPlayed).toNat = 4 := by
  intro g times after
  have hrunning : g.record.running = true := rfl
  have htimes : (4294966796 :: times).IsChain (· ≤ ·) := by decide
  have hbound : 1 + (times.getLastD 4294966796 - 4294966796) / 1000 +
      crowded (4294966796 :: times) = 4 := by decide
  have hseconds := seconds_of_times hrunning htimes
  dsimp only at hseconds
  rw [hbound] at hseconds
  exact ⟨hrunning, htimes, hbound, hseconds.1, hseconds.2, by decide +kernel⟩

/-- Half a second before the clock wraps, two updates a millisecond apart count two seconds. -/
theorem seconds_before_wrap :
    let g := (start {}).withTable (VariableTable.initial.write Variable.secondsCountdown 5)
    let times : List Int := [4294966796, 4294966797]
    let after := g.tickAll (times.map reading)
    g.record.running = true ∧ times.IsChain (· ≤ ·) ∧
      1 + (4294966797 - 4294966796) / 1000 <
        ((after.record.secondsPlayed - g.record.secondsPlayed).toNat : Int) ∧
      0 < g.secondsLeft ∧
      1 + (4294966797 - 4294966796) / 1000 < g.secondsLeft - after.secondsLeft := by
  decide +kernel

end Savegame.Game
