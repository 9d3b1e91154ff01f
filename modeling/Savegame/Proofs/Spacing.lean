import Savegame.Proofs.Seconds

/-!
# The spacing of seconds

At which updates a running game counts its seconds, as long as the clock is not about to wrap. From
the first second on, the next one is counted by the first update that comes more than a thousand
milliseconds later, whatever deadline the game started with.
-/

namespace Savegame.Game

/-- The readings of the updates that count a second. -/
def secondsAt (g : Game) : List UInt32 → List UInt32
  | [] => []
  | now :: rest =>
    if (g.tick now).record.secondsPlayed = g.record.secondsPlayed + 1 then
      now :: (g.tick now).secondsAt rest
    else (g.tick now).secondsAt rest

/-- A reading is not before another one, and not too long after it. -/
def Follows (gap : Nat) (previous now : UInt32) : Prop :=
  previous ≤ now ∧ now.toNat ≤ previous.toNat + gap

/-- More than a second passes between two readings, and not much more. -/
def SecondApart (gap : Nat) (last now : UInt32) : Prop :=
  last.toNat + 1000 < now.toNat ∧ now.toNat ≤ last.toNat + 1000 + gap

instance (gap : Nat) (previous now : UInt32) : Decidable (Follows gap previous now) :=
  inferInstanceAs (Decidable (_ ∧ _))

instance (gap : Nat) (last now : UInt32) : Decidable (SecondApart gap last now) :=
  inferInstanceAs (Decidable (_ ∧ _))

theorem reading_toNat (word : UInt32) : reading word.toNat = word := by
  have hword := toNat_reading word.toNat
  have hlt := word.toNat_lt
  apply UInt32.toNat_inj.mp
  omega

/-- A second is due exactly if more than a second has passed since the last one. -/
theorem secondIsDue_iff {last now : UInt32} (hle : last ≤ now) (hnow : now ≤ 4294966295) :
    secondIsDue (last + secondLength) now = true ↔ last.toNat + 1000 < now.toNat := by
  have hle : last.toNat ≤ now.toNat := UInt32.le_iff_toNat_le.mp hle
  have hnow : now.toNat ≤ 4294966295 := UInt32.le_iff_toNat_le.mp hnow
  constructor
  · intro hdue
    by_contra hsoon
    have hshares : ¬ SharesLastSecond last.toNat now.toNat := by
      unfold SharesLastSecond
      omega
    have hnot : secondIsDue (last + secondLength) now = false := by
      rw [← reading_toNat last, ← reading_toNat now]
      exact not_secondIsDue_of_le (by omega) (by omega) hshares
    rw [hdue] at hnot
    cases hnot
  · intro hpassed
    have hdeadline : last + secondLength < now := by
      rw [UInt32.lt_iff_toNat_lt, toNat_deadline]
      omega
    rw [secondIsDue, decide_eq_true hdeadline, Bool.true_or]

/-- The readings at which a second falls due, from a deadline on. -/
def dueAt (deadline : UInt32) : List UInt32 → List UInt32
  | [] => []
  | now :: rest =>
    if secondIsDue deadline now then now :: dueAt (now + secondLength) rest
    else dueAt deadline rest

variable {g : Game} {gap : Nat} {readings : List UInt32}

theorem countsSecond_iff (h : g.record.running = true) (now : UInt32) :
    (g.tick now).record.secondsPlayed = g.record.secondsPlayed + 1 ↔
      secondIsDue g.record.nextSecond now = true := by
  rw [(counts_tick h now).secondsPlayed, add_right_inj]
  by_cases hdue : secondIsDue g.record.nextSecond now = true
  · simp [hdue]
  · simp [hdue]

/-- A running game counts the seconds that fall due, and the deadline alone decides when. -/
theorem secondsAt_eq_dueAt (h : g.record.running = true) :
    g.secondsAt readings = dueAt g.record.nextSecond readings := by
  induction readings generalizing g with
  | nil => rfl
  | cons now rest ih =>
    have hafter := (counts_tick h now).running.trans h
    rw [secondsAt, dueAt, ih hafter, nextSecond_tick h]
    simp only [countsSecond_iff h]
    split <;> rfl

/-- The seconds after one at `last`, where the latest reading was `previous` and no other second
has fallen due by then. -/
theorem dueAt_spaced {last previous : UInt32} (hlast : last ≤ previous)
    (hsoon : previous.toNat ≤ last.toNat + 1000)
    (hreadings : (previous :: readings).IsChain (Follows gap))
    (hbound : ∀ now ∈ readings, now ≤ 4294966295) :
    (last :: dueAt (last + secondLength) readings).IsChain (SecondApart gap) ∧
      (readings.getLastD previous).toNat ≤
        ((dueAt (last + secondLength) readings).getLastD last).toNat + 1000 := by
  induction readings generalizing last previous with
  | nil => exact ⟨List.isChain_singleton last, hsoon⟩
  | cons now rest ih =>
    obtain ⟨⟨hordered, hgap⟩, hrest⟩ := List.isChain_cons_cons.mp hreadings
    obtain ⟨hnow, hbound⟩ := List.forall_mem_cons.mp hbound
    have hle : last ≤ now := UInt32.le_trans hlast hordered
    have hdue := secondIsDue_iff hle hnow
    rw [dueAt, List.getLastD_cons]
    by_cases hpassed : last.toNat + 1000 < now.toNat
    · rw [if_pos (hdue.mpr hpassed), List.getLastD_cons, List.isChain_cons_cons]
      obtain ⟨hchain, hend⟩ := ih (UInt32.le_refl now) (Nat.le_add_right _ _) hrest hbound
      exact ⟨⟨⟨hpassed, by omega⟩, hchain⟩, hend⟩
    · rw [if_neg (mt hdue.mp hpassed)]
      exact ih hle (not_lt.mp hpassed) hrest hbound

/-- From any deadline on. -/
theorem dueAt_spaced_of_deadline (deadline : UInt32) (hreadings : readings.IsChain (Follows gap))
    (hbound : ∀ now ∈ readings, now ≤ 4294966295) :
    (dueAt deadline readings).IsChain (SecondApart gap) ∧
      ∀ last ∈ (dueAt deadline readings).getLast?, ∀ latest ∈ readings.getLast?,
        latest.toNat ≤ last.toNat + 1000 := by
  induction readings with
  | nil => exact ⟨List.isChain_nil, nofun⟩
  | cons now rest ih =>
    obtain ⟨-, hbound'⟩ := List.forall_mem_cons.mp hbound
    rw [dueAt]
    split
    case isTrue =>
      simp only [List.getLast?_cons, Option.mem_some_iff, forall_eq', ← List.getLastD_eq_getLast?]
      exact dueAt_spaced (UInt32.le_refl now) (Nat.le_add_right _ _) hreadings hbound'
    case isFalse =>
      obtain ⟨hchain, hend⟩ := ih hreadings.tail hbound'
      refine ⟨hchain, ?_⟩
      cases rest with
      | nil => exact nofun
      | cons next rest =>
        rw [List.getLast?_cons_cons]
        exact hend

/-- Between two seconds that a running game counts one after the other, more than a thousand
milliseconds pass, and more than that by at most the time between two updates; and no more than a
thousand pass from the last one to the end. So it is from any deadline on, while the clock is not
within a second of its end. -/
theorem seconds_spaced (hrunning : g.record.running = true)
    (hreadings : readings.IsChain (Follows gap))
    (hbound : ∀ now ∈ readings, now ≤ 4294966295) :
    (g.secondsAt readings).IsChain (SecondApart gap) ∧
      ∀ last ∈ (g.secondsAt readings).getLast?, ∀ latest ∈ readings.getLast?,
        latest.toNat ≤ last.toNat + 1000 := by
  rw [secondsAt_eq_dueAt hrunning]
  exact dueAt_spaced_of_deadline _ hreadings hbound

/-- A game with a deadline far off, as a load may leave it, is updated six times and counts three
seconds. -/
theorem seconds_spaced_loaded :
    let g : Game := ⟨{ Record.newGame with nextSecond := 4000000000 }, {}⟩
    let readings : List UInt32 := [5000, 5400, 6000, 6001, 6900, 7003]
    g.record.running = true ∧ readings.IsChain (Follows 900) ∧
      (∀ now ∈ readings, now ≤ 4294966295) ∧
      g.secondsAt readings = [5000, 6001, 7003] ∧
      (g.secondsAt readings).IsChain (SecondApart 900) ∧
      ∀ last ∈ (g.secondsAt readings).getLast?, ∀ latest ∈ readings.getLast?,
        latest.toNat ≤ last.toNat + 1000 := by
  intro g readings
  have hrunning : g.record.running = true := rfl
  have hreadings : readings.IsChain (Follows 900) := by decide
  have hbound : ∀ now ∈ readings, now ≤ 4294966295 := by simp [readings]
  refine ⟨hrunning, hreadings, hbound, ?_, seconds_spaced hrunning hreadings hbound⟩
  rw [secondsAt_eq_dueAt hrunning]
  decide

end Savegame.Game
