import Savegame.Proofs.Number
import Savegame.Proofs.SavedNumbers

/-!
# The order of saved numbers

Every rounding on the way to fixed point and back keeps the order of numbers, and so do overflow to
infinity and the bounds of 32 bits. So the limits of the camera stay in order, however often a game
is saved and loaded, and at whatever versions.
-/

namespace Savegame

namespace Binary32

variable {x y : Binary32}

theorem toFixedPoint_mono (h : x ≤ y) : x.toFixedPoint ≤ y.toFixedPoint := by
  obtain ⟨hx, hy, hunits⟩ := le_iff.mp h
  have hsteps := signed_mono steps_mono steps_zero hunits
  rw [Int32.le_iff_toInt_le, toInt_toFixedPoint hx, toInt_toFixedPoint hy]
  omega

theorem ofFixedPoint_mono {m n : Int32} (h : m ≤ n) : ofFixedPoint m ≤ ofFixedPoint n := by
  have hint (n : Int32) : signed (decide (n.toInt < 0)) n.toInt.natAbs = n.toInt := by
    rw [signed]
    split <;> rename_i hsign <;> rw [decide_eq_true_iff] at hsign <;> omega
  refine le_iff.mpr ⟨isNaN_ofFixedPoint m, isNaN_ofFixedPoint n, ?_⟩
  rw [signedUnits_ofFixedPoint, signedUnits_ofFixedPoint]
  apply signed_mono stepped_mono stepped_zero
  rwa [hint, hint, ← Int32.le_iff_toInt_le]

theorem kept_mono (version : UInt32) (h : x ≤ y) : x.kept version ≤ y.kept version := by
  rw [kept, kept]
  split
  case isTrue => exact h
  case isFalse => exact ofFixedPoint_mono (toFixedPoint_mono h)

end Binary32

/-- The two pairs of limits that the camera has. -/
inductive Axis where
  | pitch
  | heading

namespace CameraLimits

def least (l : CameraLimits) : Axis → Binary32
  | .pitch => l.minPitch
  | .heading => l.minHeading

def greatest (l : CameraLimits) : Axis → Binary32
  | .pitch => l.maxPitch
  | .heading => l.maxHeading

def AreOrdered (l : CameraLimits) (axis : Axis) : Prop :=
  l.least axis ≤ l.greatest axis

theorem areOrdered_default (axis : Axis) : AreOrdered {} axis := by
  have hzero : Binary32.zero ≤ Binary32.zero := by decide
  cases axis with
  | pitch => exact hzero
  | heading => exact hzero

end CameraLimits

namespace Record

variable {r : Record} {axis : Axis}

/-- The limits are four of the nine numbers. -/
theorem limits_of_reals {r' : Record} {g : Binary32 → Binary32} (h : r'.reals = r.reals.map g)
    (axis : Axis) :
    r'.limits.least axis = g (r.limits.least axis) ∧
      r'.limits.greatest axis = g (r.limits.greatest axis) := by
  rw [reals_eq, reals_eq] at h
  simp only [List.map_cons, List.cons.injEq] at h
  obtain ⟨-, -, -, -, -, hminPitch, hmaxPitch, hminHeading, hmaxHeading, -⟩ := h
  cases axis with
  | pitch => exact ⟨hminPitch, hmaxPitch⟩
  | heading => exact ⟨hminHeading, hmaxHeading⟩

/-- A pair of limits is in order if it was when its record was written. -/
theorem areOrdered_of_reals {r' : Record} {version : UInt32}
    (h : r'.reals = r.reals.map (Binary32.kept version)) (hordered : r.limits.AreOrdered axis) :
    r'.limits.AreOrdered axis := by
  obtain ⟨hleast, hgreatest⟩ := limits_of_reals h axis
  rw [CameraLimits.AreOrdered, hleast, hgreatest]
  exact Binary32.kept_mono version hordered

end Record

/-- A game with everything that was written of it. -/
structure Archive where
  game : Game
  written : List Bytes := []

/-- What is done with a game and its archive. -/
inductive Archive.Step where
  /-- A write at any version, into a sink with room for some number of bytes or for any. -/
  | write (version : UInt32) (room : Option Nat)
  /-- A write with a new date, at the version that is set. -/
  | save (date : Date) (room : Option Nat)
  /-- A load of something that was written. -/
  | load (index : Nat)
  /-- A new game under settings of its own. -/
  | restart (settings : Settings)

namespace Archive

def add (a : Archive) (w : Game.Written) : Archive :=
  ⟨w.outcome.state, a.written ++ [w.sink]⟩

def step (a : Archive) : Step → Archive
  | .write version room => a.add (a.game.write version room)
  | .save date room => a.add (a.game.save date room)
  | .load index =>
    match a.written[index]? with
    | some bytes => { a with game := (a.game.load bytes).state }
    | none => a
  | .restart settings => { a with game := .start settings }

def run (a : Archive) (steps : List Step) : Archive :=
  steps.foldl step a

/-- A pair of limits is in order in the game, and in whatever can be loaded. -/
structure KeepsOrder (axis : Axis) (a : Archive) : Prop where
  game : a.game.record.limits.AreOrdered axis
  written : ∀ bytes ∈ a.written, ∀ limit d, Record.decode limit bytes = .ok d →
    d.record.limits.AreOrdered axis

variable {a : Archive} {axis : Axis}

theorem KeepsOrder.add {version : UInt32} (g : Game) (room : Option Nat) (h : KeepsOrder axis a)
    (hgame : g.record.limits = a.game.record.limits) :
    KeepsOrder axis (a.add (g.write version room)) := by
  have hordered : g.record.limits.AreOrdered axis := hgame ▸ h.game
  refine ⟨?_, fun bytes hbytes limit d hdecode => ?_⟩
  · have hlimits : (g.write version room).outcome.state.record.limits = g.record.limits := by
      rw [Game.write]
      split <;> rfl
    rw [Archive.add, hlimits]
    exact hordered
  · rcases List.mem_append.mp hbytes with hold | hnew
    · exact h.written bytes hold limit d hdecode
    · obtain rfl := List.mem_singleton.mp hnew
      have hreals := Record.reals_of_front (g.sink_prefix version room) hdecode
      exact Record.areOrdered_of_reals (r := g.record) hreals hordered

theorem KeepsOrder.step (h : KeepsOrder axis a) (s : Step) : KeepsOrder axis (a.step s) := by
  cases s with
  | write version room => exact h.add a.game room rfl
  | save date room => exact h.add (a.game.stamp date) room rfl
  | load index =>
    rw [Archive.step]
    split
    next bytes hbytes =>
      refine ⟨?_, h.written⟩
      cases hdecode : Record.decode a.game.settings.maxDescriptionLength bytes with
      | error e =>
        rw [Game.load_of_error hdecode]
        exact h.game
      | ok d =>
        rw [Game.load_of_decode hdecode]
        exact h.written bytes (List.mem_of_getElem? hbytes) _ d hdecode
    next => exact h
  | restart settings => exact ⟨CameraLimits.areOrdered_default axis, h.written⟩

theorem KeepsOrder.run (h : KeepsOrder axis a) (steps : List Step) :
    KeepsOrder axis (a.run steps) := by
  induction steps generalizing a with
  | nil => exact h
  | cons s steps ih => exact ih (h.step s)

/-- Numbers in order have words in order, and words in order stand for numbers in order. So a pair
of camera limits that is in order stays so through any writes, saves and loads of what was written,
at any versions and also where some of them fail. -/
theorem fixed_point_ordered :
    (∀ x y : Binary32, x ≤ y → x.toFixedPoint ≤ y.toFixedPoint) ∧
    (∀ m n : Int32, m ≤ n → Binary32.ofFixedPoint m ≤ Binary32.ofFixedPoint n) ∧
    ∀ (g : Game) (axis : Axis) (steps : List Step), g.record.limits.AreOrdered axis →
      (run { game := g } steps).game.record.limits.AreOrdered axis := by
  refine ⟨fun x y => Binary32.toFixedPoint_mono, fun m n => Binary32.ofFixedPoint_mono, ?_⟩
  intro g axis steps hordered
  have hstart : KeepsOrder axis { game := g } := ⟨hordered, nofun⟩
  exact (hstart.run steps).game

theorem game_of_write_load (g : Game) (version : UInt32) :
    (run { game := g } [.write version none, .load 0]).game =
      ((g.write version none).outcome.state.load (g.write version none).sink).state := rfl

/-- A camera that may pitch without bounds, saved and loaded. The infinities have become the ends of
fixed point; a write that ran into a full sink cannot be loaded. -/
theorem fixed_point_ordered_unbounded :
    let least : Binary32 := ⟨0xFF800000⟩
    let greatest : Binary32 := ⟨0x7F800000⟩
    let g := (Game.start {}).limitCamera least greatest ⟨0x80000000⟩ ⟨0x00000001⟩
    let steps : List Step :=
      [.write 149 none, .load 0, .write 3 (some 100), .load 1, .restart {}, .load 0, .save {} none]
    (least ≤ greatest ∧ least.toFixedPoint ≤ greatest.toFixedPoint) ∧
      ((-5 : Int32) ≤ 7 ∧ Binary32.ofFixedPoint (-5) ≤ Binary32.ofFixedPoint 7) ∧
      (g.record.limits.AreOrdered .pitch ∧
        (run { game := g } steps).game.record.limits.AreOrdered .pitch) ∧
      (run { game := g } [.write 149 none, .load 0]).game.record.limits.least .pitch =
        ⟨0xC851B717⟩ := by
  intro least greatest g steps
  obtain ⟨hwords, hnumbers, hruns⟩ := fixed_point_ordered
  have hordered : least ≤ greatest := by decide +kernel
  have hsigned : (-5 : Int32) ≤ 7 := by decide
  have hlimits : g.record.limits.AreOrdered .pitch := hordered
  refine ⟨⟨hordered, hwords _ _ hordered⟩, ⟨hsigned, hnumbers _ _ hsigned⟩,
    ⟨hlimits, hruns g .pitch steps hlimits⟩, ?_⟩
  have hsavable : g.IsSavable :=
    (Reachable.after (.limitCamera least greatest ⟨0x80000000⟩ ⟨0x00000001⟩) .start).isSavable.2
  have hload : ((g.write 149 none).outcome.state.load (g.write 149 none).sink).answer = .ok () :=
    g.answer_load_emission (by decide) (by decide) hsavable rfl
  have hleast := (Record.limits_of_reals (Game.reals_of_write hload) .pitch).1
  rw [game_of_write_load, hleast]
  decide +kernel

end Archive

end Savegame
