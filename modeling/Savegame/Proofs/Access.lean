import Savegame.Proofs.Keys
import Savegame.Proofs.Operation
import Savegame.Proofs.Run
import Savegame.Proofs.Variables

/-!
# Reading what was written

Variables are written by scripts, by the engine by number or by name, by looking at a key and by
updates; they are read by scripts, by the engine by number or by name, and as operands. All of them
share one table. Only the countdowns and the variables of the keys change without being written to.
-/

namespace Savegame

inductive Access where
  | set (index : UInt16) (value : Int32)
  | engineSet (index : UInt16) (value : Int32)
  | setEngineVariable (v : EngineVariable) (value : Int32)
  | evaluate (keys : Keys) (word : Int16)
  | tick (now : UInt32)
  | get (index : UInt16)
  | engineGet (index : UInt16)
  | engineVariable (v : EngineVariable)
  | operand (word : Int16)

inductive Access.Answer where
  | done
  | verdict (holds : Bool)
  | value (x : Int32)

namespace Game

def access (g : Game) : Access → Except SaveError Access.Answer × Game
  | .set index x => ((g.set index x).answer.map fun _ => .done, (g.set index x).state)
  | .engineSet index x =>
    ((g.engineSet index x).map fun _ => .done, Operation.settle g (g.engineSet index x))
  | .setEngineVariable v x => (.ok .done, g.setEngineVariable v x)
  | .evaluate keys word => (.ok (.verdict (g.evaluate keys word).1), (g.evaluate keys word).2)
  | .tick now => (.ok .done, g.tick now)
  | .get index => ((g.get index).map .value, g)
  | .engineGet index => ((g.engineGet index).map .value, g)
  | .engineVariable v => (.ok (.value (g.engineVariable v)), g)
  | .operand word => ((g.operand word).map .value, g)

end Game

def IsDescribed (index : UInt16) : Prop :=
  ∃ d ∈ engineDescriptions, d.index = index

namespace Access

/-- What an access is to put into a variable, if it is a write to it. -/
def written? (i : UInt16) : Access → Option Int32
  | set index x | engineSet index x => if index = i then some x else none
  | setEngineVariable v x => if v.index = i then some x else none
  | evaluate _ _ | tick _ | get _ | engineGet _ | engineVariable _ | operand _ => none

/-- The accesses that read a variable. A negative operand stands for a variable. -/
def Reads (i : UInt16) : Access → Prop
  | get index => index = i
  | engineGet index => index = i ∧ IsDescribed i
  | engineVariable v => v.index = i
  | operand word => word.toInt = -i.toNat
  | set _ _ | engineSet _ _ | setEngineVariable _ _ | evaluate _ _ | tick _ => False

/-- The accesses that are refused: those of scripts to variables that there are not, and those of
the engine by number to variables that it does not know. -/
def IsRefused : Access → Prop
  | set index _ | get index => index = 0 ∨ 2047 < index
  | engineSet index _ | engineGet index => ¬ IsDescribed index
  | operand word => word.toInt < -2047
  | setEngineVariable _ _ | evaluate _ _ | tick _ | engineVariable _ => False

end Access

/-- The value that the last successful write of a run put into a variable. -/
def lastWritten (i : UInt16) : Game → List Access → Option Int32
  | _, [] => none
  | g, a :: rest =>
    (lastWritten i (g.access a).2 rest).or
      (match (g.access a).1 with
      | .ok _ => a.written? i
      | .error _ => none)

/-- Neither a countdown nor the variable of a key. -/
structure IsPlainVariable (i : UInt16) : Prop where
  inRange : Variable.inRange i = true
  plain : i ∉ ([70, 71, 84, 88, 89, 90] : List UInt16)

theorem IsPlainVariable.slot_ne {i index : UInt16} (h : IsPlainVariable i)
    (hindex : index ∈ ([70, 71, 84, 88, 89, 90] : List UInt16))
    (hrange : Variable.inRange index = true) : Variable.slot index ≠ Variable.slot i := by
  intro hslot
  have hsame := (Variable.slot_inj hrange h.inRange).mp hslot
  exact h.plain (hsame ▸ hindex)

theorem contains_engineCatalog (index : UInt16) :
    engineCatalog.contains index = true ↔ IsDescribed index := by
  unfold engineCatalog Catalog.contains Catalog.ofList IsDescribed
  rw [Dictionary.contains_ofList]
  simp

theorem IsDescribed.inRange {index : UInt16} (h : IsDescribed index) :
    Variable.inRange index = true := by
  obtain ⟨d, hd, rfl⟩ := h
  exact EngineVariable.inRange_index ⟨d, hd⟩

namespace Game

open Access

variable (g : Game)

theorem checkDescribed_of {index : UInt16} (h : IsDescribed index) :
    checkDescribed index = .ok () :=
  if_pos ((contains_engineCatalog index).mpr h)

theorem checkDescribed_of_not {index : UInt16} (h : ¬ IsDescribed index) :
    checkDescribed index = .error (.undescribedVariable index) :=
  if_neg (mt (contains_engineCatalog index).mp h)

theorem access_set {index : UInt16} (h : Variable.inRange index = true) (x : Int32) :
    g.access (.set index x) = (.ok .done, g.withTable (g.record.table.write index x)) := by
  rw [access, Game.set, VariableTable.set, if_pos h]
  rfl

theorem access_set_of_not {index : UInt16} (h : ¬ Variable.inRange index = true) (x : Int32) :
    g.access (.set index x) = (.error (.variableOutOfRange index), g) := by
  rw [access, Game.set, VariableTable.set, if_neg h]
  rfl

theorem access_get {index : UInt16} (h : Variable.inRange index = true) :
    g.access (.get index) = (.ok (.value (g.record.table.read index)), g) := by
  rw [access, Game.get, VariableTable.get, if_pos h]
  rfl

theorem access_get_of_not {index : UInt16} (h : ¬ Variable.inRange index = true) :
    g.access (.get index) = (.error (.variableOutOfRange index), g) := by
  rw [access, Game.get, VariableTable.get, if_neg h]
  rfl

theorem access_engineSet {index : UInt16} (h : IsDescribed index) (x : Int32) :
    g.access (.engineSet index x) = (.ok .done, g.withTable (g.record.table.write index x)) := by
  rw [access, Game.engineSet, checkDescribed_of h, VariableTable.set, if_pos h.inRange]
  rfl

theorem access_engineSet_of_not {index : UInt16} (h : ¬ IsDescribed index) (x : Int32) :
    g.access (.engineSet index x) = (.error (.undescribedVariable index), g) := by
  rw [access, Game.engineSet, checkDescribed_of_not h]
  rfl

theorem access_engineGet {index : UInt16} (h : IsDescribed index) :
    g.access (.engineGet index) = (.ok (.value (g.record.table.read index)), g) := by
  rw [access, Game.engineGet, checkDescribed_of h, VariableTable.get]
  simp only [bind, Except.bind, if_pos h.inRange]
  rfl

theorem access_engineGet_of_not {index : UInt16} (h : ¬ IsDescribed index) :
    g.access (.engineGet index) = (.error (.undescribedVariable index), g) := by
  rw [access, Game.engineGet, checkDescribed_of_not h]
  rfl

/-- A negative operand is read as scripts read the variable that it stands for. -/
theorem access_operand_of_neg {word : Int16} (h : word.toInt < 0) :
    ∃ index : UInt16, (index.toNat : Int) = -word.toInt ∧
      g.access (.operand word) = g.access (.get index) := by
  have hword := word.le_toInt
  refine ⟨UInt16.ofNat (Condition.magnitude word), ?_, ?_⟩
  · rw [UInt16.toNat_ofNat_of_lt' (by rw [Condition.magnitude, UInt16.size]; omega),
      Condition.magnitude]
    omega
  · rw [access, access, Game.operand, if_pos (Int16.lt_iff_toInt_lt.mpr h)]

theorem access_operand_of_nonneg {word : Int16} (h : 0 ≤ word.toInt) :
    g.access (.operand word) = (.ok (.value word.toInt32), g) := by
  have hneg : ¬ word < 0 := fun hlt => absurd (Int16.lt_iff_toInt_lt.mp hlt) (Int.not_lt.mpr h)
  rw [access, Game.operand, if_neg hneg]
  rfl

/-- An access that is refused changes nothing. -/
theorem access_of_refused {a : Access} (h : a.IsRefused) : ∃ e, g.access a = (.error e, g) := by
  cases a with
  | set index x => exact ⟨_, g.access_set_of_not (Variable.not_inRange_iff.mpr h) x⟩
  | get index => exact ⟨_, g.access_get_of_not (Variable.not_inRange_iff.mpr h)⟩
  | engineSet index x => exact ⟨_, g.access_engineSet_of_not h x⟩
  | engineGet index => exact ⟨_, g.access_engineGet_of_not h⟩
  | operand word =>
    have hlow : word.toInt < -2047 := h
    obtain ⟨index, hindex, heq⟩ := g.access_operand_of_neg (by omega : word.toInt < 0)
    have habove : ¬ Variable.inRange index = true := by
      rw [Variable.inRange_iff_toNat]
      omega
    exact ⟨_, heq.trans (g.access_get_of_not habove)⟩
  | setEngineVariable _ _ | evaluate _ _ | tick _ | engineVariable _ => exact absurd h id

theorem access_of_not_refused {a : Access} (h : ¬ a.IsRefused) :
    ∃ answer, (g.access a).1 = .ok answer := by
  cases a with
  | set index x =>
    exact ⟨_, congrArg Prod.fst (g.access_set (Variable.inRange_of_not h) x)⟩
  | get index =>
    exact ⟨_, congrArg Prod.fst (g.access_get (Variable.inRange_of_not h))⟩
  | engineSet index x => exact ⟨_, congrArg Prod.fst (g.access_engineSet (not_not.mp h) x)⟩
  | engineGet index => exact ⟨_, congrArg Prod.fst (g.access_engineGet (not_not.mp h))⟩
  | operand word =>
    have hlow : ¬ word.toInt < -2047 := h
    by_cases hneg : word.toInt < 0
    · obtain ⟨index, hindex, heq⟩ := g.access_operand_of_neg hneg
      have hrange : Variable.inRange index = true :=
        Variable.inRange_iff_toNat.mpr ⟨by omega, by omega⟩
      exact ⟨_, congrArg Prod.fst (heq.trans (g.access_get hrange))⟩
    · exact ⟨_, congrArg Prod.fst (g.access_operand_of_nonneg (Int.not_lt.mp hneg))⟩
  | setEngineVariable _ _ | evaluate _ _ | tick _ | engineVariable _ => exact ⟨_, rfl⟩

theorem access_error_iff {a : Access} :
    (∃ e, (g.access a).1 = .error e) ↔ a.IsRefused := by
  constructor
  · rintro ⟨e, he⟩
    by_contra hnot
    obtain ⟨answer, hok⟩ := g.access_of_not_refused hnot
    rw [he] at hok
    cases hok
  · intro h
    obtain ⟨e, he⟩ := g.access_of_refused h
    exact ⟨e, congrArg Prod.fst he⟩

/-- Every route that reads a variable finds what is in its slot of the table. -/
theorem access_of_reads {a : Access} {i : UInt16} (hrange : Variable.inRange i = true)
    (h : a.Reads i) : g.access a = (.ok (.value (g.record.table.read i)), g) := by
  cases a with
  | get index =>
    obtain rfl : index = i := h
    exact g.access_get hrange
  | engineGet index =>
    obtain ⟨rfl, hdescribed⟩ : index = i ∧ IsDescribed i := h
    exact g.access_engineGet hdescribed
  | engineVariable v =>
    obtain rfl : v.index = i := h
    rfl
  | operand word =>
    have hword : word.toInt = -i.toNat := h
    have hpos := (Variable.inRange_iff_toNat.mp hrange).1
    obtain ⟨index, hindex, heq⟩ := g.access_operand_of_neg (by omega : word.toInt < 0)
    obtain rfl : index = i := UInt16.toNat_inj.mp (by omega)
    exact heq.trans (g.access_get hrange)
  | set _ _ | engineSet _ _ | setEngineVariable _ _ | evaluate _ _ | tick _ => exact absurd h id

theorem read_tick {i : UInt16} (hi : IsPlainVariable i) (now : UInt32) :
    (g.tick now).record.table.read i = g.record.table.read i := by
  have hframe : Variable.slot Variable.frameCountdown ≠ Variable.slot i :=
    hi.slot_ne (by decide) (by decide)
  have hseconds : Variable.slot Variable.secondsCountdown ≠ Variable.slot i :=
    hi.slot_ne (by decide) (by decide)
  rw [tick]
  dsimp only
  split
  case isTrue =>
    dsimp only
    split
    case isTrue =>
      exact (read_countDown_of_ne _ hseconds).trans (read_countDown_of_ne _ hframe)
    case isFalse => exact read_countDown_of_ne _ hframe
  case isFalse => rfl

theorem read_evaluate {i : UInt16} (hi : IsPlainVariable i) (keys : Keys) (word : Int16) :
    (g.evaluate keys word).2.record.table.read i = g.record.table.read i := by
  unfold evaluate refresh
  dsimp only
  split
  case h_1 pressed hpressed =>
    have hkey := List.mem_cons_of_mem 70 (List.mem_cons_of_mem 71 (Keys.mem_of_pressed? hpressed))
    exact g.record.table.read_write_of_ne _ (hi.slot_ne hkey (Keys.inRange_of_pressed? hpressed))
  case h_2 => rfl

/-- What an access leaves in a variable: what it wrote there, if it was a write to it that was not
refused, and otherwise what was there. -/
theorem read_access {i : UInt16} (hi : IsPlainVariable i) (a : Access) :
    (g.access a).2.record.table.read i =
      (match (g.access a).1 with
      | .ok _ => a.written? i
      | .error _ => none).getD (g.record.table.read i) := by
  by_cases hrefused : a.IsRefused
  · obtain ⟨e, he⟩ := g.access_of_refused hrefused
    rw [he]
    rfl
  have hwrite : ∀ (index : UInt16) (x : Int32), Variable.inRange index = true →
      (g.record.table.write index x).read i =
        (if index = i then some x else none).getD (g.record.table.read i) := by
    intro index x hrange
    rw [g.record.table.read_write x hrange hi.inRange]
    split <;> rfl
  cases a with
  | set index x =>
    have hrange : Variable.inRange index = true := Variable.inRange_of_not hrefused
    rw [g.access_set hrange]
    exact hwrite index x hrange
  | engineSet index x =>
    have hdescribed : IsDescribed index := not_not.mp hrefused
    rw [g.access_engineSet hdescribed]
    exact hwrite index x hdescribed.inRange
  | setEngineVariable v x => exact hwrite v.index x v.inRange_index
  | evaluate keys word => exact g.read_evaluate hi keys word
  | tick now => exact g.read_tick hi now
  | get _ | engineGet _ | engineVariable _ | operand _ =>
    obtain ⟨answer, hok⟩ := g.access_of_not_refused hrefused
    rw [hok]
    rfl

theorem read_after {i : UInt16} (hi : IsPlainVariable i) (run : List Access) :
    (after access g run).record.table.read i =
      (lastWritten i g run).getD (g.record.table.read i) := by
  induction run generalizing g with
  | nil => rfl
  | cons a rest ih =>
    -- What the first access wrote shows only where the rest of the run writes nothing.
    rw [lastWritten, Option.getD_or, ← g.read_access hi a]
    exact ih (g.access a).2

/-- After any run, every route reads a variable that is neither a countdown nor stands for a key as
its last successful write left it. Whether an access is refused depends on its index alone, and one
that is refused changes nothing. By name the engine reaches slots of the table only. -/
theorem reads_last_written (g : Game) (run : List Access) :
    let now := after access g run
    (∀ i : UInt16, 1 ≤ i → i ≤ 2047 → i ∉ ([70, 71, 84, 88, 89, 90] : List UInt16) →
      ∀ a : Access, a.Reads i →
        now.access a = (.ok (.value ((lastWritten i g run).getD (g.record.table.read i))), now)) ∧
    (∀ a : Access, (∃ e, (now.access a).1 = .error e) ↔ a.IsRefused) ∧
    (∀ a : Access, a.IsRefused → (now.access a).2 = now) ∧
    ∀ v : EngineVariable, 1 ≤ v.index ∧ v.index ≤ 2047 := by
  intro now
  refine ⟨?_, fun _ => now.access_error_iff, ?_, ?_⟩
  · intro i hone hlast hplain a ha
    have hi : IsPlainVariable i := ⟨Variable.inRange_iff.mpr ⟨hone, hlast⟩, hplain⟩
    rw [← g.read_after hi run]
    exact now.access_of_reads hi.inRange ha
  · intro a ha
    obtain ⟨e, he⟩ := now.access_of_refused ha
    exact congrArg Prod.snd he
  · intro v
    exact Variable.inRange_iff.mp v.inRange_index

/-- A script and the engine write to one variable, other writes are refused, and time passes. -/
theorem reads_last_written_age :
    let g := start {}
    let run : List Access := [.set 61 5, .engineSet 61 7, .set 0 9, .engineSet 62000 9,
      .evaluate { space := true } 90, .tick 1500]
    let now := after access g run
    ((1 : UInt16) ≤ 61 ∧ (61 : UInt16) ≤ 2047 ∧ 61 ∉ ([70, 71, 84, 88, 89, 90] : List UInt16)) ∧
      now.access (.get 61) = (.ok (.value 7), now) ∧
      now.access (.operand (-61)) = (.ok (.value 7), now) ∧
      now.access (.get 60) = (.ok (.value (g.record.table.read 60)), now) ∧
      (now.access (.engineSet 60001 1)).2 = now := by
  intro g run now
  obtain ⟨hreads, -, hrefused, -⟩ := reads_last_written g run
  have hlast : lastWritten 61 g run = some 7 := by decide +kernel
  have hnone : lastWritten 60 g run = none := by decide +kernel
  have hget := hreads 61 (by decide) (by decide) (by decide) (.get 61) rfl
  have hoperand := hreads 61 (by decide) (by decide) (by decide) (.operand (-61)) rfl
  have hother := hreads 60 (by decide) (by decide) (by decide) (.get 60) rfl
  rw [hlast] at hget hoperand
  rw [hnone] at hother
  have hundescribed : ¬ IsDescribed 60001 := fun h => absurd h.inRange (by decide)
  exact ⟨by decide, hget, hoperand, hother, hrefused (.engineSet 60001 1) hundescribed⟩

end Game

end Savegame
