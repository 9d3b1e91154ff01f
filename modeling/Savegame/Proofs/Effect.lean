import Savegame.Proofs.Acceptance
import Savegame.Proofs.Operation

/-!
# What operations do to a game

For each operation: it puts a new game, an inventory or a description in place, or goes on from a
save that it was handed, or it leaves alone what is bounded in a record.
-/

namespace Savegame

namespace Game

/-- A change that leaves the reserved variable, the inventory and the description alone. -/
structure Leaves (g changed : Game) : Prop where
  settings : changed.settings = g.settings
  reserved : changed.record.table.read 0 = g.record.table.read 0
  inventory : changed.record.inventory = g.record.inventory
  description : changed.record.description = g.record.description

namespace Leaves

variable {g changed again : Game}

theorem refl (g : Game) : Leaves g g :=
  ⟨rfl, rfl, rfl, rfl⟩

theorem trans (h : Leaves g changed) (hagain : Leaves changed again) : Leaves g again where
  settings := hagain.settings.trans h.settings
  reserved := hagain.reserved.trans h.reserved
  inventory := hagain.inventory.trans h.inventory
  description := hagain.description.trans h.description

end Leaves

variable (g : Game)

theorem leaves_write {index : UInt16} (x : Int32) (h : Variable.inRange index = true) :
    Leaves g (g.withTable (g.record.table.write index x)) :=
  ⟨rfl, VariableTable.read_zero_write _ x h, rfl, rfl⟩

theorem leaves_set (index : UInt16) (x : Int32) : Leaves g (g.set index x).state := by
  rw [set]
  cases hset : g.record.table.set index x with
  | error e => exact .refl g
  | ok table =>
    obtain ⟨hrange, rfl⟩ := VariableTable.set_eq_ok_iff.mp hset
    exact g.leaves_write x hrange

theorem leaves_engineSet (index : UInt16) (x : Int32) :
    Leaves g (Operation.settle g (g.engineSet index x)) := by
  rw [engineSet]
  cases checkDescribed index with
  | error e => exact .refl g
  | ok _ =>
    cases hset : g.record.table.set index x with
    | error e =>
      simp only [bind, Except.bind]
      exact .refl g
    | ok table =>
      obtain ⟨hrange, rfl⟩ := VariableTable.set_eq_ok_iff.mp hset
      simp only [bind, Except.bind]
      exact g.leaves_write x hrange

theorem leaves_tick (now : UInt32) : Leaves g (g.tick now) := by
  have hframe := read_countDown_of_ne g.record.table
    (Variable.slot_ne_zero (by decide : Variable.inRange Variable.frameCountdown = true))
  have hsecond := read_countDown_of_ne (countDown g.record.table Variable.frameCountdown)
    (Variable.slot_ne_zero (by decide : Variable.inRange Variable.secondsCountdown = true))
  rw [tick]
  split
  case isTrue =>
    dsimp only
    split
    case isTrue => exact ⟨rfl, hsecond.trans hframe, rfl, rfl⟩
    case isFalse => exact ⟨rfl, hframe, rfl, rfl⟩
  case isFalse => exact ⟨rfl, rfl, rfl, rfl⟩

theorem leaves_evaluate (keys : Keys) (word : Int16) : Leaves g (g.evaluate keys word).2 := by
  rw [evaluate]
  dsimp only
  rw [refresh]
  split
  next pressed hpressed => exact g.leaves_write _ (Keys.inRange_of_pressed? hpressed)
  next => exact .refl g

theorem leaves_stamp (date : Date) : Leaves g (g.stamp date) :=
  ⟨rfl, rfl, rfl, rfl⟩

theorem leaves_putOut (version : UInt32) (room : Option Nat) :
    Leaves g (g.write version room).outcome.state := by
  rw [write]
  split
  case isTrue => exact .refl g
  case isFalse => exact ⟨rfl, rfl, rfl, rfl⟩

theorem leaves_save (date : Date) (room : Option Nat) :
    Leaves g (g.save date room).outcome.state :=
  (g.leaves_stamp date).trans ((g.stamp date).leaves_putOut _ room)

theorem leaves_saveToBytes (date : Date) : Leaves g (g.saveToBytes date).state :=
  g.leaves_save date none

theorem leaves_saveToMemory (name : String) (date : Date) (files : MemoryFiles) :
    Leaves g (files.saveTo name date g).state.1 := by
  rw [MemoryFiles.saveTo]
  split
  next => exact g.leaves_saveToBytes date
  next => exact g.leaves_saveToBytes date

theorem leaves_saveToDirectory (name : String) (date : Date) (t : FileTree) :
    Leaves g (SaveDirectory.saveTo name date g t).state.1 := by
  rw [SaveDirectory.saveTo]
  dsimp only
  split
  next => exact g.leaves_saveToBytes date
  next => exact g.leaves_saveToBytes date

theorem leaves_saveSlot (slot : UInt16) (date : Date) (t : FileTree) :
    Leaves g (SaveDirectory.saveSlot slot date g t).state.1 := by
  rw [SaveDirectory.saveSlot, Outcome.andThen, SaveDirectory.withGame]
  dsimp only
  split
  next =>
    split
    next => exact g.leaves_saveToBytes date
    next => exact g.leaves_saveToBytes date
  next => exact .refl g

theorem load_of_decode {g : Game} {bytes : Bytes} {d : Record.Decoded}
    (h : Record.decode g.settings.maxDescriptionLength bytes = .ok d) :
    g.load bytes = ⟨.ok (), { g with record := { d.record with running := true } }, d.events⟩ := by
  rw [load, h]

theorem load_of_error {g : Game} {bytes : Bytes} {e : SaveError}
    (h : Record.decode g.settings.maxDescriptionLength bytes = .error e) :
    g.load bytes = ⟨.error e, g, []⟩ := by
  rw [load, h]

/-- The save that a load of these bytes goes on from: the bytes, if they are accepted. -/
def accepted? (bytes : Bytes) : Option Bytes :=
  match Record.decode g.settings.maxDescriptionLength bytes with
  | .ok _ => some bytes
  | .error _ => none

/-- A load leaves the game as it is, or replaces its record by the one in a save. -/
inductive Loads : Option Bytes → Game → Prop
  | refused : Loads none g
  | accepted {bytes : Bytes} {d : Record.Decoded}
      (h : Record.decode g.settings.maxDescriptionLength bytes = .ok d) :
      Loads (some bytes) { g with record := { d.record with running := true } }

theorem loads_load (bytes : Bytes) : Loads g (g.accepted? bytes) (g.load bytes).state := by
  rw [accepted?, load]
  cases hdecode : Record.decode g.settings.maxDescriptionLength bytes with
  | error e => exact .refused
  | ok d => exact .accepted hdecode

end Game

namespace SaveDirectory

/-- The save that a load of a slot's backup goes on from. -/
def backupSource? (slot : UInt16) (t : FileTree) (g : Game) : Option Bytes :=
  match readPresent t (backupLocation slot) with
  | .ok (some bytes) => g.accepted? bytes
  | _ => none

/-- The save that a load of a slot goes on from: the slot's own file, or else its backup. -/
def slotSource? (slot : UInt16) (t : FileTree) (g : Game) : Option Bytes :=
  match readPresent t (slotLocation slot) with
  | .ok (some bytes) =>
    match (verify slot t bytes).answer with
    | .ok () => (g.accepted? bytes).or (backupSource? slot t g)
    | .error e => if e.isCorruption then backupSource? slot t g else none
  | _ => none

end SaveDirectory

namespace Game

variable (g : Game)

theorem loads_loadBackup (slot : UInt16) (t : FileTree) (cause : SaveError) :
    Loads g (SaveDirectory.backupSource? slot t g)
      (SaveDirectory.loadBackup slot t g cause).state := by
  rw [SaveDirectory.loadBackup, SaveDirectory.backupSource?]
  cases SaveDirectory.readPresent t (SaveDirectory.backupLocation slot) with
  | error e => exact .refused
  | ok content =>
    cases content with
    | none => exact .refused
    | some bytes =>
      cases hdecode : Record.decode g.settings.maxDescriptionLength bytes with
      | error e =>
        simp only [accepted?, load, hdecode]
        exact .refused
      | ok d =>
        simp only [accepted?, load, hdecode]
        exact .accepted hdecode

theorem loads_loadSlot (slot : UInt16) (t : FileTree) :
    Loads g (SaveDirectory.slotSource? slot t g) (SaveDirectory.loadSlot slot t g).state := by
  rw [SaveDirectory.loadSlot, SaveDirectory.slotSource?]
  cases SaveDirectory.readPresent t (SaveDirectory.slotLocation slot) with
  | error e => exact .refused
  | ok content =>
    cases content with
    | none => exact .refused
    | some bytes =>
      dsimp only
      cases (SaveDirectory.verify slot t bytes).answer with
      | error e =>
        dsimp only
        split
        case isTrue => exact g.loads_loadBackup slot t e
        case isFalse => exact .refused
      | ok _ =>
        cases hdecode : Record.decode g.settings.maxDescriptionLength bytes with
        | error e =>
          simp only [accepted?, load, hdecode, Record.isCorruption_of_decode hdecode]
          exact g.loads_loadBackup slot t e
        | ok d =>
          simp only [accepted?, load, hdecode]
          exact .accepted hdecode

end Game

namespace Operation

/-- The save that an operation goes on from, if it is a load that succeeds. -/
def source? (g : Game) : Operation → Option Bytes
  | load bytes => g.accepted? bytes
  | loadFromMemory name files => (files.find? name).bind g.accepted?
  | loadFromDirectory name t => (t.read (SaveDirectory.location name)).toOption.bind g.accepted?
  | loadSlot slot t => SaveDirectory.slotSource? slot t g
  | _ => none

/-- Whether an operation lays the inventory out anew. -/
def restocks : Operation → Bool
  | newGame | updateInventory _ => true
  | _ => false

/-- What operations make of a game. -/
inductive Effect (g : Game) : Operation → Game → Prop
  | renewed : Effect g newGame g.newGame
  | restocked (items : List UInt16) :
      Effect g (updateInventory items)
        { g with record := { g.record with inventory := .ofItems items } }
  | described {description : String}
      (h : description.utf8ByteSize ≤ g.settings.maxDescriptionLength) :
      Effect g (setDescription description) { g with record := { g.record with description } }
  | loaded {op : Operation} {bytes : Bytes} {d : Record.Decoded} (hop : op.restocks = false)
      (hsource : op.source? g = some bytes)
      (hdecode : Record.decode g.settings.maxDescriptionLength bytes = .ok d) :
      Effect g op { g with record := { d.record with running := true } }
  | left {op : Operation} {changed : Game} (hop : op.restocks = false)
      (hsource : op.source? g = none) (h : g.Leaves changed) : Effect g op changed

variable {g changed : Game} {op : Operation}

theorem effect_of_loads (hop : op.restocks = false) (h : g.Loads (op.source? g) changed) :
    Effect g op changed := by
  generalize hsource : op.source? g = source at h
  cases h with
  | refused => exact .left hop hsource (.refl g)
  | accepted hdecode => exact .loaded hop hsource hdecode

theorem effect_perform (g : Game) (op : Operation) : Effect g op (op.perform g) := by
  cases op with
  | newGame => exact .renewed
  | set index value => exact .left rfl rfl (g.leaves_set index value)
  | engineSet index value => exact .left rfl rfl (g.leaves_engineSet index value)
  | setEngineVariable v value => exact .left rfl rfl (g.leaves_write value v.inRange_index)
  | updateInventory items => exact .restocked items
  | setDescription description =>
    rw [perform, Game.setDescription]
    split
    case isTrue => exact .left rfl rfl (.refl g)
    case isFalse hshort => exact .described (not_lt.mp hshort)
  | tick now => exact .left rfl rfl (g.leaves_tick now)
  | evaluate keys word => exact .left rfl rfl (g.leaves_evaluate keys word)
  | load bytes => exact effect_of_loads rfl (g.loads_load bytes)
  | loadFromMemory name files =>
    refine effect_of_loads rfl ?_
    rw [source?, perform, MemoryFiles.loadFrom]
    cases files.find? name with
    | none => exact .refused
    | some bytes => exact g.loads_load bytes
  | loadFromDirectory name t =>
    refine effect_of_loads rfl ?_
    rw [source?, perform, SaveDirectory.loadFrom]
    cases t.read (SaveDirectory.location name) with
    | error e => exact .refused
    | ok bytes => exact g.loads_load bytes
  | loadSlot slot t => exact effect_of_loads rfl (g.loads_loadSlot slot t)
  | write version room => exact .left rfl rfl (g.leaves_putOut version room)
  | save date room => exact .left rfl rfl (g.leaves_save date room)
  | saveToBytes date => exact .left rfl rfl (g.leaves_saveToBytes date)
  | saveToMemory name date files => exact .left rfl rfl (g.leaves_saveToMemory name date files)
  | saveToDirectory name date t => exact .left rfl rfl (g.leaves_saveToDirectory name date t)
  | saveSlot slot date t => exact .left rfl rfl (g.leaves_saveSlot slot date t)
  | _ => exact .left rfl rfl ⟨rfl, rfl, rfl, rfl⟩

end Operation

end Savegame
