import Savegame.Event
import Savegame.Settings.Basic
import Savegame.Variable.Engine

/-!
# A running game

The live record and the settings it runs under. Scripts reach the variables 1 to 2047, the engine
those that its catalog describes; a write that is refused changes nothing.
-/

namespace Savegame

structure Game where
  record : Record
  settings : Settings

namespace Game

def start (settings : Settings) : Game :=
  ⟨.newGame, settings⟩

def newGame (g : Game) : Game :=
  { g with record := .newGame }

def withTable (g : Game) (table : VariableTable) : Game :=
  { g with record := { g.record with table } }

def get (g : Game) (index : UInt16) : Except SaveError Int32 :=
  g.record.table.get index

/-- The event that a script's write gives rise to, if any. -/
def writeEvents (g : Game) (index : UInt16) (value : Int32) : List Event :=
  if g.settings.warnOnUnknownWrites then
    match engineCatalog.find? index with
    | some d => if d.implemented then [] else [.unimplementedWrite index d.name value]
    | none => []
  else []

/-- A script's write. Unimplemented variables of the engine take it, but it is reported. -/
def set (g : Game) (index : UInt16) (value : Int32) : Outcome Game Unit :=
  match g.record.table.set index value with
  | .ok table => ⟨.ok (), g.withTable table, g.writeEvents index value⟩
  | .error e => ⟨.error e, g, []⟩

def checkDescribed (index : UInt16) : Except SaveError Unit :=
  if engineCatalog.contains index then .ok () else .error (.undescribedVariable index)

def engineGet (g : Game) (index : UInt16) : Except SaveError Int32 := do
  checkDescribed index
  g.record.table.get index

def engineSet (g : Game) (index : UInt16) (value : Int32) : Except SaveError Game := do
  checkDescribed index
  return g.withTable (← g.record.table.set index value)

def engineVariable (g : Game) (v : EngineVariable) : Int32 :=
  g.record.table.read v.index

def setEngineVariable (g : Game) (v : EngineVariable) (value : Int32) : Game :=
  g.withTable (g.record.table.write v.index value)

def describe (index : UInt16) : String :=
  engineCatalog.describe index

def inventory (g : Game) : List UInt16 :=
  g.record.inventory.items

/-- Replaces the inventory as a whole; items past the seventh are left out. -/
def updateInventory (g : Game) (items : List UInt16) : Outcome Game Unit where
  answer := .ok ()
  state := { g with record := { g.record with inventory := .ofItems items } }
  events :=
    if Inventory.overflow items = 0 then [] else [.inventoryFull (Inventory.overflow items)]

def setZip (g : Game) (index : UInt8) (unlocked : Bool) : Game :=
  { g with record := { g.record with zips := g.record.zips.set index unlocked } }

def limitCamera (g : Game) (minPitch maxPitch minHeading maxHeading : Binary32) : Game :=
  let limits := { limited := true, minPitch, maxPitch, minHeading, maxHeading }
  { g with record := { g.record with limits } }

def freeCamera (g : Game) : Game :=
  { g with record := { g.record with limits := { g.record.limits with limited := false } } }

def setView (g : Game) (view : View) : Game :=
  { g with record := { g.record with view } }

def lookAt (g : Game) (pitch heading : Binary32) : Game :=
  g.setView { g.record.view with pitch, heading }

def setNodeType (g : Game) (nodeType : UInt32) : Game :=
  { g with record := { g.record with nodeType } }

def setRunning (g : Game) (running : Bool) : Game :=
  { g with record := { g.record with running } }

def setDescription (g : Game) (description : String) : Except SaveError Game :=
  if g.settings.maxDescriptionLength < description.utf8ByteSize then
    .error (.descriptionTooLong description.utf8ByteSize g.settings.maxDescriptionLength)
  else .ok { g with record := { g.record with description } }

def setThumbnail (g : Game) (thumbnail : Thumbnail) : Game :=
  { g with record := { g.record with thumbnail } }

end Game

end Savegame
