import Savegame.Bytes.Lemmas
import Savegame.Game.Clock
import Savegame.Game.Script
import Savegame.MemoryFiles
import Savegame.Slot.Directory

/-!
# What can happen to a game

Everything that a host can do with a running game, one operation at a time. An operation that is
refused leaves behind whatever it leaves behind; the files that it meets on the way are arbitrary.
-/

namespace Savegame

inductive Operation where
  | newGame
  | set (index : UInt16) (value : Int32)
  | engineSet (index : UInt16) (value : Int32)
  | setEngineVariable (v : EngineVariable) (value : Int32)
  | updateInventory (items : List UInt16)
  | setZip (index : UInt8) (unlocked : Bool)
  | limitCamera (minPitch maxPitch minHeading maxHeading : Binary32)
  | freeCamera
  | setView (view : View)
  | lookAt (pitch heading : Binary32)
  | setNodeType (nodeType : UInt32)
  | setRunning (running : Bool)
  | setDescription (description : String)
  | setThumbnail (thumbnail : Thumbnail)
  | tick (now : UInt32)
  | evaluate (keys : Keys) (word : Int16)
  | load (bytes : Bytes)
  | loadFromMemory (name : String) (files : MemoryFiles)
  | loadFromDirectory (name : String) (t : FileTree)
  | loadSlot (slot : UInt16) (t : FileTree)
  | write (version : UInt32) (room : Option Nat)
  | save (date : Date) (room : Option Nat)
  | saveToBytes (date : Date)
  | saveToMemory (name : String) (date : Date) (files : MemoryFiles)
  | saveToDirectory (name : String) (date : Date) (t : FileTree)
  | saveSlot (slot : UInt16) (date : Date) (t : FileTree)

namespace Operation

/-- The game after a change that may be refused. -/
def settle (g : Game) : Except SaveError Game → Game
  | .ok changed => changed
  | .error _ => g

/-- The game after an operation, whether or not it succeeded. -/
def perform (g : Game) : Operation → Game
  | newGame => g.newGame
  | set index value => (g.set index value).state
  | engineSet index value => settle g (g.engineSet index value)
  | setEngineVariable v value => g.setEngineVariable v value
  | updateInventory items => (g.updateInventory items).state
  | setZip index unlocked => g.setZip index unlocked
  | limitCamera minPitch maxPitch minHeading maxHeading =>
    g.limitCamera minPitch maxPitch minHeading maxHeading
  | freeCamera => g.freeCamera
  | setView view => g.setView view
  | lookAt pitch heading => g.lookAt pitch heading
  | setNodeType nodeType => g.setNodeType nodeType
  | setRunning running => g.setRunning running
  | setDescription description => settle g (g.setDescription description)
  | setThumbnail thumbnail => g.setThumbnail thumbnail
  | tick now => g.tick now
  | evaluate keys word => (g.evaluate keys word).2
  | load bytes => (g.load bytes).state
  | loadFromMemory name files => (files.loadFrom name g).state
  | loadFromDirectory name t => (SaveDirectory.loadFrom name t g).state
  | loadSlot slot t => (SaveDirectory.loadSlot slot t g).state
  | write version room => (g.write version room).outcome.state
  | save date room => (g.save date room).outcome.state
  | saveToBytes date => (g.saveToBytes date).state
  | saveToMemory name date files => (files.saveTo name date g).state.1
  | saveToDirectory name date t => (SaveDirectory.saveTo name date g t).state.1
  | saveSlot slot date t => (SaveDirectory.saveSlot slot date g t).state.1

end Operation

/-- The games that operations lead to from the start. -/
inductive Reachable (settings : Settings) : Game → Prop where
  | start : Reachable settings (.start settings)
  | after {g : Game} (op : Operation) (h : Reachable settings g) :
      Reachable settings (op.perform g)

end Savegame
