import Savegame.Dictionary
import Savegame.Game.Saving

/-!
# Saves in memory

Named saves that last as long as the program does.
-/

namespace Savegame

abbrev MemoryFiles := Dictionary String Bytes

namespace MemoryFiles

/-- Saves a game under a name. The save appears only once it is complete. -/
def saveTo (name : String) (date : Date) (g : Game) (files : MemoryFiles) :
    Outcome (Game × MemoryFiles) Nat :=
  let saved := g.saveToBytes date
  match saved.answer with
  | .error e => ⟨.error e, (saved.state, files), saved.events⟩
  | .ok bytes => ⟨.ok bytes.length, (saved.state, files.insert name bytes), saved.events⟩

def loadFrom (name : String) (files : MemoryFiles) (g : Game) : Outcome Game Unit :=
  match files.find? name with
  | some bytes => g.load bytes
  | none => ⟨.error (.stream (.noSave name)), g, []⟩

end MemoryFiles

end Savegame
