import Savegame.Game.Basic
import Savegame.Record.Codec

/-!
# Saving and loading

A save stamps the live record with the date and puts it out. The record put out is not running;
the live one runs on afterwards, whatever came of the attempt. A load replaces the live record only
by one that was read in full.
-/

namespace Savegame.Game

/-- Replaces the live record by the one in front of a byte string, and sets it running. -/
def load (g : Game) (bytes : Bytes) : Outcome Game Unit :=
  match Record.decode g.settings.maxDescriptionLength bytes with
  | .ok decoded => ⟨.ok (), { g with record := { decoded.record with running := true } },
      decoded.events⟩
  | .error e => ⟨.error e, g, []⟩

def format (g : Game) (version : UInt32) : Format :=
  ⟨version, g.settings.maxDescriptionLength⟩

/-- What a write at a version puts out. -/
def emission (g : Game) (version : UInt32) : Emission :=
  ({ g.record with running := false } : Record).encode (g.format version)

/-- What is left of the game and in the sink after a write. -/
structure Written where
  outcome : Outcome Game Nat
  sink : Bytes

/-- Writes the record at a version into a sink with room for `room` bytes, or for any number. The
answer is the number of bytes written. -/
def write (g : Game) (version : UInt32) (room : Option Nat) : Written :=
  if Record.newest < version then
    ⟨⟨.error (.versionTooRecent version Record.newest), g, []⟩, []⟩
  else
    let e := g.emission version
    let e := match room with
      | some room => e.into room
      | none => e
    let events := Record.encodeEvents (g.format version) e
    ⟨⟨e.answer e.bytes.length, g.setRunning true, events⟩, e.bytes⟩

def stamp (g : Game) (date : Date) : Game :=
  { g with record := { g.record with date } }

/-- Stamps the game and writes it at the version that is set. -/
def save (g : Game) (date : Date) (room : Option Nat) : Written :=
  (g.stamp date).write g.settings.writeVersion room

def saveToBytes (g : Game) (date : Date) : Outcome Game Bytes :=
  let w := g.save date none
  ⟨w.outcome.answer.map fun _ => w.sink, w.outcome.state, w.outcome.events⟩

end Savegame.Game
