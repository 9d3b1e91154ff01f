import Savegame.FileTree.Call
import Savegame.Game.Saving
import Savegame.Slot.Metadata

/-!
# The save directory

A file tree whose root holds the saved slots in `slots` and their sidecars in `meta`. A slot file is
replaced as a whole and its predecessor kept as a backup, which a load falls back on when the slot
file does not match its sidecar or cannot be read.
-/

namespace Savegame.SaveDirectory

def slotsDirectory : Location := ⟨["slots"]⟩

def metaDirectory : Location := ⟨["meta"]⟩

/-- The stem of the names of a slot's files: its number, in at least three digits. -/
def slotStem (slot : UInt16) : String :=
  "slot_" ++ Numeral.decimal 3 slot.toNat

def slotFileName (slot : UInt16) : String :=
  slotStem slot ++ ".m3s"

def location (name : String) : Location :=
  slotsDirectory.join name

def slotLocation (slot : UInt16) : Location :=
  location (slotFileName slot)

def backupLocation (slot : UInt16) : Location :=
  (slotLocation slot).withSuffix ".bak"

def sidecarLocation (slot : UInt16) : Location :=
  metaDirectory.join (slotStem slot ++ ".json")

structure SlotEntry where
  metadata : SlotMetadata
  location : Location

def layoutCalls : List Call :=
  [.makeDirectories slotsDirectory, .makeDirectories metaDirectory]

def ensureLayout (t : FileTree) : Outcome FileTree Unit :=
  Call.runAll t layoutCalls

/-- The calls that put the bytes of a saved game into a slot, after the directories are there. -/
def slotCalls (slot : UInt16) (g : Game) (bytes : Bytes) : List Call :=
  Call.replace (slotLocation slot) bytes true ++
    Call.replace (sidecarLocation slot) (SlotMetadata.of slot g bytes).toBytes false

/-- The calls that saving a game into a slot makes, whether or not the game can be encoded. -/
def saveCalls (slot : UInt16) (date : Date) (g : Game) : List Call :=
  let saved := g.saveToBytes date
  match saved.answer with
  | .ok bytes => layoutCalls ++ slotCalls slot saved.state bytes
  | .error _ => layoutCalls

/-- An outcome on the files, as one on the game and the files. -/
def withGame {α : Type} (g : Game) (o : Outcome FileTree α) : Outcome (Game × FileTree) α :=
  ⟨o.answer, (g, o.state), o.events⟩

/-- Saves a game into a slot. The game is stamped only once the directories are there. -/
def saveSlot (slot : UInt16) (date : Date) (g : Game) (t : FileTree) :
    Outcome (Game × FileTree) SlotEntry :=
  (withGame g (ensureLayout t)).andThen fun _ (g, t) =>
    let saved := g.saveToBytes date
    match saved.answer with
    | .error e => ⟨.error e, (saved.state, t), saved.events⟩
    | .ok bytes =>
      let g := saved.state
      let o := Call.runAll t (slotCalls slot g bytes)
      ⟨o.answer.map fun _ => ⟨SlotMetadata.of slot g bytes, slotLocation slot⟩, (g, o.state),
        saved.events ++ o.events⟩

/-- What a file holds, or nothing where there is none. -/
def readPresent (t : FileTree) (l : Location) : Except SaveError (Option Bytes) :=
  match t.read l with
  | .ok content => .ok (some content)
  | .error .notFound => .ok none
  | .error e => .error (.stream (.system e))

/-- Compares bytes with the checksum in a slot's sidecar. Without a readable sidecar there is
nothing to compare with. -/
def verify (slot : UInt16) (t : FileTree) (bytes : Bytes) : Outcome Unit Unit :=
  match readPresent t (sidecarLocation slot) with
  | .error e => ⟨.error e, (), []⟩
  | .ok none => ⟨.ok (), (), []⟩
  | .ok (some raw) =>
    match SlotMetadata.ofBytes? raw with
    | none => ⟨.ok (), (), [.sidecarIgnored slot]⟩
    | some metadata =>
      if bytes.checksum = metadata.checksum then ⟨.ok (), (), []⟩
      else ⟨.error (.corrupt (.checksum metadata.checksum bytes.checksum)), (), []⟩

/-- Loads the backup of a slot, whose own file was refused because of `cause`. -/
def loadBackup (slot : UInt16) (t : FileTree) (g : Game) (cause : SaveError) : Outcome Game Unit :=
  match readPresent t (backupLocation slot) with
  | .error e => ⟨.error e, g, []⟩
  | .ok none => ⟨.error (.backupMissing cause), g, []⟩
  | .ok (some bytes) =>
    let loaded := g.load bytes
    match loaded.answer with
    | .ok () => ⟨.ok (), loaded.state, loaded.events ++ [.backupLoaded slot cause]⟩
    | .error e => ⟨.error (.backupUnreadable cause e), g, loaded.events⟩

def loadSlot (slot : UInt16) (t : FileTree) (g : Game) : Outcome Game Unit :=
  match readPresent t (slotLocation slot) with
  | .error e => ⟨.error e, g, []⟩
  | .ok none => ⟨.error (.slotNotFound slot), g, []⟩
  | .ok (some bytes) =>
    let verified := verify slot t bytes
    let loaded : Outcome Game Unit :=
      match verified.answer with
      | .ok () => g.load bytes
      | .error e => ⟨.error e, g, []⟩
    let events := verified.events ++ loaded.events
    match loaded.answer with
    | .ok () => ⟨.ok (), loaded.state, events⟩
    | .error e =>
      if e.isCorruption then
        let recovered := loadBackup slot t g e
        ⟨recovered.answer, recovered.state, events ++ recovered.events⟩
      else ⟨.error e, g, events⟩

def removeSlot (slot : UInt16) (t : FileTree) : Outcome FileTree Unit :=
  Call.runAll t
    [.clear (backupLocation slot), .clear (slotLocation slot), .clear (sidecarLocation slot)]

/-- The entries behind the sidecars with the given names. Unreadable ones are left out, and those
whose slot has no file. -/
def entriesOf (t : FileTree) : List String → Outcome Unit (List SlotEntry)
  | [] => ⟨.ok [], (), []⟩
  | name :: rest =>
    if Location.extension? name ≠ some "json" then entriesOf t rest
    else
      match t.read (metaDirectory.join name) with
      | .error e => ⟨.error (.stream (.system e)), (), []⟩
      | .ok raw =>
        let others := entriesOf t rest
        match SlotMetadata.ofBytes? raw with
        | none => { others with events := .sidecarSkipped :: others.events }
        | some metadata =>
          let l := slotLocation metadata.slot
          if t.isPresent l then
            { others with answer := others.answer.map fun entries => ⟨metadata, l⟩ :: entries }
          else others

/-- Entries with the latest dates first; equal dates stay in order. -/
def newestFirst (entries : List SlotEntry) : List SlotEntry :=
  entries.mergeSort fun a b => decide (b.metadata.savedAt.rank ≤ a.metadata.savedAt.rank)

def listSlots (t : FileTree) : Outcome FileTree (List SlotEntry) :=
  (ensureLayout t).andThen fun _ t =>
    let found := entriesOf t (t.children ["meta"])
    ⟨found.answer.map newestFirst, t, found.events⟩

def saveTo (name : String) (date : Date) (g : Game) (t : FileTree) :
    Outcome (Game × FileTree) Nat :=
  let saved := g.saveToBytes date
  match saved.answer with
  | .error e => ⟨.error e, (saved.state, t), saved.events⟩
  | .ok bytes =>
    let o := Call.runAll t (Call.replace (location name) bytes true)
    ⟨o.answer.map fun _ => bytes.length, (saved.state, o.state), saved.events ++ o.events⟩

def loadFrom (name : String) (t : FileTree) (g : Game) : Outcome Game Unit :=
  match t.read (location name) with
  | .ok bytes => g.load bytes
  | .error e => ⟨.error (.stream (.system e)), g, []⟩

end Savegame.SaveDirectory
