import Savegame.Record.Field

/-!
# Serializers

One walk over fields for both directions: what is synced is filled from the bytes that are loaded,
or put into the sink. All bytes pass through `Sync.block`, the only place where they are counted. A
call that fails is given up where it failed, and the walk may go on from there.
-/

namespace Savegame

/-- Which way bytes go, and what is at the other end. -/
inductive Direction where
  | loading (rest : Bytes)
  /-- A sink may have room for so many more bytes only. -/
  | saving (sink : Bytes) (room : Option Nat)
  deriving DecidableEq, Repr

namespace Direction

/-- Fills a block, or puts it out. A sink that runs full keeps what fits. -/
def move {size : Nat} (block : Block size) : Direction → Except SaveError (Block size) × Direction
  | loading rest =>
    let r := Reading.take size rest
    (r.answer, loading r.rest)
  | saving sink room =>
    let whole : Emission := ⟨block.bytes, none⟩
    let e := room.elim whole whole.into
    (e.answer block, saving (sink ++ e.bytes) (room.map (· - e.bytes.length)))

end Direction

structure Serializer where
  direction : Direction
  format : Format
  /-- The bytes synced so far. -/
  synced : Nat := 0

/-- A program on a serializer; what it has done before it fails stays done. -/
abbrev Sync := ExceptT SaveError (StateM Serializer)

namespace Sync

/-- Moves a block in the direction of the serializer. It is counted when all of it has moved. -/
def block {size : Nat} (contents : Block size) : Sync (Block size) := do
  let s ← get
  let (answer, direction) := s.direction.move contents
  set { s with direction }
  let contents ← liftExcept answer
  modify fun s => { s with synced := s.synced + size }
  return contents

def number (width n : Nat) : Sync Nat := do
  let contents ← block ⟨Bytes.ofNat width n, Bytes.length_ofNat width n⟩
  return contents.bytes.toNat

/-- Syncs the version of the format. One above `highest` has moved, but is not taken over. -/
def version (highest : UInt32) : Sync Unit := do
  let s ← get
  let found := UInt32.ofNat (← number 4 s.format.version.toNat)
  if highest < found then
    throw (.versionTooRecent found highest)
  modify fun s => { s with format := { s.format with version := found } }

def checkLength (length : Nat) : Sync Unit := do
  let s ← get
  liftExcept (Kind.checkLength s.format length)

/-- Syncs the word in front of a text. The length is checked once the word has moved. -/
def textLength (length : Nat) : Sync Nat := do
  let length ← number 4 length
  checkLength length
  return length

def loadText (old : String) : Sync String := do
  let length ← textLength old.utf8ByteSize
  let loaded ← block (Block.zero length)
  match Utf8.decode loaded.bytes with
  | .ok contents => return contents
  | .error fault => throw (.corrupt (.description fault))

/-- A text that is too long is held back entirely. -/
def saveText (contents : String) : Sync String := do
  checkLength contents.utf8ByteSize
  let _ ← textLength contents.utf8ByteSize
  let _ ← block (⟨Utf8.encode contents, rfl⟩ : Block (Utf8.encode contents).length)
  return contents

def text (contents : String) : Sync String := do
  let s ← get
  match s.direction with
  | .loading _ => loadText contents
  | .saving _ _ => saveText contents

/-- Syncs a number: its bits, or a fixed-point word. -/
def real (x : Binary32) : Sync Binary32 := do
  let s ← get
  let word ← number 4 (Kind.realWord s.format x).toNat
  return Kind.ofRealWord s.format (UInt32.ofNat word)

def row {α : Type} (item : α → Sync α) : {count : Nat} → Vector α count → Sync (Vector α count)
  | 0, xs => return xs
  | count + 1, xs => do
    let done ← row item xs.pop
    let last ← item (xs.get (Fin.last count))
    return done.push last

/-- Syncs a field. The answer is its value afterwards. -/
def field : (k : Kind) → k.Value → Sync k.Value
  | .word8, x => return UInt8.ofNat (← number 1 x.toNat)
  | .word16, x => return UInt16.ofNat (← number 2 x.toNat)
  | .word32, x => return UInt32.ofNat (← number 4 x.toNat)
  | .integer, x => return (UInt32.ofNat (← number 4 x.toUInt32.toNat)).toInt32
  | .flag, (x : Bool) => return decide ((← number 4 (if x then 1 else 0)) ≠ 0)
  | .real, x => real x
  | .text, x => text x
  | .block _, x => block x
  | .row _ item, xs => row (field item) xs

end Sync

namespace Serializer

/-- A serializer that fills fields from a byte string; it learns the version on the way. -/
def loading (bytes : Bytes) (limit : Nat := 256) : Serializer where
  direction := .loading bytes
  format := ⟨0, limit⟩

def saving (version : UInt32) (limit : Nat := 256) (room : Option Nat := none) : Serializer where
  direction := .saving [] room
  format := ⟨version, limit⟩

def run {α : Type} (s : Serializer) (program : Sync α) : Except SaveError α × Serializer :=
  (ExceptT.run program).run s

end Serializer

end Savegame
