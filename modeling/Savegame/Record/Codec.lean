import Savegame.Event
import Savegame.Record.Field

/-!
# Records as bytes

A record starts with its version; the fields of `Record.layout` follow, and from `stampVersion` on
those of `Record.stampLayout`. One layout serves both directions.
-/

namespace Savegame.Record

/-- The fields that records of all versions have. -/
def layout : Layout :=
  [.flag, .word32, .word32, .word32, .row 7 .word32, .word32,
    .real, .real, .real, .real, .real,
    .flag, .real, .real, .real, .real,
    .word32, .row Variable.count .integer,
    .word32, .row Inventory.capacity .word32, .row ZipDestinations.count .word8]

def stampLayout : Layout :=
  [.word8, .word8, .word16, .word8, .word8, .text, .block Thumbnail.size]

def values (r : Record) : Layout.Values layout :=
  (r.running, r.frame, r.nextSecond, r.secondsPlayed, r.legacy, r.nodeType,
    r.view.pitch, r.view.heading, r.view.fieldOfView, r.view.pitchOffset, r.view.headingOffset,
    r.limits.limited, r.limits.minPitch, r.limits.maxPitch, r.limits.minHeading,
    r.limits.maxHeading,
    r.legacyLast, r.table.slots,
    r.inventory.count, r.inventory.slots, r.zips.flags, ())

def stamp (r : Record) : Layout.Values stampLayout :=
  (r.date.day, r.date.month, r.date.year, r.date.hour, r.date.minute, r.description, r.thumbnail,
    ())

/-- The record with the given fields, and otherwise as in a new game. -/
def ofValues (version : UInt32) : Layout.Values layout → Record
  | (running, frame, nextSecond, secondsPlayed, legacy, nodeType,
      pitch, heading, fieldOfView, pitchOffset, headingOffset,
      limited, minPitch, maxPitch, minHeading, maxHeading,
      legacyLast, slots, count, items, flags, ()) =>
    { newGame with
      version, running, frame, nextSecond, secondsPlayed, legacy, nodeType
      view := { pitch, heading, fieldOfView, pitchOffset, headingOffset }
      limits := { limited, minPitch, maxPitch, minHeading, maxHeading }
      legacyLast
      table := ⟨slots⟩
      inventory := ⟨count, items⟩
      zips := ⟨flags⟩ }

def withStamp (r : Record) : Layout.Values stampLayout → Record
  | (day, month, year, hour, minute, description, thumbnail, ()) =>
    { r with date := { year, month, day, hour, minute }, description, thumbnail }

/-- Puts a record out at a version of its own choice; nothing comes for one that is too new. -/
def encode (f : Format) (r : Record) : Emission :=
  if newest < f.version then ⟨[], some (.versionTooRecent f.version newest)⟩
  else
    (putVersion f.version newest).andThen <| (layout.put f r.values).andThen <|
      if stampVersion ≤ f.version then stampLayout.put f r.stamp else ⟨[], none⟩

/-- The events of putting a record out: one, if it came out in full. -/
def encodeEvents (f : Format) (e : Emission) : List Event :=
  match e.stop with
  | none => [.recordEncoded f.version e.bytes.length]
  | some _ => []

/-- Reads the fields of a record without judging them. -/
def read (limit : Nat) (bytes : Bytes) : Reading Record :=
  (readVersion newest bytes).andThen fun version bytes =>
    (layout.read ⟨version, limit⟩ bytes).andThen fun values bytes =>
      if stampVersion ≤ version then
        (stampLayout.read ⟨version, limit⟩ bytes).map fun stamp =>
          (ofValues version values).withStamp stamp
      else ⟨.ok (ofValues version values), 0, bytes⟩

/-- A record that was read, with the events of reading it. -/
structure Decoded where
  record : Record
  events : List Event

/-- Reads a record from the front of a byte string. The inventory has to be sound, and the
reserved variable is set back to zero. -/
def decode (limit : Nat) (bytes : Bytes) : Except SaveError Decoded := do
  let reading := read limit bytes
  let r ← reading.answer
  r.inventory.validate
  let reserved := r.table.read 0
  let done := Event.recordDecoded r.version reading.moved
  if reserved = 0 then return ⟨r, [done]⟩
  else
    return ⟨{ r with table := r.table.write 0 0 }, [.variableZeroReset reserved, done]⟩

end Savegame.Record
