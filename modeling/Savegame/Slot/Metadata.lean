import Savegame.Bytes.Checksum
import Savegame.Game.Basic
import Savegame.Json.Reader

/-!
# Slot metadata

A preview of a saved slot with the checksum of its bytes, kept beside it as JSON.
-/

namespace Savegame

structure SlotMetadata where
  slot : UInt16
  version : UInt32
  description : String
  savedAt : Date
  secondsPlayed : UInt32
  age : Int32
  room : Int32
  node : Int32
  checksum : UInt32
  length : Nat
  deriving DecidableEq, Repr

def Date.rank (d : Date) : Nat :=
  (((d.year.toNat * 256 + d.month.toNat) * 256 + d.day.toNat) * 256 + d.hour.toNat) * 256 +
    d.minute.toNat

namespace SlotMetadata

/-- The preview of a game that was just saved as the given bytes. -/
def of (slot : UInt16) (g : Game) (bytes : Bytes) : SlotMetadata where
  slot
  version := g.settings.writeVersion
  description := g.record.description
  savedAt := g.record.date
  secondsPlayed := g.record.secondsPlayed
  age := g.record.table.read Variable.locationAge
  room := g.record.table.read Variable.locationRoom
  node := g.record.table.read Variable.locationNode
  checksum := bytes.checksum
  length := bytes.length

def dateFields : List String :=
  ["year", "month", "day", "hour", "minute"]

def dateToJson (d : Date) : Json :=
  .ofMembers (dateFields.zip
    [.integer d.year.toNat, .integer d.month.toNat, .integer d.day.toNat, .integer d.hour.toNat,
      .integer d.minute.toNat])

def dateOfJson? (value : Json) : Option Date := do
  let [year, month, day, hour, minute] ← value.fields? dateFields | none
  return {
    year := UInt16.ofNat (← year.word? 16)
    month := UInt8.ofNat (← month.word? 8)
    day := UInt8.ofNat (← day.word? 8)
    hour := UInt8.ofNat (← hour.word? 8)
    minute := UInt8.ofNat (← minute.word? 8) }

def fields : List String :=
  ["slot_id", "version", "description", "saved_at", "seconds_played", "location_age",
    "location_room", "location_node", "crc32", "byte_len"]

def toJson (m : SlotMetadata) : Json :=
  .ofMembers (fields.zip
    [.integer m.slot.toNat, .integer m.version.toNat, .ofText m.description, dateToJson m.savedAt,
      .integer m.secondsPlayed.toNat, .integer m.age.toInt, .integer m.room.toInt,
      .integer m.node.toInt, .integer m.checksum.toNat, .integer m.length])

def location? (value : Json) : Option Int32 :=
  (value.integer? Int32.minValue.toInt Int32.maxValue.toInt).map Int32.ofInt

def ofJson? (value : Json) : Option SlotMetadata := do
  let [slot, version, description, savedAt, secondsPlayed, age, room, node, checksum, length] ←
    value.fields? fields | none
  return {
    slot := UInt16.ofNat (← slot.word? 16)
    version := UInt32.ofNat (← version.word? 32)
    description := ← description.text?
    savedAt := ← dateOfJson? savedAt
    secondsPlayed := UInt32.ofNat (← secondsPlayed.word? 32)
    age := ← location? age
    room := ← location? room
    node := ← location? node
    checksum := UInt32.ofNat (← checksum.word? 32)
    length := ← length.word? 64 }

def toBytes (m : SlotMetadata) : Bytes :=
  m.toJson.toBytes

def ofBytes? (bytes : Bytes) : Option SlotMetadata :=
  (Json.ofBytes? bytes).bind ofJson?

end SlotMetadata

end Savegame
