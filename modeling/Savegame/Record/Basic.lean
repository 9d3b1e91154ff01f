import Savegame.Binary32.Basic
import Savegame.Bytes.Basic
import Savegame.Inventory
import Savegame.Variable.Table

/-!
# The record of a game

Everything about a running game that a save keeps.
-/

namespace Savegame

structure Block (size : Nat) where
  bytes : Bytes
  length_eq : bytes.length = size

namespace Block

def zero (size : Nat) : Block size :=
  ⟨List.replicate size 0, List.length_replicate⟩

instance (size : Nat) : Inhabited (Block size) := ⟨zero size⟩

end Block

namespace Thumbnail

def width : Nat := 240

def height : Nat := 135

/-- Four bytes to the pixel. -/
abbrev size : Nat := 129600

theorem size_eq : size = width * height * 4 := rfl

end Thumbnail

/-- A preview picture, its pixels row by row. -/
abbrev Thumbnail := Block Thumbnail.size

namespace Thumbnail

/-- Black and fully transparent. -/
def blank : Thumbnail := Block.zero size

def ofPixels (pixels : Bytes) : Except SaveError Thumbnail :=
  if h : pixels.length = size then .ok ⟨pixels, h⟩
  else .error (.thumbnailSize size pixels.length)

end Thumbnail

/-- The date and time of a save, as a calendar gave it; nothing is checked. -/
structure Date where
  year : UInt16 := 0
  month : UInt8 := 0
  day : UInt8 := 0
  hour : UInt8 := 0
  minute : UInt8 := 0
  deriving DecidableEq, Repr

structure View where
  pitch : Binary32 := .zero
  heading : Binary32 := .zero
  fieldOfView : Binary32 := .zero
  pitchOffset : Binary32 := .zero
  headingOffset : Binary32 := .zero
  deriving DecidableEq, Repr

/-- Bounds of the camera's orientation; they stay while the camera is free. -/
structure CameraLimits where
  limited : Bool := false
  minPitch : Binary32 := .zero
  maxPitch : Binary32 := .zero
  minHeading : Binary32 := .zero
  maxHeading : Binary32 := .zero
  deriving DecidableEq, Repr

namespace ZipDestinations

abbrev count : Nat := 256

end ZipDestinations

/-- One flag for each place that can be travelled to at once; any byte but zero unlocks. -/
structure ZipDestinations where
  flags : Vector UInt8 ZipDestinations.count
  deriving DecidableEq

namespace ZipDestinations

def locked : ZipDestinations :=
  ⟨Vector.replicate count 0⟩

def isUnlocked (z : ZipDestinations) (index : UInt8) : Bool :=
  z.flags[index.toFin] ≠ 0

def set (z : ZipDestinations) (index : UInt8) (unlocked : Bool) : ZipDestinations :=
  ⟨z.flags.set index.toFin (if unlocked then 1 else 0)⟩

def unlocked (z : ZipDestinations) : List Nat :=
  (z.flags.toList.zipIdx.filter (·.1 ≠ 0)).map (·.2)

end ZipDestinations

structure Record where
  /-- The version the record was made or read with. -/
  version : UInt32
  running : Bool
  frame : UInt32
  nextSecond : UInt32
  secondsPlayed : UInt32
  /-- Words without a meaning, kept for the sake of the layout. -/
  legacy : Vector UInt32 7
  nodeType : UInt32
  view : View
  limits : CameraLimits
  /-- One more word without a meaning, further on in the layout. -/
  legacyLast : UInt32
  table : VariableTable
  inventory : Inventory
  zips : ZipDestinations
  date : Date
  description : String
  thumbnail : Thumbnail

namespace Record

/-- The newest version that is read and written. -/
def newest : UInt32 := 149

/-- From this version on a record carries a date, a description and a thumbnail. -/
def stampVersion : UInt32 := 149

def newGame : Record where
  version := newest
  running := true
  frame := 0
  nextSecond := 0
  secondsPlayed := 0
  legacy := Vector.replicate 7 0
  nodeType := 0
  view := {}
  limits := {}
  legacyLast := 0
  table := .initial
  inventory := .empty
  zips := .locked
  date := {}
  description := ""
  thumbnail := .blank

end Record

end Savegame
