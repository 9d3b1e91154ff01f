import Savegame.Record.Basic

/-!
# Settings

What can be set from outside, with the values that hold when nothing is set.
-/

namespace Savegame

structure Settings where
  saveRoot : String := "saves"
  writeVersion : UInt32 := Record.newest
  /-- Whether writes to unimplemented variables are reported. -/
  warnOnUnknownWrites : Bool := true
  /-- The longest description allowed, in bytes. -/
  maxDescriptionLength : Nat := 256
  deriving DecidableEq, Repr

namespace Settings

/-- Refuses a version that cannot be written, then a limit that a length word cannot hold. -/
def validate (s : Settings) : Except SaveError Unit :=
  if Record.newest < s.writeVersion then
    .error (.settings (.versionTooHigh s.writeVersion Record.newest))
  else if UInt32.size ≤ s.maxDescriptionLength then .error (.settings .limitTooLong)
  else .ok ()

end Settings

end Savegame
