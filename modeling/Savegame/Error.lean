import Savegame.Text.Numeral
import Savegame.Text.Utf8

/-!
# What can go wrong

Errors say the cause; the wording of each is in one place, beside it. Texts that come from the
host's file system or from the reader of settings are not part of what this library promises:
`SaveError.isHostWorded` tells those apart.
-/

namespace Savegame

inductive FileFault where
  | notFound
  | isDirectory
  | notDirectory
  | alreadyExists
  deriving DecidableEq, Repr

def FileFault.message : FileFault → String
  | .notFound => "no such file or directory"
  | .isDirectory => "is a directory"
  | .notDirectory => "not a directory"
  | .alreadyExists => "file exists"

/-- A failure to move bytes or to open what holds them. -/
inductive StreamFault where
  /-- The input ended inside a field. -/
  | endOfInput
  /-- The sink took no more bytes. -/
  | sinkFull
  | noSave (name : String)
  | notText
  /-- A copy was asked of something that is no file. -/
  | notFile
  | system (fault : FileFault)
  deriving DecidableEq, Repr

def StreamFault.message : StreamFault → String
  | .endOfInput => "failed to fill whole buffer"
  | .sinkFull => "failed to write whole buffer"
  | .noSave name => "no save named '" ++ name ++ "'"
  | .notText => "stream did not contain valid UTF-8"
  | .notFile => "the source path is neither a regular file nor a symlink to a regular file"
  | .system fault => fault.message

/-- What is wrong with the bytes of a save. -/
inductive Damage where
  | inventoryCount (count : UInt32) (capacity : Nat)
  | inventoryItem (item : UInt32)
  | description (fault : Utf8.Fault)
  | checksum (expected actual : UInt32)
  deriving DecidableEq, Repr

def Damage.message : Damage → String
  | .inventoryCount count capacity =>
    "inventory count " ++ Numeral.decimal 1 count.toNat ++ " exceeds capacity " ++
      Numeral.decimal 1 capacity
  | .inventoryItem item =>
    "inventory item " ++ Numeral.decimal 1 item.toNat ++ " is not a valid item id"
  | .description (.invalid length index) =>
    "description: invalid utf-8 sequence of " ++ Numeral.decimal 1 length ++ " bytes from index " ++
      Numeral.decimal 1 index
  | .description (.incomplete index) =>
    "description: incomplete utf-8 byte sequence from index " ++ Numeral.decimal 1 index
  | .checksum expected actual =>
    "slot checksum mismatch (expected 0x" ++ Numeral.hex 8 expected.toNat ++ ", got 0x" ++
      Numeral.hex 8 actual.toNat ++ ")"

inductive SettingsFault where
  /-- The text is no settings file, or a setting has a value of the wrong kind. -/
  | unreadable
  | versionTooHigh (version highest : UInt32)
  | limitTooLong
  deriving DecidableEq, Repr

def SettingsFault.message : SettingsFault → String
  | .unreadable => "unreadable settings"
  | .versionTooHigh version highest =>
    "write_version " ++ Numeral.decimal 1 version.toNat ++
      " is above the newest supported version " ++ Numeral.decimal 1 highest.toNat
  | .limitTooLong => "max_description_len does not fit the save format"

inductive SaveError where
  | variableOutOfRange (index : UInt16)
  | undescribedVariable (index : UInt16)
  | versionTooRecent (found highest : UInt32)
  | corrupt (damage : Damage)
  | descriptionTooLong (length limit : Nat)
  | thumbnailSize (expected found : Nat)
  | stream (fault : StreamFault)
  | settings (fault : SettingsFault)
  | slotNotFound (slot : UInt16)
  /-- The primary copy is bad and there is no backup. -/
  | backupMissing (primary : SaveError)
  /-- Both copies are bad. -/
  | backupUnreadable (primary backup : SaveError)
  deriving DecidableEq, Repr

namespace SaveError

def message : SaveError → String
  | variableOutOfRange index => "variable out of range " ++ Numeral.decimal 1 index.toNat
  | undescribedVariable index =>
    "the engine is trying to access an undescribed var (" ++ Numeral.decimal 1 index.toNat ++ ")"
  | versionTooRecent found highest =>
    "this savegame (v" ++ Numeral.decimal 1 found.toNat ++ ") is too recent (max " ++
      Numeral.decimal 1 highest.toNat ++ ")"
  | corrupt damage => "corrupt save record: " ++ damage.message
  | descriptionTooLong length limit =>
    "save description is " ++ Numeral.decimal 1 length ++ " bytes long (max " ++
      Numeral.decimal 1 limit ++ ")"
  | thumbnailSize expected found =>
    "thumbnail must be " ++ Numeral.decimal 1 expected ++ " bytes, got " ++ Numeral.decimal 1 found
  | stream fault => "io error: " ++ fault.message
  | settings fault => "invalid configuration: " ++ fault.message
  | slotNotFound slot => "save slot " ++ Numeral.decimal 1 slot.toNat ++ " does not exist"
  | backupMissing primary =>
    "save recovery failed (primary: " ++ primary.message ++ ", backup missing)"
  | backupUnreadable primary backup =>
    "save recovery failed (primary: " ++ primary.message ++ ", backup: " ++ backup.message ++ ")"

/-- The stable identifier of the kind of error. -/
def code : SaveError → String
  | variableOutOfRange _ => "state.var_out_of_range"
  | undescribedVariable _ => "state.undescribed_var"
  | versionTooRecent _ _ => "state.version_too_recent"
  | corrupt _ => "state.corrupt_record"
  | descriptionTooLong _ _ => "state.description_too_long"
  | thumbnailSize _ _ => "state.invalid_thumbnail"
  | stream _ => "state.io"
  | settings _ => "state.config"
  | slotNotFound _ => "state.slot_not_found"
  | backupMissing _ | backupUnreadable _ _ => "state.recovery_failed"

def help? : SaveError → Option String
  | variableOutOfRange _ => some "valid variables are 1..=2047"
  | versionTooRecent _ _ => some "the save was written by a newer build"
  | _ => none

/-- Whether the bytes of a save are to blame, and not its surroundings. -/
def isCorruption : SaveError → Bool
  | corrupt _ | descriptionTooLong _ _ | versionTooRecent _ _ | stream .endOfInput => true
  | _ => false

/-- Whether the wording is the host's own. -/
def isHostWorded : SaveError → Bool
  | stream (.system _) | settings .unreadable => true
  | _ => false

/-- The error and what caused it, outermost first, as a report lists them. -/
def chain (e : SaveError) : List String :=
  match e with
  | stream fault => [e.message, fault.message]
  | _ => [e.message]

end SaveError

end Savegame
