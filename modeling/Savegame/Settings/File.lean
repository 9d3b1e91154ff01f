import Savegame.FileTree.Basic
import Savegame.Settings.Basic
import Savegame.Toml.Printer
import Savegame.Toml.Reader

/-!
# Settings files

Settings as a TOML document with one entry each. An entry that is missing keeps its default, one
that is not known is ignored.
-/

namespace Savegame.Settings

/-- The value of an entry, or `default` where there is none; nothing where `read` refuses it. -/
def entry? {α : Type} (entries : Toml.Entries) (key : String) (default : α)
    (read : Toml.Item → Option α) : Option α :=
  match Toml.Entries.find? entries key with
  | none => some default
  | some item => read item

def text? : Toml.Item → Option String
  | .text contents => some contents
  | _ => none

def boolean? : Toml.Item → Option Bool
  | .boolean value => some value
  | _ => none

def natural? : Toml.Item → Option Nat
  | .integer value => if 0 ≤ value then some value.toNat else none
  | _ => none

def word? (item : Toml.Item) : Option UInt32 := do
  let n ← natural? item
  if n < UInt32.size then some (UInt32.ofNat n) else none

def ofEntries? (entries : Toml.Entries) : Option Settings := do
  let standard : Settings := {}
  return {
    saveRoot := ← entry? entries "save_root" standard.saveRoot text?
    writeVersion := ← entry? entries "write_version" standard.writeVersion word?
    warnOnUnknownWrites :=
      ← entry? entries "warn_on_unknown_writes" standard.warnOnUnknownWrites boolean?
    maxDescriptionLength :=
      ← entry? entries "max_description_len" standard.maxDescriptionLength natural? }

def ofText (text : String) : Except SaveError Settings :=
  match (Toml.ofText? text).bind ofEntries? with
  | none => .error (.settings .unreadable)
  | some settings => do
    settings.validate
    return settings

/-- The settings in a file, or the standard ones where nothing is there. -/
def load (t : FileTree) (l : Location) : Except SaveError Settings :=
  if t.isPresent l then
    match t.read l with
    | .error e => .error (.stream (.system e))
    | .ok bytes =>
      match Utf8.decode bytes with
      | .error _ => .error (.stream .notText)
      | .ok text => ofText text
  else .ok {}

def toText (s : Settings) : String :=
  "save_root = " ++ Toml.Printer.string s.saveRoot ++ "\n" ++
  "write_version = " ++ Numeral.decimal 1 s.writeVersion.toNat ++ "\n" ++
  "warn_on_unknown_writes = " ++ (if s.warnOnUnknownWrites then "true" else "false") ++ "\n" ++
  "max_description_len = " ++ Numeral.decimal 1 s.maxDescriptionLength ++ "\n"

end Savegame.Settings
