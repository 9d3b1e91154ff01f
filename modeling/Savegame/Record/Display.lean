import Savegame.Record.Basic
import Savegame.Text.Quoted

/-!
# Displaying parts of a record

One-line texts for people who look into a running game.
-/

namespace Savegame

namespace Display

def natural (n : Nat) : String :=
  Numeral.decimal 1 n

def list (items : List String) : String :=
  "[" ++ ", ".intercalate items ++ "]"

def fields (name : String) (members : List (String × String)) : String :=
  name ++ " \x7b " ++ ", ".intercalate (members.map fun m => m.1 ++ ": " ++ m.2) ++ " \x7d"

end Display

open Display

def VariableTable.display (t : VariableTable) : String :=
  "\x7b" ++ ", ".intercalate (t.nonZero.map fun entry =>
    natural entry.1.toNat ++ ": " ++ Numeral.integer entry.2.toInt) ++ "\x7d"

def ZipDestinations.display (z : ZipDestinations) : String :=
  fields "ZipDestinations" [("unlocked", list (z.unlocked.map natural))]

def Thumbnail.display : String :=
  "Thumbnail(" ++ natural width ++ "x" ++ natural height ++ ")"

def Inventory.display (i : Inventory) : String :=
  fields "Inventory"
    [("count", natural i.count.toNat), ("items", list (i.slots.toList.map (natural ·.toNat)))]

def Record.displayStamp (r : Record) : String :=
  fields "SaveMetadata"
    [("day", natural r.date.day.toNat), ("month", natural r.date.month.toNat),
      ("year", natural r.date.year.toNat), ("hour", natural r.date.hour.toNat),
      ("minute", natural r.date.minute.toNat), ("description", Text.quoted r.description)]

end Savegame
