import Savegame.Binary32.Shortest
import Savegame.Game.Script
import Savegame.Json.Printer

/-!
# Summaries

What the command line prints of a game, as JSON.
-/

namespace Savegame.Summary

/-- Numbers are positional while their first digit stands for `10 ^ -6` to `10 ^ 12`. -/
def numberLayout : Binary32.Layout := ⟨-6, 12⟩

/-- A number, or null for infinities and NaNs. -/
def number (x : Binary32) : Json :=
  match x.toText? numberLayout with
  | some text => .decimal text
  | none => .null

def date (d : Date) : String :=
  Numeral.decimal 4 d.year.toNat ++ "-" ++ Numeral.decimal 2 d.month.toNat ++ "-" ++
    Numeral.decimal 2 d.day.toNat ++ " " ++ Numeral.decimal 2 d.hour.toNat ++ ":" ++
    Numeral.decimal 2 d.minute.toNat

def valuesByName (t : VariableTable) : Dictionary String Int32 :=
  .ofList (t.nonZero.map fun entry => (Game.describe entry.1, entry.2))

def location (t : VariableTable) : Json :=
  .ofMembers
    [("age", .integer (t.read Variable.locationAge).toInt),
      ("room", .integer (t.read Variable.locationRoom).toInt),
      ("node", .integer (t.read Variable.locationNode).toInt)]

def camera (r : Record) : Json :=
  .ofMembers
    [("limited", .bool r.limits.limited),
      ("pitch", number r.view.pitch),
      ("heading", number r.view.heading),
      ("fov", number r.view.fieldOfView),
      ("node_type", .integer r.nodeType.toNat)]

def ofRecord (r : Record) : Json :=
  .ofMembers
    [("version", .integer r.version.toNat),
      ("game_running", .bool r.running),
      ("current_frame", .integer r.frame.toNat),
      ("seconds_played", .integer r.secondsPlayed.toNat),
      ("location", location r.table),
      ("inventory", .array (r.inventory.items.map fun item => .integer item.toNat)),
      ("zip_destinations_unlocked", .integer r.zips.unlocked.length),
      ("camera", camera r),
      ("description", .ofText r.description),
      ("saved_at", .ofText (date r.date)),
      ("vars", .ofMembers ((valuesByName r.table).entries.map fun entry =>
        (entry.1, .integer entry.2.toInt)))]

/-- A condition with its text and whether it holds. -/
def ofCondition (g : Game) (word : Int16) : Json :=
  .ofMembers
    [("condition", .integer word.toInt),
      ("description", .ofText (Game.describeCondition word)),
      ("result", .bool (g.evaluate {} word).1)]

end Savegame.Summary
