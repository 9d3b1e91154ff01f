import Savegame.Text.Utf8

/-!
# JSON values

Strings are byte strings: what a string token denotes need not be text, and whoever wants text
asks for it with `text?`. Members keep their order and may repeat a name.
-/

namespace Savegame

inductive Json where
  | null
  | bool (value : Bool)
  | integer (value : Int)
  /-- A number that is not written as an integer, by its text. -/
  | decimal (text : String)
  | string (contents : Bytes)
  | array (items : List Json)
  | object (members : List (Bytes × Json))
  deriving Repr, Inhabited

namespace Json

def ofText (text : String) : Json :=
  .string (Utf8.encode text)

def ofMembers (members : List (String × Json)) : Json :=
  .object (members.map fun m => (Utf8.encode m.1, m.2))

def text? : Json → Option String
  | .string contents => (Utf8.decode contents).toOption
  | _ => none

/-- The integer from `least` to `greatest` that a value is, if it is one. -/
def integer? (least greatest : Int) : Json → Option Int
  | .integer n => if least ≤ n ∧ n ≤ greatest then some n else none
  | _ => none

/-- The number below `2 ^ bits` that a value is, if it is one. -/
def word? (bits : Nat) (value : Json) : Option Nat :=
  (value.integer? 0 ((1 <<< bits : Nat) - 1)).map Int.toNat

/-- The value of the only member with a name. -/
def member? (members : List (Bytes × Json)) (name : Bytes) : Option Json :=
  match members.filter (·.1 = name) with
  | [member] => some member.2
  | _ => none

/-- The values of the named fields, from an object that has each of them once and whose names are
all text, or from an array of just these fields in order. -/
def fields? (names : List String) : Json → Option (List Json)
  | .object members =>
    if members.all fun m => (Utf8.decode m.1).isOk then
      names.mapM fun name => member? members (Utf8.encode name)
    else none
  | .array items => if items.length = names.length then some items else none
  | _ => none

end Json

end Savegame
