/-!
# TOML documents

Values and tables as a document defines them. A table remembers how it came about, since that
decides who may still add to it.
-/

namespace Savegame.Toml

inductive Origin where
  /-- From its own header, or as the whole document. -/
  | header
  /-- From being named in front of another header. -/
  | implied
  /-- From being named in front of a key. -/
  | dotted
  /-- From braces. Nothing is ever added to such a table. -/
  | braces
  deriving DecidableEq, Repr

inductive Item where
  | text (contents : String)
  | integer (value : Int)
  | float (written : String)
  | boolean (value : Bool)
  | moment (written : String)
  | array (items : List Item)
  | table (origin : Origin) (entries : List (String × Item))
  /-- The tables of one name in double brackets. -/
  | tables (items : List (List (String × Item)))
  deriving Inhabited

abbrev Entries := List (String × Item)

namespace Entries

def find? (entries : Entries) (key : String) : Option Item :=
  entries.lookup key

/-- Puts an item in the place of the one with the key, or at the end. -/
def put (entries : Entries) (key : String) (item : Item) : Entries :=
  if (Entries.find? entries key).isSome then
    entries.map fun e => if e.1 = key then (key, item) else e
  else entries ++ [(key, item)]

/-- Changes the table at the end of a path, or refuses to. Tables missing on the way are made, with
the given origin. A path through keys may not enter a table that has a header; no path enters a
value or a table in braces; and a list of tables stands for its last one. -/
def modify (missing : Origin) (change : Origin → Entries → Option Entries) :
    (path : List String) → Origin → Entries → Option Entries
  | [], origin, entries => change origin entries
  | key :: rest, _, entries =>
    match Entries.find? entries key with
    | none => do
      let inner ← modify missing change rest missing []
      return put entries key (.table missing inner)
    | some (.table origin inner) =>
      if origin = .braces ∨ (missing = .dotted ∧ origin = .header) then none
      else do
        let inner ← modify missing change rest origin inner
        return put entries key (.table origin inner)
    | some (.tables items) => do
      let last ← items.getLast?
      let last ← modify missing change rest .header last
      return put entries key (.tables (items.dropLast ++ [last]))
    | some _ => none

/-- Adds a new entry. Where a path of keys led to the table, it has to be one that keys made. -/
def define (path : List String) (key : String) (item : Item) (entries : Entries) : Option Entries :=
  modify .dotted (fun origin inner =>
    if path ≠ [] ∧ origin ≠ .dotted then none
    else if (Entries.find? inner key).isSome then none
    else some (inner ++ [(key, item)])) path .header entries

/-- Opens a table by its header. It may have been implied before, but not defined. -/
def openTable (path : List String) (entries : Entries) : Option Entries :=
  match path.getLast? with
  | none => none
  | some key =>
    modify .implied (fun _ inner =>
      match Entries.find? inner key with
      | none => some (inner ++ [(key, .table .header [])])
      | some (.table .implied known) => some (put inner key (.table .header known))
      | some _ => none) path.dropLast .header entries

/-- Opens one more table of a list of tables. -/
def appendTable (path : List String) (entries : Entries) : Option Entries :=
  match path.getLast? with
  | none => none
  | some key =>
    modify .implied (fun _ inner =>
      match Entries.find? inner key with
      | none => some (inner ++ [(key, .tables [[]])])
      | some (.tables items) => some (put inner key (.tables (items ++ [[]])))
      | some _ => none) path.dropLast .header entries

/-- Adds an entry below an open table. -/
def defineIn (table path : List String) (key : String) (item : Item) (entries : Entries) :
    Option Entries :=
  modify .implied (fun _ inner => define path key item inner) table .header entries

/-- The table in braces with the given keys and values. -/
def ofPairs? (pairs : List (List String × Item)) : Option Entries :=
  pairs.foldlM (fun entries pair => do
    let key ← pair.1.getLast?
    define pair.1.dropLast key pair.2 entries) []

end Entries

end Savegame.Toml
