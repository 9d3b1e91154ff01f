import Savegame.Dictionary
import Savegame.Text.Numeral

/-!
# Descriptions of variables

A catalog names the variables that have a meaning. The others go by their number: `v61`.
-/

namespace Savegame

structure Description where
  index : UInt16
  name : String
  /-- Whether the engine acts on the variable. -/
  implemented : Bool
  deriving DecidableEq, Repr

structure Catalog where
  descriptions : Dictionary UInt16 Description

namespace Catalog

/-- A later description takes the place of an earlier one with the same index. -/
def ofList (descriptions : List Description) : Catalog :=
  ⟨Dictionary.ofList (descriptions.map fun d => (d.index, d))⟩

def find? (c : Catalog) (index : UInt16) : Option Description :=
  c.descriptions.find? index

def contains (c : Catalog) (index : UInt16) : Bool :=
  c.descriptions.contains index

def size (c : Catalog) : Nat :=
  c.descriptions.size

/-- The name of a described variable, `v` and the index otherwise. -/
def describe (c : Catalog) (index : UInt16) : String :=
  match c.find? index with
  | some description => description.name
  | none => "v" ++ Numeral.decimal 1 index.toNat

end Catalog

end Savegame
