import Savegame.Error

/-!
# The variable table

2048 signed words. Scripts address the slots 1 to 2047; slot 0 is reserved and reads as zero, and
slot 1 starts out as one.
-/

namespace Savegame

namespace Variable

abbrev count : Nat := 2048

/-- The slot that an index addresses, modulo the size of the table. -/
def slot (index : UInt16) : Fin count :=
  Fin.ofNat count index.toNat

def inRange (index : UInt16) : Bool :=
  1 ≤ index && index ≤ 2047

end Variable

structure VariableTable where
  slots : Vector Int32 Variable.count
  deriving DecidableEq

namespace VariableTable

/-- The value in a slot, whatever the index. -/
def read (t : VariableTable) (index : UInt16) : Int32 :=
  t.slots[Variable.slot index]

/-- Puts a value into a slot, whatever the index. -/
def write (t : VariableTable) (index : UInt16) (value : Int32) : VariableTable :=
  ⟨t.slots.set (Variable.slot index) value⟩

def initial : VariableTable :=
  VariableTable.write ⟨Vector.replicate Variable.count 0⟩ 1 1

def get (t : VariableTable) (index : UInt16) : Except SaveError Int32 :=
  if Variable.inRange index then .ok (t.read index) else .error (.variableOutOfRange index)

def set (t : VariableTable) (index : UInt16) (value : Int32) : Except SaveError VariableTable :=
  if Variable.inRange index then .ok (t.write index value) else .error (.variableOutOfRange index)

/-- The slots past the reserved one that hold something, in order. -/
def nonZero (t : VariableTable) : List (UInt16 × Int32) :=
  ((t.slots.toList.zipIdx.drop 1).filter (·.1 ≠ 0)).map fun entry =>
    (UInt16.ofNat entry.2, entry.1)

end VariableTable

end Savegame
