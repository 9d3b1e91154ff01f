import Savegame.Error

/-!
# The inventory

At most seven items in the order they were picked up, held in seven words and a count.
-/

namespace Savegame

namespace Inventory

abbrev capacity : Nat := 7

end Inventory

structure Inventory where
  count : UInt32
  slots : Vector UInt32 Inventory.capacity
  deriving DecidableEq, Repr

namespace Inventory

def empty : Inventory :=
  ⟨0, Vector.replicate capacity 0⟩

def items (inventory : Inventory) : List UInt16 :=
  (inventory.slots.toList.take inventory.count.toNat).map (·.toUInt16)

def isEmpty (inventory : Inventory) : Bool :=
  inventory.count = 0

/-- The inventory of the first seven items. -/
def ofItems (items : List UInt16) : Inventory where
  count := UInt32.ofNat (min items.length capacity)
  slots := Vector.ofFn fun i => (items[i.val]?.getD 0).toUInt32

def overflow (items : List UInt16) : Nat :=
  items.length - capacity

/-- Refuses a count above the capacity, then the first slot that holds no item number. -/
def validate (inventory : Inventory) : Except SaveError Unit :=
  if capacity < inventory.count.toNat then
    .error (.corrupt (.inventoryCount inventory.count capacity))
  else
    match inventory.slots.toList.find? (65535 < ·) with
    | some item => .error (.corrupt (.inventoryItem item))
    | none => .ok ()

end Inventory

end Savegame
