import Savegame.Proofs.Reachable

/-!
# The slots behind the items

An update of the inventory leaves zeros behind the items. A load takes over the words of a save as
they are, so that what stands behind the items of a running game is what stood there in the last
save that it went on from, if the inventory has not been laid out anew since.
-/

namespace Savegame

namespace Inventory

variable {i j : Inventory}

/-- Zeros stand behind the items. -/
def IsTidy (i : Inventory) : Prop :=
  ∀ k : Fin capacity, i.count.toNat ≤ k → i.slots[k] = 0

instance (i : Inventory) : Decidable i.IsTidy :=
  inferInstanceAs (Decidable (∀ _ : Fin capacity, _))

theorem empty_isTidy : empty.IsTidy := by
  decide

theorem ofItems_isTidy (items : List UInt16) : (ofItems items).IsTidy := by
  intro k hk
  have hlt := k.isLt
  rw [toNat_count_ofItems] at hk
  have hnone : items[k.val]? = none := List.getElem?_eq_none (by omega)
  simp [ofItems, hnone]

theorem getElem?_items (i : Inventory) (k : Fin capacity) :
    i.items[k.val]? = if k < i.count.toNat then some i.slots[k].toUInt16 else none := by
  simp [items, List.getElem?_take]

theorem length_items (h : i.IsSound) : i.items.length = i.count.toNat := by
  simp [items, h.count]

theorem toUInt32_toUInt16 {item : UInt32} (h : item ≤ 65535) : item.toUInt16.toUInt32 = item := by
  have hitem : item.toNat ≤ 65535 := UInt32.le_iff_toNat_le.mp h
  apply UInt32.toNat_inj.mp
  rw [UInt16.toNat_toUInt32, UInt32.toNat_toUInt16]
  exact Nat.mod_eq_of_lt (by omega)

theorem ofItems_items (h : i.IsSound) (htidy : i.IsTidy) : ofItems i.items = i := by
  have hcount : (ofItems i.items).count = i.count := by
    apply UInt32.toNat_inj.mp
    rw [toNat_count_ofItems, length_items h]
    exact Nat.min_eq_left h.count
  have hslots : (ofItems i.items).slots = i.slots := by
    apply Vector.ext
    intro k hk
    have hitem := i.getElem?_items ⟨k, hk⟩
    simp only [ofItems, Vector.getElem_ofFn, hitem]
    by_cases hcounted : k < i.count.toNat
    · have hmem : i.slots[k] ∈ i.slots.toList := Vector.mem_toList_iff.mpr (Vector.getElem_mem hk)
      rw [if_pos hcounted]
      exact toUInt32_toUInt16 (h.items _ hmem)
    · rw [if_neg hcounted]
      exact (htidy ⟨k, hk⟩ (not_lt.mp hcounted)).symm
  cases i
  exact congrArg₂ Inventory.mk hcount hslots

/-- An update with the items of a tidy inventory changes nothing, and with those of any other one
it does. -/
theorem ofItems_items_iff (h : i.IsSound) : ofItems i.items = i ↔ i.IsTidy := by
  constructor
  · intro heq
    rw [← heq]
    exact ofItems_isTidy i.items
  · exact ofItems_items h

theorem eq_of_items (hi : i.IsSound) (hitidy : i.IsTidy) (hj : j.IsSound) (hjtidy : j.IsTidy)
    (h : i.items = j.items) : i = j := by
  rw [← ofItems_items hi hitidy, ← ofItems_items hj hjtidy, h]

end Inventory

/-- The inventory in the bytes of a save. -/
def Record.inventoryIn (bytes : Bytes) : Inventory :=
  ⟨bytes.word 8288, Vector.ofFn fun i => bytes.word (8292 + i * 4)⟩

theorem Record.inventory_of_decode {limit : Nat} {bytes : Bytes} {d : Decoded}
    (h : decode limit bytes = .ok d) : d.record.inventory = inventoryIn bytes := by
  obtain ⟨r, hanswer, -, rfl⟩ := decode_eq_ok_iff.mp h
  have hinventory := inventory_of_read hanswer
  rwa [accepted]

theorem Record.inventory_kept (r : Record) (version : UInt32) :
    (r.kept version).inventory = r.inventory := by
  rw [kept]
  split <;> rfl

/-- What is known of an inventory by the save that it comes from: it is the one in the save. One
that comes from no save is tidy. -/
inductive Inventory.ComesFrom (i : Inventory) : Option Bytes → Prop
  | fresh (h : i.IsTidy) : ComesFrom i none
  | stored {bytes : Bytes} (h : i = Record.inventoryIn bytes) : ComesFrom i (some bytes)

namespace Inventory.ComesFrom

variable {i : Inventory} {source : Option Bytes}

theorem eq_inventoryIn (h : i.ComesFrom source) {bytes : Bytes} (hbytes : bytes ∈ source) :
    i = Record.inventoryIn bytes := by
  cases h with
  | fresh _ => cases hbytes
  | stored hstored =>
    cases hbytes
    exact hstored

theorem isTidy_iff (h : i.ComesFrom source) :
    i.IsTidy ↔ ∀ bytes ∈ source, (Record.inventoryIn bytes).IsTidy := by
  cases h with
  | fresh htidy => exact ⟨fun _ => nofun, fun _ => htidy⟩
  | stored hstored => simp [hstored]

end Inventory.ComesFrom

namespace Game

def performAll (g : Game) (run : List Operation) : Game :=
  run.foldl Operation.perform g

theorem performAll_load (g : Game) (bytes : Bytes) :
    g.performAll [.load bytes] = (g.load bytes).state :=
  rfl

end Game

namespace Operation

/-- The save that the inventory of a game comes from after an operation. -/
def sourceAfter (g : Game) (source : Option Bytes) (op : Operation) : Option Bytes :=
  if op.restocks then none else (op.source? g).or source

theorem comesFrom_sourceAfter {g : Game} {source : Option Bytes}
    (h : g.record.inventory.ComesFrom source) (op : Operation) :
    (op.perform g).record.inventory.ComesFrom (op.sourceAfter g source) := by
  have heffect := effect_perform g op
  generalize op.perform g = changed at heffect ⊢
  rw [sourceAfter]
  cases heffect with
  | renewed => exact .fresh Inventory.empty_isTidy
  | restocked items => exact .fresh (Inventory.ofItems_isTidy items)
  | described _ => exact h
  | loaded hop hsource hdecode =>
    rw [hop, hsource]
    exact .stored (Record.inventory_of_decode hdecode)
  | left hop hsource hleaves =>
    rw [hop, hsource, hleaves.inventory]
    exact h

end Operation

namespace Game

/-- The save that the inventory of a game comes from after a run: the last one it went on from, if
the inventory has not been laid out anew since. -/
def inventorySource (g : Game) (source : Option Bytes) : List Operation → Option Bytes
  | [] => source
  | op :: run => (op.perform g).inventorySource (op.sourceAfter g source) run

variable {g : Game} {source : Option Bytes}

theorem comesFrom_inventorySource (h : g.record.inventory.ComesFrom source)
    (run : List Operation) :
    (g.performAll run).record.inventory.ComesFrom (g.inventorySource source run) := by
  induction run generalizing g source with
  | nil => exact h
  | cons op run ih => exact ih (op.comesFrom_sourceAfter h)

theorem updateInventory_inventory_iff (h : g.record.inventory.IsSound) :
    (g.updateInventory g.inventory).state = g ↔ g.record.inventory.IsTidy := by
  rw [← Inventory.ofItems_items_iff h, updateInventory, inventory]
  constructor
  · intro heq
    exact congrArg (fun g : Game => g.record.inventory) heq
  · intro heq
    rw [heq]

end Game

theorem Reachable.performAll {settings : Settings} {g : Game} (h : Reachable settings g)
    (run : List Operation) : Reachable settings (g.performAll run) := by
  induction run generalizing g with
  | nil => exact h
  | cons op run ih => exact ih (.after op h)

namespace Game

/-- Zeros stand behind the items of a running game exactly if they do so in the save that its
inventory comes from. Exactly then an update with the game's own items changes nothing, and of the
games of which this holds no two with the same items differ in their inventories. -/
theorem isTidy_of_run (settings : Settings) (run : List Operation) :
    let g := (start settings).performAll run
    let source := (start settings).inventorySource none run
    (∀ bytes ∈ source, g.record.inventory = Record.inventoryIn bytes) ∧
      (g.record.inventory.IsTidy ↔ ∀ bytes ∈ source, (Record.inventoryIn bytes).IsTidy) ∧
      ((g.updateInventory g.inventory).state = g ↔ g.record.inventory.IsTidy) ∧
      ∀ otherSettings other, Reachable otherSettings other →
        g.record.inventory.IsTidy → other.record.inventory.IsTidy →
          g.inventory = other.inventory → g.record.inventory = other.record.inventory := by
  intro g source
  have hfresh : (start settings).record.inventory.ComesFrom none :=
    .fresh Inventory.empty_isTidy
  have hfrom : g.record.inventory.ComesFrom source := comesFrom_inventorySource hfresh run
  have hreachable : Reachable settings g := .performAll .start run
  have hsound := hreachable.isSavable.2.inventory
  refine ⟨fun bytes => hfrom.eq_inventoryIn, hfrom.isTidy_iff,
    updateInventory_inventory_iff hsound, ?_⟩
  intro otherSettings other hother htidy hothertidy hitems
  have hothersound := hother.isSavable.2.inventory
  exact Inventory.eq_of_items hsound htidy hothersound hothertidy hitems

/-- A save of a new game with an item left in the first slot, which is not counted. -/
theorem stale_slot_loaded :
    let stale : Record := { Record.newGame with inventory := ⟨0, #v[5, 0, 0, 0, 0, 0, 0]⟩ }
    let bytes := (stale.encode ⟨148, 256⟩).bytes
    let g := (start {}).performAll [.load bytes]
    ((start {}).load bytes).answer = .ok () ∧ ¬ g.record.inventory.IsTidy ∧
      (g.updateInventory g.inventory).state ≠ g ∧ g.inventory = (start {}).inventory ∧
      g.record.inventory ≠ (start {}).record.inventory := by
  intro stale bytes g
  have hsound : stale.IsSound :=
    ⟨by decide, (Inventory.validate_eq_ok_iff stale.inventory).mp (by decide)⟩
  have hfits : stale.Fits ⟨148, 256⟩ := fun _ => Nat.zero_le 256
  have hdecode := Record.decode_encode_append hsound (by decide) (by decide) hfits []
  rw [List.append_nil] at hdecode
  have haccepted : Record.decode (start {}).settings.maxDescriptionLength bytes =
      .ok ⟨stale.kept 148, [.recordDecoded 148 bytes.length]⟩ := hdecode
  have hload : (start {}).load bytes =
      ⟨.ok (), ⟨{ stale.kept 148 with running := true }, {}⟩,
        [.recordDecoded 148 bytes.length]⟩ := by
    rw [load, haccepted]
    rfl
  have hinventory : g.record.inventory = stale.inventory := by
    have hstate : g = ((start {}).load bytes).state := performAll_load _ bytes
    rw [hstate, hload]
    exact stale.inventory_kept 148
  have hitems : g.inventory = (start {}).inventory := by
    rw [inventory, hinventory]
    decide
  have hgsound : g.record.inventory.IsSound := by
    rw [hinventory]
    exact hsound.inventory
  refine ⟨?_, ?_, ?_, hitems, ?_⟩
  · rw [hload]
  · rw [hinventory]
    decide
  · rw [Ne, updateInventory_inventory_iff hgsound, hinventory]
    decide
  · rw [hinventory]
    decide

end Game

end Savegame
