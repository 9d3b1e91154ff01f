import Savegame.Proofs.Canonical
import Savegame.Proofs.Effect

/-!
# Every game can be saved and loaded

What the record of a running game never loses, whatever happens to it, and why that is enough for it
to be saved and for the save to be loaded again.
-/

namespace Savegame

namespace Inventory

theorem toNat_count_ofItems (items : List UInt16) :
    (ofItems items).count.toNat = min items.length capacity := by
  have hle : min items.length capacity ≤ 7 := Nat.min_le_right _ _
  rw [ofItems, UInt32.toNat_ofNat']
  exact Nat.mod_eq_of_lt (by omega)

theorem ofItems_isSound (items : List UInt16) : (ofItems items).IsSound := by
  refine ⟨?_, ?_⟩
  · rw [toNat_count_ofItems]
    exact Nat.min_le_right _ _
  · intro item hitem
    simp only [ofItems, Vector.toList_ofFn, List.mem_ofFn] at hitem
    obtain ⟨i, rfl⟩ := hitem
    rw [UInt32.le_iff_toNat_le, UInt16.toNat_toUInt32]
    exact Nat.le_of_lt_succ (UInt16.toNat_lt _)

end Inventory

/-- A record that can be saved under a limit, and its save loaded again. -/
structure Record.IsSavable (limit : Nat) (r : Record) : Prop extends r.IsSound where
  description : r.description.utf8ByteSize ≤ limit

namespace Record

theorem newGame_isSavable (limit : Nat) : newGame.IsSavable limit where
  reserved := by decide
  inventory := (Inventory.validate_eq_ok_iff _).mp (by decide)
  description := Nat.zero_le limit

theorem isSavable_of_decode {limit : Nat} {bytes : Bytes} {d : Decoded}
    (h : decode limit bytes = .ok d) : d.record.IsSavable limit := by
  obtain ⟨r, hanswer, hsound, rfl⟩ := decode_eq_ok_iff.mp h
  have hdescription := description_le_of_read hanswer
  exact ⟨⟨r.table.read_write_self 0 0, hsound⟩, hdescription⟩

end Record

namespace Game

def IsSavable (g : Game) : Prop :=
  g.record.IsSavable g.settings.maxDescriptionLength

/-- A change that keeps the settings, and what makes a game savable. -/
structure Keeps (g changed : Game) : Prop where
  settings : changed.settings = g.settings
  savable : g.IsSavable → changed.IsSavable

variable (g : Game)

theorem Leaves.keeps {g changed : Game} (h : Leaves g changed) : Keeps g changed := by
  refine ⟨h.settings, fun hsavable => ?_⟩
  rw [IsSavable, h.settings]
  refine ⟨⟨h.reserved.trans hsavable.reserved, ?_⟩, ?_⟩
  · rw [h.inventory]
    exact hsavable.inventory
  · rw [h.description]
    exact hsavable.description

theorem keeps_stamp (date : Date) : Keeps g (g.stamp date) :=
  (g.leaves_stamp date).keeps

/-- No operation leads out of the savable games. -/
theorem keeps_perform (op : Operation) : Keeps g (op.perform g) := by
  have heffect := Operation.effect_perform g op
  generalize op.perform g = changed at heffect ⊢
  cases heffect with
  | renewed => exact ⟨rfl, fun _ => Record.newGame_isSavable _⟩
  | restocked items =>
    refine ⟨rfl, fun h => ⟨⟨h.reserved, ?_⟩, h.description⟩⟩
    exact Inventory.ofItems_isSound items
  | described hshort => exact ⟨rfl, fun h => ⟨⟨h.reserved, h.inventory⟩, hshort⟩⟩
  | loaded _ _ hdecode =>
    have hd := Record.isSavable_of_decode hdecode
    exact ⟨rfl, fun _ => ⟨⟨hd.reserved, hd.inventory⟩, hd.description⟩⟩
  | left _ _ h => exact h.keeps

theorem stop_emission {version : UInt32} (hversion : version ≤ Record.newest) (h : g.IsSavable) :
    (g.emission version).stop = none := by
  have hfits : ({ g.record with running := false } : Record).Fits (g.format version) :=
    fun _ => h.description
  rw [emission, Record.encode_eq hversion (Record.stop_putStamp hfits)]

theorem write_of_le {version : UInt32} (h : version ≤ Record.newest) :
    g.write version none =
      ⟨⟨(g.emission version).answer (g.emission version).bytes.length, g.setRunning true,
        Record.encodeEvents (g.format version) (g.emission version)⟩,
        (g.emission version).bytes⟩ :=
  if_neg (UInt32.not_lt.mpr h)

theorem answer_saveToBytes (hversion : g.settings.writeVersion ≤ Record.newest) (h : g.IsSavable)
    (date : Date) :
    (g.saveToBytes date).answer =
      .ok ((g.stamp date).emission g.settings.writeVersion).bytes := by
  have hstop := (g.stamp date).stop_emission hversion ((g.keeps_stamp date).savable h)
  rw [saveToBytes, save, write_of_le _ hversion]
  dsimp only
  rw [Emission.answer_of_none hstop]
  rfl

/-- What a savable game puts out is loaded again under its limit. -/
theorem answer_load_emission {version : UInt32} (hversion : version ≤ Record.newest)
    (hlimit : g.settings.maxDescriptionLength < UInt32.size) (h : g.IsSavable) {other : Game}
    (hother : other.settings = g.settings) :
    (other.load (g.emission version).bytes).answer = .ok () := by
  let r : Record := { g.record with running := false }
  have hsound : r.IsSound := ⟨h.reserved, h.inventory⟩
  have hfits : r.Fits (g.format version) := fun _ => h.description
  have hdecode :=
    Record.decode_encode_append (f := g.format version) hsound hversion hlimit hfits []
  rw [List.append_nil] at hdecode
  have hload : Record.decode other.settings.maxDescriptionLength (g.emission version).bytes =
      .ok ⟨r.kept version, [.recordDecoded version (g.emission version).bytes.length]⟩ := by
    rw [hother]
    exact hdecode
  rw [load, hload]

end Game

theorem Settings.bounds_of_validate {s : Settings} (h : s.validate = .ok ()) :
    s.writeVersion ≤ Record.newest ∧ s.maxDescriptionLength < UInt32.size := by
  rw [validate] at h
  split_ifs at h with hversion hlimit
  exact ⟨UInt32.not_lt.mp hversion, not_le.mp hlimit⟩

namespace Reachable

variable {settings : Settings} {g : Game}

theorem isSavable (h : Reachable settings g) : g.settings = settings ∧ g.IsSavable := by
  induction h with
  | start => exact ⟨rfl, Record.newGame_isSavable _⟩
  | @after g op h ih =>
    obtain ⟨hsettings, hsavable⟩ := ih
    have hop := g.keeps_perform op
    exact ⟨hop.settings.trans hsettings, hop.savable hsavable⟩

/-- Whatever happens to a game under valid settings, its record stays within all bounds. So the game
can be saved at any time, and any game under the same settings can load the save. -/
theorem savable_and_loadable (hsettings : settings.validate = .ok ()) (h : Reachable settings g) :
    g.record.table.read 0 = 0 ∧ g.record.inventory.count.toNat ≤ 7 ∧
      (∀ item ∈ g.record.inventory.slots.toList, item ≤ 65535) ∧
      g.record.thumbnail.bytes.length = 129600 ∧
      g.record.description.utf8ByteSize ≤ settings.maxDescriptionLength ∧
      ∀ date, ∃ bytes, (g.saveToBytes date).answer = .ok bytes ∧
        ∀ other : Game, other.settings = settings → (other.load bytes).answer = .ok () := by
  obtain ⟨rfl, hsavable⟩ := h.isSavable
  obtain ⟨hversion, hlimit⟩ := Settings.bounds_of_validate hsettings
  refine ⟨hsavable.reserved, hsavable.inventory.count, hsavable.inventory.items,
    g.record.thumbnail.length_eq, hsavable.description, fun date => ?_⟩
  have hstamped := (g.keeps_stamp date).savable hsavable
  refine ⟨_, g.answer_saveToBytes hversion hsavable date, fun other hother => ?_⟩
  exact (g.stamp date).answer_load_emission hversion hlimit hstamped hother

/-- A game in which something was written, refused, loaded in vain and saved. -/
theorem savable_and_loadable_after_refusals :
    let g := Operation.perform (Operation.perform (Operation.perform (Operation.perform
      (.start {}) (.set 5 7)) (.set 0 7)) (.load [1, 2, 3])) (.save {} (some 10))
    g.record.table.read 5 = 7 ∧ g.record.table.read 0 = 0 ∧
      ∀ date, ∃ bytes, (g.saveToBytes date).answer = .ok bytes ∧
        ∀ other : Game, other.settings = {} → (other.load bytes).answer = .ok () := by
  intro g
  have hreachable : Reachable {} g := .after _ (.after _ (.after _ (.after _ .start)))
  have hall := savable_and_loadable rfl hreachable
  exact ⟨by decide +kernel, hall.1, hall.2.2.2.2.2⟩

end Reachable

end Savegame
