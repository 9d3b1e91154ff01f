import Savegame.Proofs.Restoring
import Savegame.Proofs.SavedGame

/-!
# Slot files overwritten from outside

Bytes that take the place of a slot's file from outside are refused by the check against the
sidecar. The next save copies them into the backup all the same, and from there they are loaded
without a check.
-/

namespace Savegame.SaveDirectory

open FileTree

/-- What was put into a slot's file, by a save or from outside. -/
inductive Change where
  | save (bytes : Bytes)
  | overwrite (bytes : Bytes)

namespace Change

def bytes : Change → Bytes
  | save bytes | overwrite bytes => bytes

def isOverwrite : Change → Bool
  | save _ => false
  | overwrite _ => true

end Change

/-- Saves of a slot, from an empty directory, and overwrites of its file with bytes that do not
match the sidecar. The latest change comes first. -/
inductive TamperedRun (slot : UInt16) : List Change → FileTree → Prop where
  | start : TamperedRun slot [] {}
  | save {past : List Change} {u : FileTree} {g : Game} {date : Date} {bytes : Bytes}
      {entry : SlotEntry} (h : TamperedRun slot past u)
      (hbytes : (g.saveToBytes date).answer = .ok bytes)
      (hok : (saveSlot slot date g u).answer = .ok entry) :
      TamperedRun slot (.save bytes :: past) (saveSlot slot date g u).state.2
  | overwrite {past : List Change} {u v : FileTree} {raw bytes : Bytes} {m : SlotMetadata}
      (h : TamperedRun slot past u)
      (hside : readPresent u (sidecarLocation slot) = .ok (some raw))
      (hm : SlotMetadata.ofBytes? raw = some m) (hne : bytes.checksum ≠ m.checksum)
      (hwrite : u.write (slotLocation slot) bytes = .ok v) :
      TamperedRun slot (.overwrite bytes :: past) v

/-- What the slot's file held when it was last saved over, and the backup holds since. -/
def keptChange (changes : List Change) : Option Change :=
  (changes.dropWhile Change.isOverwrite).tail.head?

/-- What a run leaves in the files of its slot. -/
structure TamperedFiles (slot : UInt16) (changes : List Change) (u : FileTree) : Prop where
  layout : changes ≠ [] → u.HasLayout
  primary : u.lookup .primary slot = changes.head?.map fun c => .file c.bytes
  backup : u.lookup .backup slot = (keptChange changes).map fun c => .file c.bytes
  agrees : ∀ bytes, changes.head? = some (.save bytes) →
    ∃ side, readPresent u (sidecarLocation slot) = .ok side ∧ Agrees side bytes
  sidecar : ∀ bytes, changes.head? = some (.overwrite bytes) →
    ∃ raw m, readPresent u (sidecarLocation slot) = .ok (some raw) ∧
      SlotMetadata.ofBytes? raw = some m ∧ bytes.checksum ≠ m.checksum

variable {slot : UInt16} {t u v : FileTree} {g h : Game} {date : Date} {bytes raw : Bytes}
  {m : SlotMetadata} {past changes : List Change}

namespace TamperedFiles

theorem afterSave {entry : SlotEntry} (hfiles : TamperedFiles slot past u)
    (hbytes : (g.saveToBytes date).answer = .ok bytes)
    (hok : (saveSlot slot date g u).answer = .ok entry) :
    TamperedFiles slot (.save bytes :: past) (saveSlot slot date g u).state.2 := by
  obtain ⟨-, hlayout, hstate⟩ := saveSlot_of_bytes hbytes hok
  rw [hstate]
  refine ⟨fun _ => hasLayout_saved.mpr hlayout, lookup_saved_primary, ?_, ?_, nofun⟩
  · rw [lookup_saved_backup]
    cases past with
    | nil =>
      have hprimary : u.laidOut.lookup .primary slot = none := by
        rw [lookup_laidOut]
        exact hfiles.primary
      rw [copied_of_none hprimary, lookup_laidOut]
      exact hfiles.backup
    | cons previous rest =>
      refine lookup_copied_self ?_
      rw [lookup_laidOut]
      exact hfiles.primary
  · rintro _ ⟨⟩
    exact ⟨_, readPresent_sidecar (hasLayout_saved.mpr hlayout .sidecar) lookup_saved_sidecar,
      agrees_preview slot (g.saveToBytes date).state rfl⟩

theorem afterOverwrite (hfiles : TamperedFiles slot past u) (hpast : past ≠ [])
    (hside : readPresent u (sidecarLocation slot) = .ok (some raw))
    (hm : SlotMetadata.ofBytes? raw = some m) (hne : bytes.checksum ≠ m.checksum)
    (hwrite : u.write (slotLocation slot) bytes = .ok v) :
    TamperedFiles slot (.overwrite bytes :: past) v := by
  have hu := hfiles.layout hpast
  have hv : v = u.put .primary slot bytes := by
    rw [slotLocation_eq] at hwrite
    exact eq_put_of_write hwrite
  subst hv
  refine ⟨fun _ => hasLayout_put.mpr hu, ?_, ?_, nofun, ?_⟩
  · simp [lookup_put, Change.bytes]
  · rw [lookup_put, if_neg (by simp)]
    exact hfiles.backup
  · rintro _ ⟨⟩
    refine ⟨raw, m, ?_, hm, hne⟩
    rw [← hside, sidecarLocation_eq]
    exact readPresent_put_of_ne (by decide) u slot _

end TamperedFiles

theorem TamperedRun.files (hrun : TamperedRun slot changes u) : TamperedFiles slot changes u := by
  induction hrun with
  | start => exact ⟨nofun, rfl, rfl, nofun, nofun⟩
  | save hrun hbytes hok ih => exact ih.afterSave hbytes hok
  | @overwrite past u v raw bytes m hrun hside hm hne hwrite ih =>
    have hpast : past ≠ [] := by
      rintro rfl
      cases hrun
      rw [sidecarLocation_eq, readPresent_empty] at hside
      cases hside
    exact ih.afterOverwrite hpast hside hm hne hwrite

theorem mem_of_keptChange {c : Change} (h : keptChange changes = some c) : c ∈ changes := by
  have htail := List.mem_of_mem_tail (List.mem_of_mem_head? h)
  exact (List.dropWhile_sublist _).subset htail

theorem readPresent_of_changes (hfiles : TamperedFiles slot changes u) (hne : changes ≠ [])
    {f : SlotFile} {found : Option Change}
    (hentry : u.lookup f slot = found.map fun c => .file c.bytes) :
    readPresent u (f.location slot) = .ok (found.map Change.bytes) := by
  rw [readPresent_location (hfiles.layout hne _), hentry]
  cases found <;> rfl

section Loading

variable (hrun : TamperedRun slot changes u)
include hrun

theorem restores_saved (hload : (loadSlot slot u h).answer = .ok ())
    (hkept : ∀ bytes, keptChange changes ≠ some (.overwrite bytes)) :
    ∃ bytes d, .save bytes ∈ changes ∧
      Record.decode h.settings.maxDescriptionLength bytes = .ok d ∧
        (loadSlot slot u h).Restores h d.record := by
  have hfiles := hrun.files
  have hne : changes ≠ [] := by
    rintro rfl
    cases hrun
    rw [loadSlot_of_none (by rw [slotLocation_eq, readPresent_empty])] at hload
    cases hload
  have hprimary := readPresent_of_changes hfiles hne hfiles.primary
  have hbackup := readPresent_of_changes hfiles hne hfiles.backup
  rw [← slotLocation_eq] at hprimary
  rw [← backupLocation_eq] at hbackup
  obtain ⟨bytes, d, hdecode, hrestores, hfound⟩ := restores_of_ok hload
  suffices hsaved : .save bytes ∈ changes from ⟨bytes, d, hsaved, hdecode, hrestores⟩
  rcases hfound with ⟨hread, hverify⟩ | hread
  · rw [hprimary, Except.ok.injEq, Option.map_eq_some_iff] at hread
    obtain ⟨c, hc, rfl⟩ := hread
    cases c with
    | save bytes => exact List.mem_of_mem_head? hc
    | overwrite bytes =>
      obtain ⟨raw, m, hside, hm, hsum⟩ := hfiles.sidecar bytes hc
      rw [Change.bytes, verify_of_ne hside hm hsum] at hverify
      cases hverify
  · rw [hbackup, Except.ok.injEq, Option.map_eq_some_iff] at hread
    obtain ⟨c, hc, rfl⟩ := hread
    cases c with
    | save bytes => exact mem_of_keptChange hc
    | overwrite bytes => exact absurd hc (hkept bytes)

theorem restores_overwrite {last kept : Bytes} {d : Record.Decoded}
    (hlast : changes.head? = some (.overwrite last))
    (hkept : keptChange changes = some (.overwrite kept))
    (hdecode : Record.decode h.settings.maxDescriptionLength kept = .ok d) :
    (loadSlot slot u h).Restores h d.record := by
  have hfiles := hrun.files
  have hne : changes ≠ [] := by
    rintro rfl
    cases hlast
  have hprimary := readPresent_of_changes hfiles hne hfiles.primary
  have hbackup := readPresent_of_changes hfiles hne hfiles.backup
  rw [← slotLocation_eq, hlast] at hprimary
  rw [← backupLocation_eq, hkept] at hbackup
  obtain ⟨raw, m, hside, hm, hsum⟩ := hfiles.sidecar last hlast
  exact restores_of_ne hprimary hside hm hsum hbackup hdecode

theorem restores_latest {last : Bytes} {d : Record.Decoded}
    (hlast : changes.head? = some (.save last))
    (hdecode : Record.decode h.settings.maxDescriptionLength last = .ok d) :
    (loadSlot slot u h).Restores h d.record := by
  have hfiles := hrun.files
  have hne : changes ≠ [] := by
    rintro rfl
    cases hlast
  have hprimary := readPresent_of_changes hfiles hne hfiles.primary
  rw [← slotLocation_eq, hlast] at hprimary
  obtain ⟨side, hside, hagrees⟩ := hfiles.agrees last hlast
  exact restores_of_verified hprimary (verify_of_agrees hside hagrees) hdecode

/-- A load from a slot whose file is overwritten at times. It restores a record that a save of the
slot put out, unless the latest save was made over bytes from outside. Then the record of that save
is restored until the slot's file is overwritten again, and from then on the bytes from outside. -/
theorem loadSlot_of_tampered :
    ((loadSlot slot u h).answer = .ok () →
      (∀ bytes, keptChange changes ≠ some (.overwrite bytes)) →
      ∃ bytes d, .save bytes ∈ changes ∧
        Record.decode h.settings.maxDescriptionLength bytes = .ok d ∧
          (loadSlot slot u h).Restores h d.record) ∧
    (∀ last d, changes.head? = some (.save last) →
      Record.decode h.settings.maxDescriptionLength last = .ok d →
        (loadSlot slot u h).Restores h d.record) ∧
    (∀ last kept d, changes.head? = some (.overwrite last) →
      keptChange changes = some (.overwrite kept) →
      Record.decode h.settings.maxDescriptionLength kept = .ok d →
        (loadSlot slot u h).Restores h d.record) :=
  ⟨restores_saved hrun, fun _ _ => restores_latest hrun, fun _ _ _ => restores_overwrite hrun⟩

end Loading

/-- A run that goes on with a save and an overwrite. -/
theorem TamperedRun.again {settings : Settings} {last : Bytes}
    (hsettings : settings.validate = .ok ()) (hg : Reachable settings g)
    (hbytes : (g.saveToBytes date).answer = .ok bytes) (hne : last.checksum ≠ bytes.checksum)
    (hrun : TamperedRun slot past u) (hadmits : u.AdmitsLayout) (hclear : u.IsClear slot) :
    ∃ v, TamperedRun slot (.overwrite last :: .save bytes :: past) v ∧
      v.AdmitsLayout ∧ v.IsClear slot := by
  have hok := answer_saveSlot slot hadmits hclear hbytes
  have hintact := intact_saveSlot hok hbytes (hg.saved_of_ok hsettings hbytes).1
  obtain ⟨hlayout, hprimary, -⟩ := hintact.files
  obtain ⟨raw, hside, hm⟩ := hintact.sidecar
  rw [hintact.checksum] at hne
  have hwrite := write_location (hlayout .primary) (isClear_saveSlot hclear hok .primary) last
  rw [← slotLocation_eq] at hwrite
  exact ⟨_, .overwrite (.save hrun hbytes hok) hside hm hne hwrite,
    (hasLayout_put.mpr hlayout).admitsLayout, (isClear_saveSlot hclear hok).put .primary slot last⟩

/-- Two saves of a slot, each overwritten with the same bytes from outside. -/
theorem tampered_twice {settings : Settings} (hsettings : settings.validate = .ok ())
    (hg : Reachable settings g) (slot : UInt16) (date : Date) :
    ∃ a b x u, ((g.setNodeType 1).saveToBytes date).answer = .ok a ∧
      ((g.setNodeType 2).saveToBytes date).answer = .ok b ∧
      ((g.setNodeType 3).saveToBytes date).answer = .ok x ∧
      TamperedRun slot [.overwrite x, .save b, .overwrite x, .save a] u := by
  have hfirst : Reachable settings (g.setNodeType 1) := .after (.setNodeType 1) hg
  have hsecond : Reachable settings (g.setNodeType 2) := .after (.setNodeType 2) hg
  have hthird : Reachable settings (g.setNodeType 3) := .after (.setNodeType 3) hg
  obtain ⟨a, -, ha, -⟩ := hfirst.saved hsettings date
  obtain ⟨b, -, hb, -⟩ := hsecond.saved hsettings date
  obtain ⟨x, -, hx, -⟩ := hthird.saved hsettings date
  have hxa := hg.checksum_ne_of_nodeType hsettings date (m := 3) (n := 1) (by decide) hx ha
  have hxb := hg.checksum_ne_of_nodeType hsettings date (m := 3) (n := 2) (by decide) hx hb
  obtain ⟨t, ht, hadmits, hclear⟩ :=
    TamperedRun.start.again hsettings hfirst ha hxa admitsLayout_empty (isClear_empty slot)
  obtain ⟨u, hu, -⟩ := ht.again hsettings hsecond hb hxb hadmits hclear
  exact ⟨a, b, x, u, ha, hb, hx, hu⟩

theorem loadSlot_of_tampered_twice :
    ∃ a b x u, TamperedRun 1 [.overwrite x, .save b, .overwrite x, .save a] u ∧
      let changes : List Change := [.overwrite x, .save b, .overwrite x, .save a]
      ((loadSlot 1 u (.start {})).answer = .ok () →
        (∀ bytes, keptChange changes ≠ some (.overwrite bytes)) →
        ∃ bytes d, .save bytes ∈ changes ∧ Record.decode 256 bytes = .ok d ∧
          (loadSlot 1 u (.start {})).Restores (.start {}) d.record) ∧
      (∀ last d, changes.head? = some (.save last) → Record.decode 256 last = .ok d →
        (loadSlot 1 u (.start {})).Restores (.start {}) d.record) ∧
      (∀ last kept d, changes.head? = some (.overwrite last) →
        keptChange changes = some (.overwrite kept) → Record.decode 256 kept = .ok d →
          (loadSlot 1 u (.start {})).Restores (.start {}) d.record) := by
  have hlimit : (Game.start {}).settings.maxDescriptionLength = 256 := rfl
  have hstart : Reachable {} (Game.start {}) := .start
  generalize Game.start {} = g at hlimit hstart ⊢
  obtain ⟨a, b, x, u, -, -, -, hrun⟩ := tampered_twice rfl hstart 1 {}
  have hload := loadSlot_of_tampered (h := g) hrun
  rw [hlimit] at hload
  exact ⟨a, b, x, u, hrun, hload⟩

/-- A slot that is saved, overwritten, saved and overwritten: a load restores the bytes from
outside, and no record that was ever saved. -/
theorem overwrite_restored :
    ∃ a b x u d, TamperedRun 1 [.overwrite x, .save b, .overwrite x, .save a] u ∧
      Record.decode 256 x = .ok d ∧ (loadSlot 1 u (.start {})).Restores (.start {}) d.record ∧
      ∀ bytes e, .save bytes ∈ [Change.overwrite x, .save b, .overwrite x, .save a] →
        Record.decode 256 bytes = .ok e →
          ¬ (loadSlot 1 u (.start {})).Restores (.start {}) e.record := by
  have hlimit : (Game.start {}).settings.maxDescriptionLength = 256 := rfl
  have hstart : Reachable {} (Game.start {}) := .start
  generalize Game.start {} = g at hlimit hstart ⊢
  have hfirst : Reachable {} (g.setNodeType 1) := .after (.setNodeType 1) hstart
  have hsecond : Reachable {} (g.setNodeType 2) := .after (.setNodeType 2) hstart
  have hthird : Reachable {} (g.setNodeType 3) := .after (.setNodeType 3) hstart
  obtain ⟨a, b, x, u, ha, hb, hx, hrun⟩ := tampered_twice rfl hstart 1 {}
  obtain ⟨-, d, hd, hforeign⟩ := hthird.saved_of_ok rfl hx
  have hrestores : (loadSlot 1 u g).Restores g d.record :=
    restores_overwrite hrun rfl rfl (by rw [hlimit]; exact hd)
  refine ⟨a, b, x, u, d, hrun, hd, hrestores, fun bytes e hsaved hdecode hother => ?_⟩
  have htype := congrArg Record.nodeType (hrestores.unique hother)
  dsimp only at htype
  rw [hforeign, Game.nodeType_keptRecord] at htype
  have hcases : bytes = b ∨ bytes = a := by simpa using hsaved
  rcases hcases with rfl | rfl
  · obtain ⟨-, found, hfound, hkept⟩ := hsecond.saved_of_ok rfl hb
    cases hdecode.symm.trans hfound
    rw [hkept, Game.nodeType_keptRecord] at htype
    exact absurd htype (by decide : (3 : UInt32) ≠ 2)
  · obtain ⟨-, found, hfound, hkept⟩ := hfirst.saved_of_ok rfl ha
    cases hdecode.symm.trans hfound
    rw [hkept, Game.nodeType_keptRecord] at htype
    exact absurd htype (by decide : (3 : UInt32) ≠ 1)

end Savegame.SaveDirectory
