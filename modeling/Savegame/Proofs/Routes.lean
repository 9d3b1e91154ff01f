import Savegame.Proofs.Restoring
import Savegame.Proofs.SavedGame

/-!
# Two ways to save into a slot's file

A slot can be saved as a slot, and its file by name like any other. The second way leaves the
sidecar as it is, so a load takes the checksum of the latest save of the first way for that of the
latest save.
-/

namespace Savegame.SaveDirectory

open FileTree

inductive Route where
  | slot
  | file
  deriving DecidableEq, Repr

/-- A save that was made, and the bytes that it put out. -/
structure RoutedSave where
  route : Route
  bytes : Bytes

/-- Successful saves into a slot's file, the latest first, and the tree that they lead to. -/
inductive RoutedRun (settings : Settings) (slot : UInt16) (t : FileTree) :
    List RoutedSave → FileTree → Prop where
  | start : RoutedRun settings slot t [] t
  | slot {past : List RoutedSave} {u : FileTree} {g : Game} {date : Date} {bytes : Bytes}
      {entry : SlotEntry} (h : RoutedRun settings slot t past u) (hg : Reachable settings g)
      (hbytes : (g.saveToBytes date).answer = .ok bytes)
      (hok : (saveSlot slot date g u).answer = .ok entry) :
      RoutedRun settings slot t (⟨.slot, bytes⟩ :: past) (saveSlot slot date g u).state.2
  | file {past : List RoutedSave} {u : FileTree} {g : Game} {date : Date} {bytes : Bytes}
      {length : Nat} (h : RoutedRun settings slot t past u) (hg : Reachable settings g)
      (hbytes : (g.saveToBytes date).answer = .ok bytes)
      (hok : (saveTo (slotFileName slot) date g u).answer = .ok length) :
      RoutedRun settings slot t (⟨.file, bytes⟩ :: past)
        (saveTo (slotFileName slot) date g u).state.2

/-- The bytes that the sidecar was made for: those of the latest save as a slot. -/
def checked (saves : List RoutedSave) : Option Bytes :=
  (saves.find? (·.route = .slot)).map (·.bytes)

/-- The sidecar was made for other bytes than the latest, with another checksum. -/
def Stale (saves : List RoutedSave) : Prop :=
  ∃ last ∈ saves.head?, ∃ bytes ∈ checked saves, last.bytes.checksum ≠ bytes.checksum

/-- A sidecar that was made for some bytes, or none was made. -/
def Shows : Option Bytes → Option Bytes → Prop
  | none, side => side = none
  | some bytes, side =>
    ∃ raw m, side = some raw ∧ SlotMetadata.ofBytes? raw = some m ∧ m.checksum = bytes.checksum

/-- What a run of saves leaves in the files of its slot. -/
structure RoutedFiles (slot : UInt16) (saves : List RoutedSave) (u : FileTree) : Prop where
  sidecar : ∃ side, readPresent u (sidecarLocation slot) = .ok side ∧ Shows (checked saves) side
  primary : ∀ last ∈ saves.head?,
    u.HasDirectory "slots" ∧ u.lookup .primary slot = some (.file last.bytes)
  backup : ∀ previous ∈ saves.tail.head?, u.lookup .backup slot = some (.file previous.bytes)

variable {settings : Settings} {slot : UInt16} {t u : FileTree} {g h : Game} {date : Date}
  {bytes : Bytes} {past saves : List RoutedSave} {last : RoutedSave}

namespace RoutedFiles

theorem afterSlot {entry : SlotEntry} (hfiles : RoutedFiles slot past u)
    (hlength : bytes.length < 2 ^ 64) (hbytes : (g.saveToBytes date).answer = .ok bytes)
    (hok : (saveSlot slot date g u).answer = .ok entry) :
    RoutedFiles slot (⟨.slot, bytes⟩ :: past) (saveSlot slot date g u).state.2 := by
  have hintact := intact_saveSlot hok hbytes hlength
  obtain ⟨hlayout, hprimary, raw, hside, -, hm⟩ := hintact.files
  have hraw := readPresent_sidecar (hlayout .sidecar) hside
  refine ⟨⟨some raw, hraw, raw, entry.metadata, rfl, hm, hintact.checksum.symm⟩, ?_, ?_⟩
  · rintro _ ⟨⟩
    exact ⟨hlayout .primary, hprimary⟩
  · intro previous hprevious
    obtain ⟨_, -, -, -, hstate⟩ := saveSlot_of_ok hok
    rw [hstate, lookup_saved_backup]
    refine lookup_copied_self ?_
    rw [lookup_laidOut]
    exact (hfiles.primary previous hprevious).2

theorem afterFile {length : Nat} (hfiles : RoutedFiles slot past u)
    (hbytes : (g.saveToBytes date).answer = .ok bytes)
    (hok : (saveTo (slotFileName slot) date g u).answer = .ok length) :
    RoutedFiles slot (⟨.file, bytes⟩ :: past) (saveTo (slotFileName slot) date g u).state.2 := by
  obtain ⟨found, hfound, hslots, hstate⟩ := saveTo_of_ok hok
  rw [hbytes, Except.ok.injEq] at hfound
  subst hfound
  rw [hstate]
  obtain ⟨side, hside, hshows⟩ := hfiles.sidecar
  refine ⟨⟨side, ?_, hshows⟩, ?_, fun previous hprevious => ?_⟩
  · rw [← hside, sidecarLocation_eq]
    refine readPresent_congr ?_ ?_
    · rw [overwritten, find?_name_replaced, find?_name_copied]
      exact find?_withDirectory_of_ne (by decide)
    · rw [lookup_overwritten_sidecar, lookup_withDirectory]
  · rintro _ ⟨⟩
    refine ⟨?_, lookup_overwritten_primary⟩
    rwa [overwritten, hasDirectory_replaced, hasDirectory_copied]
  · rw [lookup_overwritten_backup]
    refine lookup_copied_self ?_
    rw [lookup_withDirectory]
    exact (hfiles.primary previous hprevious).2

end RoutedFiles

namespace RoutedRun

theorem files (hsettings : settings.validate = .ok ())
    (ht : readPresent t (sidecarLocation slot) = .ok none)
    (hrun : RoutedRun settings slot t saves u) : RoutedFiles slot saves u := by
  induction hrun with
  | start => exact ⟨⟨none, ht, rfl⟩, nofun, nofun⟩
  | slot hrun hg hbytes hok ih =>
    exact ih.afterSlot (hg.saved_of_ok hsettings hbytes).1 hbytes hok
  | file hrun hg hbytes hok ih => exact ih.afterFile hbytes hok

theorem decodes (hsettings : settings.validate = .ok ())
    (hrun : RoutedRun settings slot t saves u) :
    ∀ s ∈ saves, ∃ d, Record.decode settings.maxDescriptionLength s.bytes = .ok d := by
  induction hrun with
  | start => exact nofun
  | slot hrun hg hbytes hok ih | file hrun hg hbytes hok ih =>
    obtain ⟨-, d, hdecode, -⟩ := hg.saved_of_ok hsettings hbytes
    exact List.forall_mem_cons.mpr ⟨⟨d, hdecode⟩, ih⟩

end RoutedRun

theorem agrees_of_shows {side : Option Bytes} (hshows : Shows (checked saves) side)
    (hfresh : ∀ made ∈ checked saves, bytes.checksum = made.checksum) : Agrees side bytes := by
  cases hmade : checked saves with
  | none =>
    rw [hmade] at hshows
    rw [hshows]
    exact agrees_none bytes
  | some made =>
    rw [hmade] at hshows
    obtain ⟨raw, m, rfl, hm, hsum⟩ := hshows
    exact (agrees_iff hm).mpr ((hfresh made hmade).trans hsum.symm)

/-- The latest save was by name, and another one was before it. -/
theorem exists_previous_of_stale (h : Stale (last :: past)) :
    ∃ previous rest, past = previous :: rest := by
  obtain ⟨_, ⟨⟩, made, hmade, hne⟩ := h
  obtain ⟨route, bytes⟩ := last
  cases past with
  | cons previous rest => exact ⟨previous, rest, rfl⟩
  | nil =>
    cases route with
    | slot =>
      cases hmade
      exact absurd rfl hne
    | file => cases hmade

section Loading

variable (hsettings : settings.validate = .ok ())
  (ht : readPresent t (sidecarLocation slot) = .ok none)
  (hrun : RoutedRun settings slot t (last :: past) u) (hh : h.settings = settings)
include hsettings ht hrun hh

theorem restores_last (hfresh : ¬ Stale (last :: past)) :
    ∃ d, Record.decode settings.maxDescriptionLength last.bytes = .ok d ∧
      (loadSlot slot u h).Restores h d.record := by
  have hfiles := hrun.files hsettings ht
  obtain ⟨side, hside, hshows⟩ := hfiles.sidecar
  obtain ⟨hslots, hprimary⟩ := hfiles.primary last rfl
  have hread := readPresent_primary hslots hprimary
  obtain ⟨d, hdecode⟩ := hrun.decodes hsettings last List.mem_cons_self
  have hagrees : Agrees side last.bytes := by
    refine agrees_of_shows hshows fun made hmade => ?_
    by_contra hne
    exact hfresh ⟨last, rfl, made, hmade, hne⟩
  subst hh
  exact ⟨d, hdecode, restores_of_verified hread (verify_of_agrees hside hagrees) hdecode⟩

theorem restores_previous (hstale : Stale (last :: past)) :
    ∃ previous rest d, past = previous :: rest ∧
      Record.decode settings.maxDescriptionLength previous.bytes = .ok d ∧
        (loadSlot slot u h).Restores h d.record := by
  have hfiles := hrun.files hsettings ht
  obtain ⟨side, hside, hshows⟩ := hfiles.sidecar
  obtain ⟨hslots, hprimary⟩ := hfiles.primary last rfl
  have hread := readPresent_primary hslots hprimary
  obtain ⟨previous, rest, rfl⟩ := exists_previous_of_stale hstale
  obtain ⟨d, hdecode⟩ := hrun.decodes hsettings previous
    (List.mem_cons_of_mem _ List.mem_cons_self)
  have hbackup := readPresent_backup hslots (hfiles.backup previous rfl)
  obtain ⟨_, ⟨⟩, made, hmade, hne⟩ := hstale
  rw [Option.mem_def] at hmade
  rw [hmade] at hshows
  obtain ⟨raw, m, rfl, hm, hsum⟩ := hshows
  rw [← hsum] at hne
  subst hh
  exact ⟨previous, rest, d, rfl, hdecode, restores_of_ne hread hside hm hne hbackup hdecode⟩

/-- A load after saves by both ways, into a slot that had no sidecar. It restores the latest save
unless the sidecar was made for an earlier one that has another checksum; then it restores the save
before the latest. -/
theorem loadSlot_of_routes :
    (¬ Stale (last :: past) → ∃ d,
      Record.decode settings.maxDescriptionLength last.bytes = .ok d ∧
        (loadSlot slot u h).Restores h d.record) ∧
    (Stale (last :: past) → ∃ previous rest d, past = previous :: rest ∧
      Record.decode settings.maxDescriptionLength previous.bytes = .ok d ∧
        (loadSlot slot u h).Restores h d.record) :=
  ⟨restores_last hsettings ht hrun hh, restores_previous hsettings ht hrun hh⟩

end Loading

/-- A slot that is saved as a slot and then by name. -/
theorem routed_twice {first second : Game} (hsettings : settings.validate = .ok ())
    (hfirst : Reachable settings first) (hsecond : Reachable settings second) (slot : UInt16)
    (date : Date) :
    let u := (saveTo (slotFileName slot) date second (saveSlot slot date first {}).state.2).state.2
    ∃ a b : Bytes, (first.saveToBytes date).answer = .ok a ∧
      (second.saveToBytes date).answer = .ok b ∧
      RoutedRun settings slot {} [⟨.file, b⟩, ⟨.slot, a⟩] u := by
  obtain ⟨a, -, ha, -⟩ := hfirst.saved hsettings date
  obtain ⟨b, -, hb, -⟩ := hsecond.saved hsettings date
  have hok := answer_saveSlot slot admitsLayout_empty (isClear_empty slot) ha
  obtain ⟨bytes, -, -, hlayout, hstate⟩ := saveSlot_of_ok hok
  have hslots : (saveSlot slot date first {}).state.2.HasDirectory "slots" := by
    rw [hstate]
    exact hasLayout_saved.mpr hlayout .primary
  have hagain := answer_saveTo hslots (isClear_saveSlot (isClear_empty slot) hok) hb
  exact ⟨a, b, ha, hb, .file (.slot .start hfirst ha hok) hsecond hb hagain⟩

theorem loadSlot_of_routes_twice :
    let u := (saveTo (slotFileName 1) {} ((Game.start {}).setNodeType 2)
      (saveSlot 1 {} ((Game.start {}).setNodeType 1) {}).state.2).state.2
    ∃ first last, RoutedRun {} 1 {} [last, first] u ∧
      readPresent {} (sidecarLocation 1) = .ok none ∧
      (¬ Stale [last, first] → ∃ d, Record.decode 256 last.bytes = .ok d ∧
        (loadSlot 1 u (.start {})).Restores (.start {}) d.record) ∧
      (Stale [last, first] → ∃ previous rest d, [first] = previous :: rest ∧
        Record.decode 256 previous.bytes = .ok d ∧
          (loadSlot 1 u (.start {})).Restores (.start {}) d.record) := by
  have hstart : Reachable {} (Game.start {}) := .start
  generalize Game.start {} = g at hstart ⊢
  have hfirst : Reachable {} (g.setNodeType 1) := .after (.setNodeType 1) hstart
  have hsecond : Reachable {} (g.setNodeType 2) := .after (.setNodeType 2) hstart
  have hnone : readPresent {} (sidecarLocation 1) = .ok none := by
    rw [sidecarLocation_eq, readPresent_empty]
  obtain ⟨a, b, -, -, hrun⟩ := routed_twice rfl hfirst hsecond 1 {}
  have hload := loadSlot_of_routes rfl hnone hrun hstart.isSavable.1
  exact ⟨⟨.slot, a⟩, ⟨.file, b⟩, hrun, hnone, hload⟩

/-- A slot that is saved and then saved again by name: a load restores the first save. -/
theorem last_save_by_name_not_restored :
    let u := (saveTo (slotFileName 1) {} ((Game.start {}).setNodeType 2)
      (saveSlot 1 {} ((Game.start {}).setNodeType 1) {}).state.2).state.2
    ∃ first last d e, RoutedRun {} 1 {} [last, first] u ∧
      Record.decode 256 first.bytes = .ok d ∧ Record.decode 256 last.bytes = .ok e ∧
      (loadSlot 1 u (.start {})).Restores (.start {}) d.record ∧
      ¬ (loadSlot 1 u (.start {})).Restores (.start {}) e.record := by
  have hstart : Reachable {} (Game.start {}) := .start
  generalize Game.start {} = g at hstart ⊢
  have hfirst : Reachable {} (g.setNodeType 1) := .after (.setNodeType 1) hstart
  have hsecond : Reachable {} (g.setNodeType 2) := .after (.setNodeType 2) hstart
  have hnone : readPresent {} (sidecarLocation 1) = .ok none := by
    rw [sidecarLocation_eq, readPresent_empty]
  obtain ⟨a, b, ha, hb, hrun⟩ := routed_twice rfl hfirst hsecond 1 {}
  have hstale : Stale [⟨.file, b⟩, ⟨.slot, a⟩] := by
    refine ⟨_, rfl, a, rfl, ?_⟩
    exact (Reachable.checksum_ne_of_nodeType rfl hstart {} (m := 1) (n := 2) (by decide) ha hb).symm
  obtain ⟨-, e, he, hlast⟩ := hsecond.saved_of_ok rfl hb
  obtain ⟨-, d, hd, hprevious⟩ := hfirst.saved_of_ok rfl ha
  obtain ⟨_, _, found, ⟨⟩, hfound, hrestores⟩ :=
    restores_previous rfl hnone hrun hstart.isSavable.1 hstale
  rw [hd, Except.ok.injEq] at hfound
  subst hfound
  refine ⟨⟨.slot, a⟩, ⟨.file, b⟩, d, e, hrun, hd, he, hrestores, fun hother => ?_⟩
  have htype := congrArg Record.nodeType (hrestores.unique hother)
  dsimp only at htype
  rw [hlast, hprevious, Game.nodeType_keptRecord, Game.nodeType_keptRecord] at htype
  exact absurd htype (by decide : (1 : UInt32) ≠ 2)

end Savegame.SaveDirectory
