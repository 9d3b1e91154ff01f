import Savegame.Proofs.Listing
import Savegame.Proofs.Restoring
import Savegame.Proofs.SavedGame

/-!
# The slots as a map

As long as nothing else writes to the save directory, its calls do what they would do on a map from
the slots to their latest saves. The files of a slot hold its latest save, the one before it as a
backup and the sidecar of the latest, and nothing of any other slot or of a save that was removed.
-/

namespace Savegame

namespace FileTree

variable {t : FileTree} {f : SlotFile} {slot : UInt16}

/-- The tree without the files of a slot that a removal knows of. -/
def cleared (t : FileTree) (slot : UInt16) : FileTree :=
  ((t.drop .backup slot).drop .primary slot).drop .sidecar slot

theorem lookup_cleared (t : FileTree) (f : SlotFile) (i j : UInt16) :
    (t.cleared i).lookup f j =
      if (f = .backup ∨ f = .primary ∨ f = .sidecar) ∧ i = j then none else t.lookup f j := by
  simp only [cleared, lookup_drop]
  grind

theorem hasLayout_cleared (h : t.HasLayout) : (t.cleared slot).HasLayout :=
  hasLayout_drop.mpr (hasLayout_drop.mpr (hasLayout_drop.mpr h))

/-- A tree without anything, or with both directories, stays one. -/
theorem layout_cleared (h : t = {} ∨ t.HasLayout) :
    t.cleared slot = {} ∨ (t.cleared slot).HasLayout := by
  rcases h with rfl | hlayout
  · exact .inl rfl
  · exact .inr (hasLayout_cleared hlayout)

theorem admitsLayout_of_layout (h : t = {} ∨ t.HasLayout) : t.AdmitsLayout := by
  rcases h with rfl | hlayout
  · exact admitsLayout_empty
  · exact hlayout.admitsLayout

theorem IsTidy.cleared (h : t.IsTidy) (slot : UInt16) : (t.cleared slot).IsTidy :=
  ((h.drop .backup slot).drop .primary slot).drop .sidecar slot

theorem isPresent_of_none (h : t.lookup f slot = none) : t.isPresent (f.location slot) = false := by
  rw [isPresent, place_location_eq, h]
  cases t.entries.find? [f.directory] with
  | none => rfl
  | some entry => cases entry <;> rfl

end FileTree

namespace Call

open FileTree

variable {t : FileTree} {f : SlotFile} {slot : UInt16}

theorem run_clear_of_none (h : t.lookup f slot = none) :
    run t (.clear (f.location slot)) = ⟨.ok (), t, []⟩ := by
  rw [run, isPresent_of_none h]
  rfl

end Call

namespace SaveDirectory

open FileTree

theorem removeSlot_empty (slot : UInt16) : removeSlot slot {} = ⟨.ok (), {}, []⟩ := by
  have hnone : ∀ f, Call.run {} (.clear (SlotFile.location f slot)) = ⟨.ok (), {}, []⟩ :=
    fun f => Call.run_clear_of_none rfl
  rw [removeSlot, backupLocation_eq, slotLocation_eq, sidecarLocation_eq,
    Call.runAll_cons_of_run (hnone _), Call.runAll_cons_of_run (hnone _),
    Call.runAll_cons_of_run (hnone _)]
  rfl

theorem removeSlot_of_hasLayout {t : FileTree} {slot : UInt16} (h : t.HasLayout)
    (hclear : t.IsClear slot) : removeSlot slot t = ⟨.ok (), t.cleared slot, []⟩ := by
  have hleads : Call.Leads slot t
      [.clear (backupLocation slot), .clear (slotLocation slot), .clear (sidecarLocation slot)]
      (t.cleared slot) := by
    rw [backupLocation_eq, slotLocation_eq, sidecarLocation_eq]
    have hfirst : (t.drop .backup slot).HasLayout := hasLayout_drop.mpr h
    have hsecond : ((t.drop .backup slot).drop .primary slot).HasLayout := hasLayout_drop.mpr hfirst
    exact (Call.Leads.clear (h _)).cons
      ((Call.Leads.clear (hfirst _)).cons (Call.Leads.clear (hsecond _)))
  exact hleads.eq (hleads.answer hclear)

theorem removeSlot_of_layout {t : FileTree} {slot : UInt16} (h : t = {} ∨ t.HasLayout)
    (hclear : t.IsClear slot) : removeSlot slot t = ⟨.ok (), t.cleared slot, []⟩ := by
  rcases h with rfl | hlayout
  · exact removeSlot_empty slot
  · exact removeSlot_of_hasLayout hlayout hclear

/-- A call on the save directory, with the game that it is made for. -/
inductive StoreCall where
  | save (slot : UInt16) (date : Date) (g : Game)
  | load (slot : UInt16) (g : Game)
  | remove (slot : UInt16)
  | list

/-- A call that is made, if for a game, then for one under the settings. -/
def StoreCall.IsUnder (settings : Settings) : StoreCall → Prop
  | save _ _ g | load _ g => Reachable settings g
  | remove _ | list => True

/-- The bytes that a save put out, and the entry that it answered with. -/
structure SlotSave where
  bytes : Bytes
  entry : SlotEntry

/-- The files, and beside them the saves of each slot since it was last removed, the latest first. -/
structure Store where
  files : FileTree := {}
  saves : UInt16 → List SlotSave := fun _ => []

namespace Store

/-- The store after a call. The files are what the call makes of them, and a save or a removal is
noted if it succeeded. -/
def step (s : Store) : StoreCall → Store
  | .save slot date g =>
    let o := saveSlot slot date g s.files
    match (g.saveToBytes date).answer, o.answer with
    | .ok bytes, .ok entry =>
      ⟨o.state.2, Function.update s.saves slot (⟨bytes, entry⟩ :: s.saves slot)⟩
    | _, _ => { s with files := o.state.2 }
  | .load _ _ => s
  | .remove slot =>
    let o := removeSlot slot s.files
    match o.answer with
    | .ok () => ⟨o.state, Function.update s.saves slot []⟩
    | .error _ => { s with files := o.state }
  | .list => { s with files := (listSlots s.files).state }

theorem step_save_of_ok {s : Store} {slot : UInt16} {date : Date} {g : Game} {save : SlotSave}
    (hbytes : (g.saveToBytes date).answer = .ok save.bytes)
    (hanswer : (saveSlot slot date g s.files).answer = .ok save.entry) :
    s.step (.save slot date g) = ⟨(saveSlot slot date g s.files).state.2,
      Function.update s.saves slot (save :: s.saves slot)⟩ := by
  simp only [step, hbytes, hanswer]

theorem step_remove_of_ok {s : Store} {slot : UInt16} {t : FileTree}
    (h : removeSlot slot s.files = ⟨.ok (), t, []⟩) :
    s.step (.remove slot) = ⟨t, Function.update s.saves slot []⟩ := by
  simp only [step, h]

/-- The store that calls lead to from an empty directory. -/
def run (calls : List StoreCall) : Store :=
  calls.foldl step {}

/-- The calls on a store find in its files what its saves say. -/
structure Serves (settings : Settings) (s : Store) : Prop where
  load : ∀ slot (h : Game), h.settings = settings →
    match s.saves slot with
    | [] => loadSlot slot s.files h = ⟨.error (.slotNotFound slot), h, []⟩
    | last :: _ => ∃ d, Record.decode settings.maxDescriptionLength last.bytes = .ok d ∧
      (loadSlot slot s.files h).Restores h d.record
  list : ∃ entries, (listSlots s.files).answer = .ok entries ∧
    ∀ slot, entries.filter (·.metadata.slot = slot) = ((s.saves slot).head?.map (·.entry)).toList
  save : ∀ slot date g, Reachable settings g → ∃ last : SlotSave,
    (g.saveToBytes date).answer = .ok last.bytes ∧
      (saveSlot slot date g s.files).answer = .ok last.entry ∧
      (s.step (.save slot date g)).saves slot = last :: s.saves slot
  remove : ∀ slot, (removeSlot slot s.files).answer = .ok () ∧
    (s.step (.remove slot)).saves slot = []

end Store

/-- What a file of a slot holds after the slot was saved. -/
def held (saves : List SlotSave) : SlotFile → Option Bytes
  | .primary => saves.head?.map (·.bytes)
  | .backup => saves.tail.head?.map (·.bytes)
  | .sidecar => saves.head?.map (·.entry.metadata.toBytes)
  | .pending | .pendingSidecar => none

/-- A save whose bytes can be loaded and whose sidecar can be read. -/
structure SlotSave.IsSound (settings : Settings) (slot : UInt16) (save : SlotSave) : Prop where
  location : save.entry.location = slotLocation slot
  number : save.entry.metadata.slot = slot
  checksum : save.bytes.checksum = save.entry.metadata.checksum
  readable : SlotMetadata.ofBytes? save.entry.metadata.toBytes = some save.entry.metadata
  decodes : ∃ d, Record.decode settings.maxDescriptionLength save.bytes = .ok d

/-- A store whose files hold its saves. -/
structure Store.IsSound (settings : Settings) (s : Store) : Prop where
  layout : s.files = {} ∨ s.files.HasLayout
  tidy : s.files.IsTidy
  files : ∀ f slot, s.files.lookup f slot = (held (s.saves slot) f).map .file
  saves : ∀ slot, ∀ save ∈ s.saves slot, save.IsSound settings slot

namespace Store.IsSound

variable {settings : Settings} {s : Store} {slot : UInt16} {save : SlotSave}

theorem empty (settings : Settings) : Store.IsSound settings {} where
  layout := .inl rfl
  tidy := isTidy_empty
  files f slot := by cases f <;> rfl
  saves _ := nofun

theorem admitsLayout (hs : s.IsSound settings) : s.files.AdmitsLayout :=
  admitsLayout_of_layout hs.layout

theorem isClear (hs : s.IsSound settings) (slot : UInt16) : s.files.IsClear slot := by
  intro f
  rw [hs.files]
  cases held (s.saves slot) f <;> simp

theorem readPresent_files (hs : s.IsSound settings) (f : SlotFile) (slot : UInt16) :
    readPresent s.files (f.location slot) = .ok (held (s.saves slot) f) := by
  have hfiles := hs.files f slot
  rcases hs.layout with hempty | hlayout
  · rw [hempty] at hfiles ⊢
    rw [readPresent_empty, Option.map_eq_none_iff.mp hfiles.symm]
  · rw [readPresent_location (hlayout f), hfiles]
    cases held (s.saves slot) f <;> rfl

theorem laidOut (hs : s.IsSound settings) :
    Store.IsSound settings ⟨s.files.laidOut, s.saves⟩ where
  layout := .inr (hasLayout_laidOut hs.admitsLayout)
  tidy := hs.tidy.laidOut
  files f slot := by rw [lookup_laidOut, hs.files]
  saves := hs.saves

theorem saved (hs : s.IsSound settings) (hlayout : s.files.HasLayout)
    (hsave : save.IsSound settings slot) :
    Store.IsSound settings
      ⟨s.files.saved slot save.bytes save.entry.metadata.toBytes,
        Function.update s.saves slot (save :: s.saves slot)⟩ where
  layout := .inr (hasLayout_saved.mpr hlayout)
  tidy := hs.tidy.saved slot _ _
  files f := by
    refine (Function.forall_update_iff s.saves fun other saves =>
      (s.files.saved slot save.bytes save.entry.metadata.toBytes).lookup f other =
        (held saves f).map .file).mpr ⟨?_, fun other hne => ?_⟩
    · cases f with
      | primary => exact lookup_saved_primary
      | sidecar => exact lookup_saved_sidecar
      | pending => exact lookup_saved_pending
      | pendingSidecar => exact lookup_saved_pendingSidecar
      | backup =>
        -- The backup is what the slot's file was, or as it was if there was none.
        have hprimary := hs.files .primary slot
        have hbackup := hs.files .backup slot
        rw [lookup_saved_backup]
        cases hsaves : s.saves slot with
        | nil =>
          rw [hsaves] at hprimary hbackup
          rw [copied_of_none hprimary, hbackup]
          rfl
        | cons previous rest =>
          rw [hsaves] at hprimary
          exact lookup_copied_self hprimary
    · exact (lookup_saved_of_ne hne.symm).trans (hs.files f other)
  saves := (Function.forall_update_iff s.saves fun other saves =>
    ∀ save ∈ saves, save.IsSound settings other).mpr
      ⟨List.forall_mem_cons.mpr ⟨hsave, hs.saves slot⟩, fun other _ => hs.saves other⟩

theorem cleared (hs : s.IsSound settings) (slot : UInt16) :
    Store.IsSound settings ⟨s.files.cleared slot, Function.update s.saves slot []⟩ where
  layout := layout_cleared hs.layout
  tidy := hs.tidy.cleared slot
  files f := by
    refine (Function.forall_update_iff s.saves fun other saves =>
      (s.files.cleared slot).lookup f other = (held saves f).map .file).mpr
        ⟨?_, fun other hne => ?_⟩
    · rw [lookup_cleared, hs.files]
      cases f <;> simp [held]
    · rw [lookup_cleared, if_neg fun h => hne h.2.symm, hs.files]
  saves := (Function.forall_update_iff s.saves fun other saves =>
    ∀ save ∈ saves, save.IsSound settings other).mpr ⟨nofun, fun other _ => hs.saves other⟩

theorem removeSlot_eq (hs : s.IsSound settings) (slot : UInt16) :
    removeSlot slot s.files = ⟨.ok (), s.files.cleared slot, []⟩ :=
  removeSlot_of_layout hs.layout (hs.isClear slot)

/-- A save of a game under valid settings. What it puts out does not depend on the store. -/
theorem exists_save (hsettings : settings.validate = .ok ()) {g : Game}
    (hg : Reachable settings g) (slot : UInt16) (date : Date) :
    ∃ save : SlotSave, save.IsSound settings slot ∧
      (g.saveToBytes date).answer = .ok save.bytes ∧ ∀ s : Store, s.IsSound settings →
        (saveSlot slot date g s.files).answer = .ok save.entry ∧
        (saveSlot slot date g s.files).state.2 =
          s.files.laidOut.saved slot save.bytes save.entry.metadata.toBytes := by
  obtain ⟨bytes, d, hbytes, hdecode, -, hlength⟩ := hg.saved hsettings date
  refine ⟨⟨bytes, .of slot (g.saveToBytes date).state bytes⟩, ⟨rfl, rfl, rfl, ?_, d, hdecode⟩,
    hbytes, fun s hs => ?_⟩
  · rw [SlotMetadata.ofBytes?_toBytes]
    exact if_pos hlength
  · have hanswer := answer_saveSlot slot hs.admitsLayout (hs.isClear slot) hbytes
    obtain ⟨-, -, hstate⟩ := saveSlot_of_bytes hbytes hanswer
    exact ⟨hanswer, hstate⟩

theorem head_isSound (hs : s.IsSound settings) (h : (s.saves slot).head? = some save) :
    save.IsSound settings slot :=
  hs.saves slot save (List.mem_of_mem_head? h)

theorem loadSlot_of_saved (hs : s.IsSound settings) (h : (s.saves slot).head? = some save)
    {g : Game} (hg : g.settings = settings) :
    ∃ d, Record.decode settings.maxDescriptionLength save.bytes = .ok d ∧
      (loadSlot slot s.files g).Restores g d.record := by
  have hsave := hs.head_isSound h
  have hprimary := hs.readPresent_files .primary slot
  have hside := hs.readPresent_files .sidecar slot
  rw [held, h, ← slotLocation_eq] at hprimary
  rw [held, h, ← sidecarLocation_eq] at hside
  have hagrees : Agrees (some save.entry.metadata.toBytes) save.bytes :=
    (agrees_iff hsave.readable).mpr hsave.checksum
  obtain ⟨d, hdecode⟩ := hsave.decodes
  subst hg
  exact ⟨d, hdecode, restores_of_verified hprimary (verify_of_agrees hside hagrees) hdecode⟩

theorem listed_iff (hs : s.IsSound settings) {m : SlotMetadata} :
    Listed s.files slot m ↔ ∃ save, (s.saves slot).head? = some save ∧ save.entry.metadata = m := by
  constructor
  · intro h
    obtain ⟨raw, hraw, hm⟩ := h.sidecar
    rw [hs.files, Option.map_eq_some_iff] at hraw
    obtain ⟨_, hheld, ⟨⟩⟩ := hraw
    obtain ⟨save, hsave, rfl⟩ := Option.map_eq_some_iff.mp hheld
    rw [(hs.head_isSound hsave).readable, Option.some.injEq] at hm
    exact ⟨save, hsave, hm⟩
  · rintro ⟨save, hsave, rfl⟩
    have hsound := hs.head_isSound hsave
    refine ⟨⟨_, ?_, hsound.readable⟩, hsound.number, ?_⟩
    · rw [hs.files, held, hsave]
      rfl
    · rw [hs.files, held, hsave]
      rfl

theorem listSlots_of_saved (hs : s.IsSound settings) :
    ∃ entries, (listSlots s.files).answer = .ok entries ∧
      ∀ slot, entries.filter (·.metadata.slot = slot) =
        ((s.saves slot).head?.map (·.entry)).toList := by
  have hpending : ∀ slot, s.files.lookup .pendingSidecar slot = none := fun slot => hs.files _ slot
  have hlisted : ∀ slot, s.files.lookup .sidecar slot ≠ none → ∃ m, Listed s.files slot m := by
    intro slot hentry
    cases hhead : (s.saves slot).head? with
    | none =>
      rw [hs.files, held, hhead] at hentry
      exact absurd rfl hentry
    | some save => exact ⟨_, hs.listed_iff.mpr ⟨save, hhead, rfl⟩⟩
  obtain ⟨entries, hanswer, hnodup, hmem⟩ :=
    answer_listSlots hs.admitsLayout hs.tidy hpending hlisted
  refine ⟨entries, hanswer, fun slot => filter_key_of_nodup hnodup fun entry => ?_⟩
  rw [hmem, Option.map_eq_some_iff]
  constructor
  · rintro ⟨⟨hm, hlocation⟩, rfl⟩
    obtain ⟨save, hsave, hmetadata⟩ := hs.listed_iff.mp hm
    have hsound := hs.head_isSound hsave
    exact ⟨save, hsave, SlotEntry.ext hmetadata (hsound.location.trans hlocation.symm)⟩
  · rintro ⟨save, hsave, rfl⟩
    have hsound := hs.head_isSound hsave
    rw [hsound.number]
    exact ⟨⟨hs.listed_iff.mpr ⟨save, hsave, rfl⟩, hsound.location⟩, rfl⟩

theorem serves (hs : s.IsSound settings) (hsettings : settings.validate = .ok ()) :
    s.Serves settings where
  load slot h hh := by
    split
    next hsaves =>
      refine loadSlot_of_none ?_ h
      rw [slotLocation_eq, hs.readPresent_files, hsaves]
      rfl
    next last rest hsaves => exact hs.loadSlot_of_saved (by rw [hsaves, List.head?_cons]) hh
  list := hs.listSlots_of_saved
  save slot date g hg := by
    obtain ⟨save, -, hbytes, hsave⟩ := exists_save hsettings hg slot date
    obtain ⟨hanswer, -⟩ := hsave s hs
    refine ⟨save, hbytes, hanswer, ?_⟩
    rw [step_save_of_ok hbytes hanswer]
    exact Function.update_self ..
  remove slot := by
    have hremoved := hs.removeSlot_eq slot
    rw [step_remove_of_ok hremoved, hremoved]
    exact ⟨rfl, Function.update_self ..⟩

end Store.IsSound

namespace Store

variable {settings : Settings} {slot : UInt16} {call : StoreCall} {calls : List StoreCall}
  {f next : Store → Store}

/-- A change of stores that keeps them sound and sees to the saves of each slot by themselves. -/
def IsSlotwise (settings : Settings) (f : Store → Store) : Prop :=
  ∃ change : UInt16 → List SlotSave → List SlotSave, ∀ s : Store, s.IsSound settings →
    (f s).IsSound settings ∧ ∀ slot, (f s).saves slot = change slot (s.saves slot)

theorem IsSlotwise.comp (hnext : IsSlotwise settings next) (h : IsSlotwise settings f) :
    IsSlotwise settings (next ∘ f) := by
  obtain ⟨change, hf⟩ := h
  obtain ⟨again, hagain⟩ := hnext
  refine ⟨fun slot => again slot ∘ change slot, fun s hs => ?_⟩
  obtain ⟨hsound, hsaves⟩ := hf s hs
  obtain ⟨hlast, hchanged⟩ := hagain (f s) hsound
  exact ⟨hlast, fun slot => (hchanged slot).trans (congrArg (again slot) (hsaves slot))⟩

theorem isSlotwise_step (hsettings : settings.validate = .ok ()) (hcall : call.IsUnder settings) :
    IsSlotwise settings fun s => s.step call := by
  cases call with
  | save slot date g =>
    obtain ⟨save, hsave, hbytes, hsaved⟩ := IsSound.exists_save hsettings hcall slot date
    refine ⟨fun other saves => if other = slot then save :: saves else saves, fun s hs => ?_⟩
    obtain ⟨hanswer, hstate⟩ := hsaved s hs
    have hlayout := hasLayout_laidOut hs.admitsLayout
    dsimp only
    rw [step_save_of_ok hbytes hanswer, hstate]
    refine ⟨hs.laidOut.saved hlayout hsave, fun other => ?_⟩
    simp only [Function.update_apply]
    split
    case isTrue heq => rw [heq]
    case isFalse => rfl
  | load slot g => exact ⟨fun _ => id, fun s hs => ⟨hs, fun _ => rfl⟩⟩
  | remove slot =>
    refine ⟨fun other saves => if other = slot then [] else saves, fun s hs => ?_⟩
    dsimp only
    rw [step_remove_of_ok (hs.removeSlot_eq slot)]
    exact ⟨hs.cleared slot, fun other => Function.update_apply ..⟩
  | list =>
    refine ⟨fun _ => id, fun s hs => ?_⟩
    simp only [step, state_listSlots hs.admitsLayout]
    exact ⟨hs.laidOut, fun _ => rfl⟩

theorem isSlotwise_foldl (hsettings : settings.validate = .ok ())
    (hcalls : ∀ call ∈ calls, call.IsUnder settings) :
    IsSlotwise settings fun s => calls.foldl step s := by
  induction calls with
  | nil => exact ⟨fun _ => id, fun s hs => ⟨hs, fun _ => rfl⟩⟩
  | cons call rest ih =>
    obtain ⟨hcall, hrest⟩ := List.forall_mem_cons.mp hcalls
    exact (ih hrest).comp (isSlotwise_step hsettings hcall)

theorem isSound_run (hsettings : settings.validate = .ok ())
    (hcalls : ∀ call ∈ calls, call.IsUnder settings) : (run calls).IsSound settings := by
  obtain ⟨_, h⟩ := isSlotwise_foldl hsettings hcalls
  exact (h {} (.empty settings)).1

theorem saves_run_of_remove {before after : List StoreCall}
    (hsettings : settings.validate = .ok ())
    (hcalls : ∀ call ∈ before ++ .remove slot :: after, call.IsUnder settings) :
    (run (before ++ .remove slot :: after)).saves slot = (run after).saves slot := by
  obtain ⟨hbefore, hrest⟩ := List.forall_mem_append.mp hcalls
  obtain ⟨hremove, hafter⟩ := List.forall_mem_cons.mp hrest
  have hs := isSound_run hsettings hbefore
  obtain ⟨-, hremoved⟩ := (hs.serves hsettings).remove slot
  obtain ⟨_, hstep⟩ := isSlotwise_step hsettings hremove
  obtain ⟨change, hrun⟩ := isSlotwise_foldl hsettings hafter
  have hempty := (hrun {} (.empty settings)).2 slot
  have hlater := (hrun _ (hstep _ hs).1).2 slot
  rw [run, List.foldl_append, List.foldl_cons]
  exact hlater.trans ((congrArg (change slot) hremoved).trans hempty.symm)

/-- Whatever calls are made from an empty directory on, a slot is found as its latest save since it
was removed left it, and saves from before a removal make no difference after it. -/
theorem serves_run (hsettings : settings.validate = .ok ())
    (hcalls : ∀ call ∈ calls, call.IsUnder settings) :
    (run calls).Serves settings ∧ ∀ slot before after, calls = before ++ .remove slot :: after →
      (run calls).saves slot = (run after).saves slot := by
  refine ⟨(isSound_run hsettings hcalls).serves hsettings, ?_⟩
  rintro slot before after rfl
  exact saves_run_of_remove hsettings hcalls

/-- A slot that was saved and removed is not found, and is found again once it is saved again. -/
theorem serves_run_saved_again :
    let removed : List StoreCall := [.save 1 {} (.start {}), .list, .remove 1, .load 1 (.start {})]
    let again := removed ++ [.save 1 { day := 2 } (.start {})]
    loadSlot 1 (run removed).files (.start {}) = ⟨.error (.slotNotFound 1), .start {}, []⟩ ∧
      ∃ bytes d, ((Game.start {}).saveToBytes { day := 2 }).answer = .ok bytes ∧
        Record.decode 256 bytes = .ok d ∧
        (loadSlot 1 (run again).files (.start {})).Restores (.start {}) d.record := by
  have hstart : Reachable {} (Game.start {}) := .start
  generalize Game.start {} = g at hstart ⊢
  intro removed again
  have hremoved : ∀ call ∈ removed, call.IsUnder {} := by
    simp [removed, StoreCall.IsUnder, hstart]
  have hagain : ∀ call ∈ again, call.IsUnder {} := by
    simp [again, removed, StoreCall.IsUnder, hstart]
  obtain ⟨hserves, hforgotten⟩ := serves_run rfl hremoved
  obtain ⟨hlater, -⟩ := serves_run rfl hagain
  have hnone : (run removed).saves 1 = [] :=
    hforgotten 1 [.save 1 {} g, .list] [.load 1 g] rfl
  have hlost := hserves.load 1 g hstart.isSavable.1
  rw [hnone] at hlost
  obtain ⟨last, hbytes, -, hsaves⟩ := hserves.save 1 { day := 2 } g hstart
  have hrun : run again = (run removed).step (.save 1 { day := 2 } g) := List.foldl_append
  have hfound := hlater.load 1 g hstart.isSavable.1
  rw [hrun, hsaves] at hfound
  obtain ⟨d, hdecode, hrestores⟩ := hfound
  rw [hrun]
  exact ⟨hlost, last.bytes, d, hbytes, hdecode, hrestores⟩

end Store

end SaveDirectory

end Savegame
