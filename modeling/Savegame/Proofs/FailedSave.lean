import Savegame.Proofs.Isolation
import Savegame.Proofs.Listing
import Savegame.Proofs.SlotLoad

/-!
# Saves that fail

A save into a slot fails where a directory stands in the way of one of the slot's files, and leaves
what was done before behind. What a load makes of that is mostly what it made of the files before.
-/

namespace Savegame

namespace FileTree

variable {t : FileTree} {f : SlotFile} {slot : UInt16} {name : String}

theorem IsTidy.isTree (h : t.IsTidy) (hlayout : t.HasLayout) : t.IsTree := by
  intro path name hpath hentry
  obtain ⟨f, hown | ⟨slot, hown⟩⟩ := h.own _ hentry
  · have hlength := congrArg List.length hown
    rw [List.length_append, List.length_singleton, List.length_singleton] at hlength
    exact absurd (List.length_eq_zero_iff.mp (by omega)) hpath
  · have hfront : path = [f.directory] := by
      simpa [SlotFile.path] using congrArg List.dropLast hown
    rw [hfront]
    exact hlayout f

/-- The tree with a directory in the place of a slot's file. -/
def blocked (t : FileTree) (f : SlotFile) (slot : UInt16) : FileTree :=
  t.set (f.path slot) .directory

theorem lookup_blocked (t : FileTree) (f g : SlotFile) (i j : UInt16) :
    (t.blocked f i).lookup g j = if f = g ∧ i = j then some .directory else t.lookup g j := by
  rw [lookup, blocked, find?_set]
  simp only [SlotFile.path_inj]
  rfl

@[simp] theorem hasDirectory_blocked :
    (t.blocked f slot).HasDirectory name ↔ t.HasDirectory name := by
  rw [HasDirectory, blocked, find?_set, if_neg (path_ne_singleton f slot name), HasDirectory]

theorem IsTidy.blocked (h : t.IsTidy) (f : SlotFile) (slot : UInt16) :
    (t.blocked f slot).IsTidy :=
  h.set .directory ⟨f, .inr ⟨slot, rfl⟩⟩

/-- Where a slot's file was backed up, its other files are as they were. -/
theorem lookup_backedUp (hf : f ≠ .backup) :
    (t.copied .primary .backup slot).lookup f slot = t.lookup f slot :=
  lookup_copied t _ _ _ _ _ (.inl hf.symm)

/-- No copy of the slot's file can be kept. -/
def CannotKeep (t : FileTree) (slot : UInt16) : Prop :=
  t.lookup .primary slot = some .directory ∨
    (t.lookup .primary slot).isSome ∧ t.lookup .backup slot = some .directory

end FileTree

namespace Call

open FileTree

variable {t u : FileTree} {f p : SlotFile} {slot : UInt16} {content : Bytes} {call : Call}

theorem runAll_cons_of_settles {blocked : Prop} (h : Settles t u blocked (run t call))
    (rest : List Call) :
    (blocked ∧ ∃ e, runAll t (call :: rest) = ⟨.error e, t, []⟩) ∨
      ¬ blocked ∧ runAll t (call :: rest) = runAll u rest := by
  by_cases hblocked : blocked
  · refine .inl ⟨hblocked, ?_⟩
    rw [runAll]
    generalize run t call = o at h
    cases h with
    | done hfree => exact absurd hblocked hfree
    | blocked e _ => exact ⟨e, rfl⟩
  · exact .inr ⟨hblocked, runAll_cons_of_run (h.eq_of_not hblocked) rest⟩

/-- The last three calls of a replacement stop at the first or the second of them, or not at all. -/
theorem runAll_swap (slot : UInt16) (hf : t.HasDirectory f.directory)
    (hp : t.HasDirectory p.directory) (hne : f ≠ p) (content : Bytes) (rest : List Call) :
    let o := runAll t ([.write (p.location slot) content, .clear (f.location slot),
      .move (p.location slot) (f.location slot)] ++ rest)
    (t.lookup p slot = some .directory ∧ ∃ e, o = ⟨.error e, t, []⟩) ∨
      t.lookup p slot ≠ some .directory ∧
        ((t.lookup f slot = some .directory ∧ ∃ e, o = ⟨.error e, t.put p slot content, []⟩) ∨
          t.lookup f slot ≠ some .directory ∧
            o = runAll (t.replaced f p slot content) rest) := by
  intro o
  have hlookup : (t.put p slot content).lookup f slot = t.lookup f slot := by
    rw [lookup_put, if_neg fun h => hne h.1.symm]
  have hwritten : (t.put p slot content).HasDirectory f.directory := hasDirectory_put.mpr hf
  rcases runAll_cons_of_settles (settles_write hp content) _ with ⟨hblocked, e, he⟩ | ⟨hfree, heq⟩
  · exact .inl ⟨hblocked, e, he⟩
  refine .inr ⟨hfree, ?_⟩
  rcases runAll_cons_of_settles (settles_clear hwritten) _ with
    ⟨hblocked, e, he⟩ | ⟨hcleared, hnext⟩
  · exact .inl ⟨hlookup ▸ hblocked, e, heq.trans he⟩
  refine .inr ⟨hlookup ▸ hcleared, ?_⟩
  have hsource : ((t.put p slot content).drop f slot).lookup p slot = some (.file content) := by
    simp [lookup_drop, lookup_put, hne]
  have hmove := settles_move (f := p) (g := f) (hasDirectory_drop.mpr (hasDirectory_put.mpr hp))
    (hasDirectory_drop.mpr hwritten) hsource
  have hvacant : ((t.put p slot content).drop f slot).lookup f slot ≠ some .directory := by
    simp [lookup_drop]
  exact heq.trans (hnext.trans (runAll_cons_of_run (hmove.eq_of_not hvacant) rest))

end Call

namespace SaveDirectory

open FileTree Call

variable {t u : FileTree} {slot : UInt16} {date : Date} {g h : Game} {bytes preview : Bytes}
  {side : Option Bytes} {e : SaveError} {d : Record.Decoded}

/-- How the calls of a save end: they are done, or stop at a directory and leave behind what the
calls before have done. -/
inductive Ends (slot : UInt16) (bytes preview : Bytes) (t : FileTree) :
    Outcome FileTree Unit → Prop
  | done (hpending : t.lookup .pending slot ≠ some .directory) :
      Ends slot bytes preview t ⟨.ok (), t.saved slot bytes preview, []⟩
  | backUp (e : SaveError) (h : t.CannotKeep slot) : Ends slot bytes preview t ⟨.error e, t, []⟩
  | pending (e : SaveError) (hkept : ¬ t.CannotKeep slot)
      (h : t.lookup .pending slot = some .directory) :
      Ends slot bytes preview t ⟨.error e, t.copied .primary .backup slot, []⟩
  | pendingSidecar (e : SaveError) (hkept : ¬ t.CannotKeep slot)
      (hpending : t.lookup .pending slot ≠ some .directory)
      (h : t.lookup .pendingSidecar slot = some .directory) :
      Ends slot bytes preview t ⟨.error e, t.overwritten slot bytes, []⟩
  | sidecar (e : SaveError) (hkept : ¬ t.CannotKeep slot)
      (hpending : t.lookup .pending slot ≠ some .directory)
      (h : t.lookup .sidecar slot = some .directory) :
      Ends slot bytes preview t
        ⟨.error e, (t.overwritten slot bytes).put .pendingSidecar slot preview, []⟩

theorem ends_replace_sidecar (ht : t.HasLayout) (hkept : ¬ t.CannotKeep slot)
    (hpending : t.lookup .pending slot ≠ some .directory) (bytes preview : Bytes) :
    Ends slot bytes preview t
      (runAll (t.overwritten slot bytes) (Call.replace (sidecarLocation slot) preview false)) := by
  have hmeta : (t.overwritten slot bytes).HasDirectory SlotFile.sidecar.directory :=
    hasLayout_overwritten.mpr ht .sidecar
  have hlookup : (t.overwritten slot bytes).lookup .pendingSidecar slot =
      t.lookup .pendingSidecar slot := by
    simp [overwritten, lookup_replaced, lookup_copied]
  rw [replace_sidecar_eq, List.cons_append, List.nil_append,
    runAll_cons_of_run (run_makeDirectories_of_hasDirectory hmeta)]
  rcases runAll_swap (f := .sidecar) (p := .pendingSidecar) slot hmeta hmeta (by decide)
    preview [] with ⟨hblocked, e, he⟩ | ⟨-, ⟨hblocked, e, he⟩ | ⟨-, hdone⟩⟩
  · rw [List.append_nil] at he
    rw [he]
    exact .pendingSidecar e hkept hpending (hlookup ▸ hblocked)
  · rw [List.append_nil] at he
    rw [he]
    exact .sidecar e hkept hpending (lookup_overwritten_sidecar ▸ hblocked)
  · rw [List.append_nil] at hdone
    rw [hdone]
    exact .done hpending

theorem ends_slotCalls (ht : t.HasLayout) (slot : UInt16) (g : Game) (bytes : Bytes) :
    Ends slot bytes (SlotMetadata.of slot g bytes).toBytes t
      (runAll t (slotCalls slot g bytes)) := by
  have hslots : t.HasDirectory SlotFile.primary.directory := ht .primary
  have hcopied : (t.copied .primary .backup slot).HasDirectory "slots" :=
    hasDirectory_copied.mpr hslots
  have hpending : (t.copied .primary .backup slot).lookup .pending slot = t.lookup .pending slot :=
    lookup_backedUp (by decide)
  have hprimary : (t.copied .primary .backup slot).lookup .primary slot = t.lookup .primary slot :=
    lookup_backedUp (by decide)
  rw [slotCalls, replace_primary_eq, List.append_assoc, List.cons_append, List.cons_append,
    List.nil_append, runAll_cons_of_run (run_makeDirectories_of_hasDirectory hslots)]
  rcases runAll_cons_of_settles (@settles_backUp t .primary .backup slot hslots hslots) _ with
    ⟨hkept, e, he⟩ | ⟨hkept, hnext⟩
  · rw [he]
    exact .backUp e hkept
  rw [hnext]
  rcases runAll_swap (f := .primary) (p := .pending) slot hcopied hcopied (by decide) bytes _ with
    ⟨hblocked, e, he⟩ | ⟨hfree, ⟨hblocked, -⟩ | ⟨-, hrest⟩⟩
  · rw [he]
    exact .pending e hkept (hpending ▸ hblocked)
  · exact absurd (.inl (hprimary ▸ hblocked)) hkept
  · rw [hrest]
    exact ends_replace_sidecar ht hkept (hpending ▸ hfree) bytes _

/-- Directories that are made do not hide or show a file of a slot. -/
theorem readPresent_withDirectory (ht : t.IsTree) (name : String) (f : SlotFile) (slot : UInt16) :
    readPresent (t.withDirectory name) (f.location slot) = readPresent t (f.location slot) :=
  readPresent_of_spares (.withDirectory t name) ht f

theorem readPresent_ensureLayout (ht : t.IsTree) (f : SlotFile) (slot : UInt16) :
    readPresent (ensureLayout t).state (f.location slot) = readPresent t (f.location slot) :=
  readPresent_of_spares (spares_runAll (avoids_layoutCalls slot) t) ht f

/-- A save that fails leaves the slots as they were, or stops at one of the slot's files. -/
theorem failed_saveSlot (ht : t.IsTree) (hfailed : (saveSlot slot date g t).answer = .error e) :
    (∀ f : SlotFile, readPresent (saveSlot slot date g t).state.2 (f.location slot) =
        readPresent t (f.location slot)) ∨
      ∃ bytes preview o f, (g.saveToBytes date).answer = .ok bytes ∧ t.laidOut.HasLayout ∧
        Ends slot bytes preview t.laidOut o ∧ o.answer = .error f ∧
        (saveSlot slot date g t).state.2 = o.state := by
  have hread := readPresent_ensureLayout ht
  have hfiles := files_saveSlot slot date g t
  rw [saveCalls] at hfiles
  cases hbytes : (g.saveToBytes date).answer with
  | error _ =>
    rw [hbytes] at hfiles
    left
    intro f
    rw [hfiles]
    exact hread f slot
  | ok bytes =>
    cases hlayout : (ensureLayout t).answer with
    | error _ =>
      rw [hbytes] at hfiles
      left
      intro f
      rw [hfiles, runAll_append_of_error hlayout]
      exact hread f slot
    | ok _ =>
      obtain ⟨hmade, hdirectories⟩ := ensureLayout_of_ok hlayout
      rw [saveSlot_of_layout hmade hbytes] at hfailed ⊢
      dsimp only at hfailed ⊢
      have hends := ends_slotCalls hdirectories slot (g.saveToBytes date).state bytes
      generalize runAll t.laidOut (slotCalls slot (g.saveToBytes date).state bytes) = o at *
      cases hcalls : o.answer with
      | ok _ =>
        rw [hcalls] at hfailed
        cases hfailed
      | error f => exact .inr ⟨bytes, _, o, f, rfl, hdirectories, hends, hcalls, rfl⟩

/-- Where the sidecar speaks against the slot's file, the backup is as good as it was. -/
theorem restores_of_backup {old : Bytes} (ht : t.HasLayout)
    (hprimary : t.lookup .primary slot = some (.file bytes))
    (hside : t.lookup .sidecar slot = side.map .file) (hrefused : ¬ Agrees side bytes)
    (hbackup : t.lookup .backup slot = some (.file old))
    (hdecode : Record.decode g.settings.maxDescriptionLength old = .ok d) :
    (loadSlot slot t g).Restores g d.record := by
  obtain hagrees | ⟨raw, m, hraw, hm, hne⟩ := agrees_or_mismatch side bytes
  · exact absurd hagrees hrefused
  · exact comesTo_of_decision (readPresent_primary (ht .primary) hprimary)
      (readPresent_of_sidecar ht hside) (readPresent_backup (ht .backup) hbackup)
      (.backup (.mismatch hraw hm hne) hdecode)

theorem loadSlot_of_blocked (ht : t.HasLayout)
    (hprimary : t.lookup .primary slot = some (.file bytes))
    (hside : t.lookup .sidecar slot = some .directory) (g : Game) :
    loadSlot slot t g = ⟨.error (.stream (.system .isDirectory)), g, []⟩ := by
  have hread : readPresent t (sidecarLocation slot) = .error (.stream (.system .isDirectory)) := by
    rw [sidecarLocation_eq, readPresent_location (ht .sidecar), hside]
  rw [loadSlot, readPresent_primary (ht .primary) hprimary]
  simp only [verify, hread]
  rfl

/-- What a load makes of a slot's file that is there. -/
theorem load_cases (ht : t.HasLayout) (hprimary : t.lookup .primary slot = some (.file bytes))
    (g : Game) :
    t.lookup .sidecar slot = some .directory ∨ ∃ side, t.lookup .sidecar slot = side.map .file ∧
      ((∃ e, Objection g.settings.maxDescriptionLength side bytes e) ∨ Agrees side bytes ∧
        ∃ d, Record.decode g.settings.maxDescriptionLength bytes = .ok d ∧
          (loadSlot slot t g).Restores g d.record) := by
  have hfile : ∀ side : Option Bytes, t.lookup .sidecar slot = side.map .file →
      (∃ e, Objection g.settings.maxDescriptionLength side bytes e) ∨ Agrees side bytes ∧
        ∃ d, Record.decode g.settings.maxDescriptionLength bytes = .ok d ∧
          (loadSlot slot t g).Restores g d.record := by
    intro side hside
    rcases exists_objection g.settings.maxDescriptionLength side bytes with
      ⟨hagrees, d, hdecode⟩ | hobjection
    · exact .inr ⟨hagrees, d, hdecode, restores_of_agrees ht hagrees hprimary hside hdecode⟩
    · exact .inl hobjection
  cases hentry : t.lookup .sidecar slot with
  | none => exact .inr ⟨none, rfl, hfile none hentry⟩
  | some entry =>
    cases entry with
    | directory => exact .inl rfl
    | file raw => exact .inr ⟨some raw, rfl, hfile (some raw) hentry⟩

/-- Two loads that end alike, whatever they log. -/
def Alike (o p : Outcome Game Unit) : Prop :=
  o.answer = p.answer ∧ o.state = p.state

theorem Alike.of_restores {o p : Outcome Game Unit} {r : Record} (ho : o.Restores g r)
    (hp : p.Restores g r) : Alike o p :=
  ⟨ho.answer.trans hp.answer.symm, ho.state.trans hp.state.symm⟩

/-- The slots and games for which a failed save may change what there is to load. -/
inductive AtRisk (slot : UInt16) (t : FileTree) (new : Bytes) (g : Game) : Prop
  /-- The slot was empty, and the save got as far as its file. -/
  | unannounced (hprimary : t.lookup .primary slot = none)
      (hpending : t.lookup .pending slot ≠ some .directory)
      (hblocked : t.lookup .sidecar slot = some .directory ∨
        t.lookup .pendingSidecar slot = some .directory)
  /-- The slot's file could not be used, and is now the backup. -/
  | refused {old : Bytes} {side : Option Bytes} {e : SaveError}
      (hprimary : t.lookup .primary slot = some (.file old))
      (hside : t.lookup .sidecar slot = side.map .file)
      (hobjection : Objection g.settings.maxDescriptionLength side old e)
      (hbackup : t.lookup .backup slot ≠ some .directory)
      (hblocked : t.lookup .pending slot = some .directory ∨
        t.lookup .pendingSidecar slot = some .directory)
  /-- The old sidecar has nothing against the new content of the slot's file. -/
  | unchecked {old : Bytes} {side : Option Bytes}
      (hprimary : t.lookup .primary slot = some (.file old)) (hne : old ≠ new)
      (hside : t.lookup .sidecar slot = side.map .file) (hagrees : Agrees side new)
      (hbackup : t.lookup .backup slot ≠ some .directory)
      (hpending : t.lookup .pending slot ≠ some .directory)
      (hblocked : t.lookup .pendingSidecar slot = some .directory)

theorem file_of_kept (h : ¬ t.CannotKeep slot) : t.lookup .primary slot = none ∨
    ∃ old, t.lookup .primary slot = some (.file old) ∧
      t.lookup .backup slot ≠ some .directory := by
  rw [CannotKeep, not_or, not_and] at h
  cases hentry : t.lookup .primary slot with
  | none => exact .inl rfl
  | some entry =>
    rw [hentry] at h
    cases entry with
    | directory => exact absurd rfl h.1
    | file old => exact .inr ⟨old, rfl, h.2 rfl⟩

theorem alike_copied (ht : t.HasLayout) (hkept : ¬ t.CannotKeep slot)
    (hpending : t.lookup .pending slot = some .directory) (new : Bytes) (g : Game) :
    Alike (loadSlot slot (t.copied .primary .backup slot) g) (loadSlot slot t g) ∨
      AtRisk slot t new g := by
  have hcopied : (t.copied .primary .backup slot).HasLayout := hasLayout_copied.mpr ht
  rcases file_of_kept hkept with hnone | ⟨old, hprimary, hbackup⟩
  · rw [copied_of_none hnone]
    exact .inl ⟨rfl, rfl⟩
  have hfile : (t.copied .primary .backup slot).lookup .primary slot = some (.file old) := by
    rw [lookup_backedUp (by decide), hprimary]
  have hsame : (t.copied .primary .backup slot).lookup .sidecar slot = t.lookup .sidecar slot :=
    lookup_backedUp (by decide)
  rcases load_cases ht hprimary g with hside | ⟨side, hside, ⟨e, he⟩ | ⟨hagrees, d, hdecode, hload⟩⟩
  · left
    rw [loadSlot_of_blocked ht hprimary hside, loadSlot_of_blocked hcopied hfile (hsame ▸ hside)]
    exact ⟨rfl, rfl⟩
  · exact .inr (.refused hprimary hside he hbackup (.inl hpending))
  · left
    exact .of_restores (restores_of_agrees hcopied hagrees hfile (hsame.trans hside) hdecode) hload

theorem alike_overwritten {new : Bytes} (ht : t.HasLayout) (hkept : ¬ t.CannotKeep slot)
    (hpending : t.lookup .pending slot ≠ some .directory)
    (hblocked : t.lookup .pendingSidecar slot = some .directory) (g : Game) :
    Alike (loadSlot slot (t.overwritten slot new) g) (loadSlot slot t g) ∨
      AtRisk slot t new g := by
  have hover : (t.overwritten slot new).HasLayout := hasLayout_overwritten.mpr ht
  rcases file_of_kept hkept with hnone | ⟨old, hprimary, hbackup⟩
  · exact .inr (.unannounced hnone hpending (.inr hblocked))
  rcases load_cases ht hprimary g with hside | ⟨side, hside, ⟨e, he⟩ | ⟨hagrees, d, hdecode, hload⟩⟩
  · left
    rw [loadSlot_of_blocked ht hprimary hside, loadSlot_of_blocked hover
      lookup_overwritten_primary (lookup_overwritten_sidecar.trans hside)]
    exact ⟨rfl, rfl⟩
  · exact .inr (.refused hprimary hside he hbackup (.inr hblocked))
  by_cases hnew : Agrees side new
  · by_cases hsame : old = new
    · subst hsame
      left
      exact .of_restores (restores_of_agrees hover hnew lookup_overwritten_primary
        (lookup_overwritten_sidecar.trans hside) hdecode) hload
    · exact .inr (.unchecked hprimary hsame hside hnew hbackup hpending hblocked)
  · left
    refine .of_restores (restores_of_backup hover lookup_overwritten_primary
      (lookup_overwritten_sidecar.trans hside) hnew ?_ hdecode) hload
    rw [lookup_overwritten_backup]
    exact lookup_copied_self hprimary

theorem alike_put {new : Bytes} (ht : t.HasLayout) (hkept : ¬ t.CannotKeep slot)
    (hpending : t.lookup .pending slot ≠ some .directory)
    (hblocked : t.lookup .sidecar slot = some .directory) (preview : Bytes) (g : Game) :
    Alike (loadSlot slot ((t.overwritten slot new).put .pendingSidecar slot preview) g)
        (loadSlot slot t g) ∨ AtRisk slot t new g := by
  rcases file_of_kept hkept with hnone | ⟨old, hprimary, -⟩
  · exact .inr (.unannounced hnone hpending (.inl hblocked))
  left
  have hput : ((t.overwritten slot new).put .pendingSidecar slot preview).HasLayout :=
    hasLayout_put.mpr (hasLayout_overwritten.mpr ht)
  have hfile : ((t.overwritten slot new).put .pendingSidecar slot preview).lookup .primary slot =
      some (.file new) := by
    simp [lookup_put]
  have hside : ((t.overwritten slot new).put .pendingSidecar slot preview).lookup .sidecar slot =
      some .directory := by
    simp [lookup_put, hblocked]
  rw [loadSlot_of_blocked ht hprimary hblocked, loadSlot_of_blocked hput hfile hside]
  exact ⟨rfl, rfl⟩

theorem alike_of_ends {new : Bytes} {o : Outcome FileTree Unit} (ht : t.HasLayout)
    (h : Ends slot new preview t o) (hfailed : o.answer = .error e) (g : Game) :
    Alike (loadSlot slot o.state g) (loadSlot slot t g) ∨ AtRisk slot t new g := by
  cases h with
  | done => cases hfailed
  | backUp => exact .inl ⟨rfl, rfl⟩
  | pending _ hkept hblocked => exact alike_copied ht hkept hblocked new g
  | pendingSidecar _ hkept hpending hblocked => exact alike_overwritten ht hkept hpending hblocked g
  | sidecar _ hkept hpending hblocked => exact alike_put ht hkept hpending hblocked preview g

theorem AtRisk.of_laidOut {new : Bytes} (h : AtRisk slot t.laidOut new g) :
    AtRisk slot t new g := by
  cases h with
  | unannounced hprimary hpending hblocked =>
    simp only [lookup_laidOut] at hprimary hpending hblocked
    exact .unannounced hprimary hpending hblocked
  | refused hprimary hside hobjection hbackup hblocked =>
    simp only [lookup_laidOut] at hprimary hside hbackup hblocked
    exact .refused hprimary hside hobjection hbackup hblocked
  | unchecked hprimary hne hside hagrees hbackup hpending hblocked =>
    simp only [lookup_laidOut] at hprimary hside hbackup hpending hblocked
    exact .unchecked hprimary hne hside hagrees hbackup hpending hblocked

/-- After a save that failed, a load of the slot ends as it would have ended before, with the same
record or the same error, unless the slot was at risk: it was empty, its file could not be used, or
its old sidecar has nothing against the new content. -/
theorem loadSlot_of_failed (ht : t.IsTree) (hfailed : (saveSlot slot date g t).answer = .error e)
    (h : Game) :
    Alike (loadSlot slot (saveSlot slot date g t).state.2 h) (loadSlot slot t h) ∨
      ∃ new, (g.saveToBytes date).answer = .ok new ∧ AtRisk slot t new h := by
  rcases failed_saveSlot ht hfailed with
    hsame | ⟨new, preview, o, f, hnew, hlayout, hends, hstopped, hstate⟩
  · left
    rw [loadSlot_congr hsame]
    exact ⟨rfl, rfl⟩
  have hlaid : loadSlot slot t.laidOut h = loadSlot slot t h := by
    apply loadSlot_congr
    intro f
    rw [laidOut, readPresent_withDirectory (ht.withDirectory "slots"), readPresent_withDirectory ht]
  rcases alike_of_ends hlayout hends hstopped h with halike | hrisk
  · rw [hlaid, ← hstate] at halike
    exact .inl halike
  · exact .inr ⟨new, hnew, hrisk.of_laidOut⟩

/-- A directory under the name that new content is written to first stops a save there. -/
theorem saveSlot_of_pending (slot : UInt16) (date : Date) (ht : t.HasLayout)
    (hkept : ¬ t.CannotKeep slot) (hpending : t.lookup .pending slot = some .directory)
    (hbytes : (g.saveToBytes date).answer = .ok bytes) :
    (∃ e, (saveSlot slot date g t).answer = .error e) ∧
      (saveSlot slot date g t).state.2 = t.copied .primary .backup slot := by
  have hslots : t.HasDirectory "slots" := ht .primary
  have hmeta : t.HasDirectory "meta" := ht .sidecar
  have hlaid : t.laidOut = t := by
    rw [laidOut, withDirectory_of_hasDirectory hslots, withDirectory_of_hasDirectory hmeta]
  have hlayout := ensureLayout_eq ht.admitsLayout
  rw [hlaid] at hlayout
  rw [saveSlot_of_layout hlayout hbytes]
  have hends := ends_slotCalls ht slot (g.saveToBytes date).state bytes
  dsimp only
  generalize runAll t (slotCalls slot (g.saveToBytes date).state bytes) = o at hends
  cases hends with
  | done hfree => exact absurd hpending hfree
  | backUp _ hlost => exact absurd hlost hkept
  | pending e => exact ⟨⟨e, rfl⟩, rfl⟩
  | pendingSidecar _ _ hfree => exact absurd hpending hfree
  | sidecar _ _ hfree => exact absurd hpending hfree

/-- A slot and its backup, with a directory where new content would be written first. -/
def hindered (primary backup : Bytes) : FileTree :=
  ((({} : FileTree).laidOut.put .primary 1 primary).put .backup 1 backup).blocked .pending 1

variable {primary backup : Bytes}

theorem hasLayout_hindered : (hindered primary backup).HasLayout := by
  intro f
  simp only [hindered, hasDirectory_blocked, hasDirectory_put]
  exact hasLayout_laidOut admitsLayout_empty f

theorem isTree_hindered : (hindered primary backup).IsTree :=
  (((isTidy_empty.laidOut.put _ _ _).put _ _ _).blocked _ _).isTree hasLayout_hindered

theorem lookup_hindered (f : SlotFile) :
    (hindered primary backup).lookup f 1 =
      match f with
      | .primary => some (.file primary)
      | .backup => some (.file backup)
      | .pending => some .directory
      | .sidecar | .pendingSidecar => none := by
  cases f <;> simp [hindered, lookup_blocked, lookup_put] <;> rfl

theorem not_cannotKeep_hindered : ¬ (hindered primary backup).CannotKeep 1 := by
  simp [CannotKeep, lookup_hindered]

/-- A save that is stopped by a directory leaves a slot to load as it was. -/
theorem loadSlot_of_failed_hindered :
    ∃ bytes d, ((Game.start {}).saveToBytes {}).answer = .ok bytes ∧
      Record.decode 256 bytes = .ok d ∧
      let t := hindered bytes []
      let o := saveSlot 1 { day := 2 } (.start {}) t
      (t.IsTree ∧ ∃ e, o.answer = .error e) ∧
        (loadSlot 1 o.state.2 (.start {})).Restores (.start {}) d.record := by
  have hstart : Reachable {} (Game.start {}) := .start
  have hlimit : (Game.start {}).settings.maxDescriptionLength = 256 := rfl
  generalize Game.start {} = g at hstart hlimit ⊢
  obtain ⟨bytes, d, hbytes, hdecode, -⟩ := hstart.saved rfl {}
  obtain ⟨new, -, hnew, -⟩ := hstart.saved rfl { day := 2 }
  refine ⟨bytes, d, hbytes, hdecode, ?_⟩
  intro t o
  obtain ⟨⟨e, he⟩, -⟩ := saveSlot_of_pending (g := g) 1 { day := 2 }
    hasLayout_hindered not_cannotKeep_hindered (lookup_hindered .pending) hnew
  have hside : t.lookup .sidecar 1 = (none : Option Bytes).map .file := lookup_hindered .sidecar
  have hbefore : (loadSlot 1 t g).Restores g d.record :=
    restores_of_agrees hasLayout_hindered (agrees_none bytes) (lookup_hindered .primary) hside
      (hlimit ▸ hdecode)
  refine ⟨⟨isTree_hindered, e, he⟩, ?_⟩
  rcases loadSlot_of_failed isTree_hindered he g with ⟨hanswer, hstate⟩ | ⟨_, -, hrisk⟩
  · exact ⟨hanswer.trans hbefore.answer, hstate.trans hbefore.state⟩
  · cases hrisk with
    | unannounced hprimary => simp [lookup_hindered] at hprimary
    | @refused _ side _ hprimary hside hobjection =>
      rw [lookup_hindered, Option.some.injEq, Entry.file.injEq] at hprimary
      rw [lookup_hindered] at hside
      subst hprimary
      obtain rfl := Option.map_eq_none_iff.mp hside.symm
      exact absurd ⟨agrees_none bytes, hlimit ▸ hdecode⟩ hobjection.not_accepted
    | unchecked _ _ _ _ _ hpending => exact absurd (lookup_hindered .pending) hpending

/-- A save that fails loses the only record there is, the backup of an empty file. -/
theorem backup_lost_by_failed_save :
    ∃ bytes d, ((Game.start {}).saveToBytes {}).answer = .ok bytes ∧
      Record.decode 256 bytes = .ok d ∧
      let t := hindered [] bytes
      let o := saveSlot 1 { day := 2 } (.start {}) t
      t.IsTree ∧ (∃ e, o.answer = .error e) ∧
        (loadSlot 1 t (.start {})).Restores (.start {}) d.record ∧
        (loadSlot 1 o.state.2 (.start {})).answer =
          .error (.backupUnreadable (.stream .endOfInput) (.stream .endOfInput)) := by
  have hstart : Reachable {} (Game.start {}) := .start
  have hlimit : (Game.start {}).settings.maxDescriptionLength = 256 := rfl
  generalize Game.start {} = g at hstart hlimit ⊢
  obtain ⟨bytes, d, hbytes, hdecode, -⟩ := hstart.saved rfl {}
  obtain ⟨new, -, hnew, -⟩ := hstart.saved rfl { day := 2 }
  refine ⟨bytes, d, hbytes, hdecode, ?_⟩
  intro t o
  have hlayout : t.HasLayout := hasLayout_hindered
  have hnone : t.lookup .sidecar 1 = (none : Option Bytes).map .file := lookup_hindered .sidecar
  have hempty : ∀ limit, Objection limit none [] (.stream .endOfInput) :=
    fun _ => .unreadable (agrees_none []) rfl
  obtain ⟨hfailed, hstate⟩ := saveSlot_of_pending (g := g) 1 { day := 2 }
    hlayout not_cannotKeep_hindered (lookup_hindered .pending) hnew
  refine ⟨isTree_hindered, hfailed, ?_, ?_⟩
  · exact comesTo_of_decision (readPresent_primary (hlayout .primary) (lookup_hindered .primary))
      (readPresent_of_sidecar hlayout hnone)
      (readPresent_backup (hlayout .backup) (lookup_hindered .backup))
      (.backup (hempty _) (hlimit ▸ hdecode))
  · have hcopied : (t.copied .primary .backup 1).HasLayout := hasLayout_copied.mpr hlayout
    have hprimary : (t.copied .primary .backup 1).lookup .primary 1 = some (.file []) := by
      rw [lookup_backedUp (by decide)]
      exact lookup_hindered .primary
    have hside : (t.copied .primary .backup 1).lookup .sidecar 1 =
        (none : Option Bytes).map .file := by
      rw [lookup_backedUp (by decide), hnone]
    have hbackup : (t.copied .primary .backup 1).lookup .backup 1 = some (.file []) :=
      lookup_copied_self (lookup_hindered .primary)
    have hload := comesTo_of_decision (g := g)
      (readPresent_primary (hcopied .primary) hprimary)
      (readPresent_of_sidecar hcopied hside)
      (readPresent_backup (hcopied .backup) hbackup)
      (.bothUnreadable (hempty _) rfl)
    rw [hstate]
    exact hload.1

end SaveDirectory

end Savegame
