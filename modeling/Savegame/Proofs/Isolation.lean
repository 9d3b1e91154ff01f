import Savegame.Proofs.Restoring

/-!
# Slots apart from each other

A call on the files of one slot leaves the files of all others alone, whether it succeeds or not,
and so does a list of calls. What a slot is loaded as depends on its own files only.
-/

namespace Savegame

namespace FileTree

variable {t u v : FileTree} {f g : SlotFile} {slot i : UInt16} {content : Bytes}

/-- Every entry but the root's own is in a directory. -/
def IsTree (t : FileTree) : Prop :=
  ∀ path name, path ≠ [] → t.entries.find? (path ++ [name]) ≠ none →
    t.entries.find? path = some .directory

theorem isTree_empty : ({} : FileTree).IsTree :=
  fun _ _ _ hentry => absurd rfl hentry

theorem IsTree.withDirectory (ht : t.IsTree) (name : String) : (t.withDirectory name).IsTree := by
  intro path last hpath hentry
  rw [FileTree.withDirectory] at hentry ⊢
  split at hentry
  case h_1 hnone =>
    have hne : [name] ≠ path ++ [last] := by
      intro heq
      have hlength := congrArg List.length heq
      rw [List.length_append, List.length_singleton, List.length_singleton] at hlength
      exact hpath (List.length_eq_zero_iff.mp (by omega))
    rw [find?_set, if_neg hne] at hentry
    have hdirectory := ht path last hpath hentry
    rw [find?_set]
    split
    · rfl
    · exact hdirectory
  case h_2 => exact ht path last hpath hentry

theorem IsTree.put (ht : t.IsTree) (h : t.HasDirectory f.directory)
    (hfree : t.lookup f slot ≠ some .directory) (content : Bytes) :
    (t.put f slot content).IsTree := by
  intro path last hpath hentry
  unfold FileTree.put at hentry ⊢
  rw [find?_set] at hentry ⊢
  have hdirectory : t.entries.find? path = some .directory := by
    split at hentry
    case isTrue hown =>
      have hfront : [f.directory] = path := by
        simpa [SlotFile.path] using congrArg List.dropLast hown
      rw [← hfront]
      exact h
    case isFalse => exact ht path last hpath hentry
  rw [if_neg]
  · exact hdirectory
  · rintro rfl
    exact hfree hdirectory

/-- The files of a slot are the same in both trees. A directory of theirs may have been made. -/
structure Spares (slot : UInt16) (t u : FileTree) : Prop where
  lookup : ∀ f : SlotFile, u.lookup f slot = t.lookup f slot
  directory : ∀ f : SlotFile, u.entries.find? [f.directory] = t.entries.find? [f.directory] ∨
    t.entries.find? [f.directory] = none ∧ u.HasDirectory f.directory

namespace Spares

theorem refl (slot : UInt16) (t : FileTree) : Spares slot t t :=
  ⟨fun _ => rfl, fun _ => .inl rfl⟩

theorem trans (htu : Spares slot t u) (huv : Spares slot u v) : Spares slot t v := by
  refine ⟨fun f => (huv.lookup f).trans (htu.lookup f), fun f => ?_⟩
  rcases huv.directory f with hsame | ⟨hnone, hmade⟩
  · unfold HasDirectory
    rw [hsame]
    exact htu.directory f
  · rcases htu.directory f with hsame | ⟨-, hdirectory⟩
    · exact .inr ⟨hsame ▸ hnone, hmade⟩
    · rw [HasDirectory, hnone] at hdirectory
      cases hdirectory

theorem put (hne : i ≠ slot) (t : FileTree) (f : SlotFile) (content : Bytes) :
    Spares slot t (t.put f i content) := by
  refine ⟨fun g => ?_, fun g => .inl find?_name_put⟩
  rw [lookup_put, if_neg fun h => hne h.2]

theorem drop (hne : i ≠ slot) (t : FileTree) (f : SlotFile) : Spares slot t (t.drop f i) := by
  refine ⟨fun g => ?_, fun g => .inl find?_name_drop⟩
  rw [lookup_drop, if_neg fun h => hne h.2]

theorem withDirectory (t : FileTree) (name : String) : Spares slot t (t.withDirectory name) := by
  refine ⟨fun f => lookup_withDirectory, fun f => ?_⟩
  by_cases hne : name = f.directory
  · subst hne
    cases hentry : t.entries.find? [f.directory] with
    | none => exact .inr ⟨rfl, hasDirectory_withDirectory (by simp [hentry])⟩
    | some entry =>
      left
      rw [FileTree.withDirectory, hentry]
      exact hentry
  · exact .inl (find?_withDirectory_of_ne hne)

/-- A file is read alike, also where its directory was missing and was made. -/
theorem read_eq (h : Spares slot t u) (ht : t.IsTree) (f : SlotFile) :
    u.read (f.location slot) = t.read (f.location slot) := by
  rcases h.directory f with hsame | ⟨hnone, hmade⟩
  · rw [FileTree.read, FileTree.read, place_location_eq, place_location_eq, hsame, h.lookup]
  · have hempty : t.lookup f slot = none := by
      by_contra hfile
      have hdirectory := ht [f.directory] (f.name slot) (by simp) hfile
      rw [hnone] at hdirectory
      cases hdirectory
    rw [read_location hmade, h.lookup, hempty, FileTree.read, place_location_eq, hnone]
    rfl

end Spares

end FileTree

namespace Call

open FileTree

variable {t u : FileTree} {slot : UInt16} {call : Call} {calls rest : List Call}

/-- The calls on directories of the slots, and on files of other slots than one. -/
inductive Avoids (slot : UInt16) : Call → Prop
  | makeDirectories (f : SlotFile) : Avoids slot (.makeDirectories ⟨[f.directory]⟩)
  | backUp {i : UInt16} (hne : i ≠ slot) (f g : SlotFile) :
    Avoids slot (.backUp (f.location i) (g.location i))
  | write {i : UInt16} (hne : i ≠ slot) (f : SlotFile) (content : Bytes) :
    Avoids slot (.write (f.location i) content)
  | clear {i : UInt16} (hne : i ≠ slot) (f : SlotFile) : Avoids slot (.clear (f.location i))
  | move {i : UInt16} (hne : i ≠ slot) (f g : SlotFile) :
    Avoids slot (.move (f.location i) (g.location i))

theorem Settles.spares {blocked : Prop} {o : Outcome FileTree Unit}
    (h : Settles t u blocked o) (hdone : Spares slot t u) : Spares slot t o.state := by
  cases h with
  | done => exact hdone
  | blocked => exact .refl slot t

theorem spares_settle {result : Except StreamFault FileTree}
    (h : ∀ u, result = .ok u → Spares slot t u) : Spares slot t (settle t result).state := by
  cases result with
  | ok u => exact h u rfl
  | error e => exact .refl slot t

theorem spares_run (h : call.Avoids slot) (t : FileTree) : Spares slot t (run t call).state := by
  cases h with
  | makeDirectories f =>
    exact (settles_makeDirectories f.isName_directory).spares (.withDirectory t f.directory)
  | backUp hne f g =>
    rw [run]
    split
    · apply spares_settle
      intro u hcopy
      obtain ⟨content, rfl⟩ := eq_put_of_copy hcopy
      exact .put hne t g content
    · exact .refl slot t
  | write hne f content =>
    apply spares_settle
    intro u hwrite
    rw [eq_put_of_write (ok_of_mapError hwrite)]
    exact .put hne t f content
  | clear hne f =>
    rw [run]
    split
    · apply spares_settle
      intro u hremove
      rw [eq_drop_of_remove (ok_of_mapError hremove)]
      exact .drop hne t f
    · exact .refl slot t
  | move hne f g =>
    apply spares_settle
    intro u hmove
    obtain ⟨content, rfl⟩ := eq_put_of_move (ok_of_mapError hmove)
    exact (Spares.drop hne t f).trans (.put hne _ g content)

/-- Calls that avoid a slot spare it, up to the last or up to the first that fails. -/
theorem spares_runAll (h : ∀ call ∈ calls, call.Avoids slot) (t : FileTree) :
    Spares slot t (runAll t calls).state := by
  induction calls generalizing t with
  | nil => exact .refl slot t
  | cons call rest ih =>
    obtain ⟨hcall, hrest⟩ := List.forall_mem_cons.mp h
    have hfirst := spares_run hcall t
    unfold runAll Outcome.andThen
    cases (run t call).answer with
    | error e => exact hfirst
    | ok _ => exact hfirst.trans (ih hrest _)

end Call

namespace SaveDirectory

open FileTree Call

variable {t u : FileTree} {slot i : UInt16}

theorem avoids_layoutCalls (slot : UInt16) : ∀ call ∈ layoutCalls, call.Avoids slot := by
  unfold layoutCalls
  rw [List.forall_mem_cons, List.forall_mem_singleton]
  exact ⟨.makeDirectories .primary, .makeDirectories .sidecar⟩

theorem avoids_slotCalls (hne : i ≠ slot) (g : Game) (bytes : Bytes) :
    ∀ call ∈ slotCalls i g bytes, call.Avoids slot := by
  rw [slotCalls, replace_primary_eq, replace_sidecar_eq]
  simp only [List.forall_mem_append, List.forall_mem_cons]
  refine ⟨⟨⟨.makeDirectories .primary, .backUp hne .primary .backup, nofun⟩, ?_⟩,
    ⟨.makeDirectories .sidecar, nofun⟩, ?_⟩
  · exact ⟨.write hne .pending bytes, .clear hne .primary, .move hne .pending .primary, nofun⟩
  · exact ⟨.write hne .pendingSidecar _, .clear hne .sidecar,
      .move hne .pendingSidecar .sidecar, nofun⟩

theorem avoids_saveCalls (hne : i ≠ slot) (date : Date) (g : Game) :
    ∀ call ∈ saveCalls i date g, call.Avoids slot := by
  unfold saveCalls
  dsimp only
  split
  · exact List.forall_mem_append.mpr ⟨avoids_layoutCalls slot, avoids_slotCalls hne _ _⟩
  · exact avoids_layoutCalls slot

theorem avoids_removeCalls (hne : i ≠ slot) :
    ∀ call ∈ [Call.clear (backupLocation i), .clear (slotLocation i), .clear (sidecarLocation i)],
      call.Avoids slot := by
  rw [backupLocation_eq, slotLocation_eq, sidecarLocation_eq]
  simp only [List.forall_mem_cons]
  exact ⟨.clear hne .backup, .clear hne .primary, .clear hne .sidecar, nofun⟩

theorem readPresent_of_spares (h : Spares slot t u) (ht : t.IsTree) (f : SlotFile) :
    readPresent u (f.location slot) = readPresent t (f.location slot) := by
  rw [readPresent, readPresent, h.read_eq ht]

theorem loadSlot_congr
    (hsame : ∀ f : SlotFile, readPresent u (f.location slot) = readPresent t (f.location slot))
    (g : Game) : loadSlot slot u g = loadSlot slot t g := by
  have hprimary := hsame .primary
  have hside := hsame .sidecar
  have hbackup := hsame .backup
  rw [← slotLocation_eq] at hprimary
  rw [← sidecarLocation_eq] at hside
  rw [← backupLocation_eq] at hbackup
  simp only [loadSlot, verify, loadBackup, hprimary, hside, hbackup]

/-- What is done with a slot. -/
inductive SlotAction where
  | save (date : Date) (g : Game)
  | load (g : Game)
  | remove

/-- The files after something was done with a slot, whether or not it succeeded. A load only reads
them. -/
def SlotAction.perform (slot : UInt16) (t : FileTree) : SlotAction → FileTree
  | save date g => (saveSlot slot date g t).state.2
  | load _ => t
  | remove => (removeSlot slot t).state

theorem spares_perform (hne : i ≠ slot) (t : FileTree) (action : SlotAction) :
    Spares slot t (action.perform i t) := by
  cases action with
  | save date g =>
    rw [SlotAction.perform, files_saveSlot]
    exact spares_runAll (avoids_saveCalls hne date g) t
  | load g => exact .refl slot t
  | remove => exact spares_runAll (avoids_removeCalls hne) t

/-- The files after things were done with slots, one after the other. -/
def performAll (t : FileTree) (actions : List (UInt16 × SlotAction)) : FileTree :=
  actions.foldl (fun t action => action.2.perform action.1 t) t

theorem spares_performAll {actions : List (UInt16 × SlotAction)}
    (h : ∀ action ∈ actions, action.1 ≠ slot) (t : FileTree) :
    Spares slot t (performAll t actions) := by
  induction actions generalizing t with
  | nil => exact .refl slot t
  | cons action rest ih =>
    obtain ⟨hne, hrest⟩ := List.forall_mem_cons.mp h
    exact (spares_perform hne t action.2).trans (ih hrest _)

/-- Whatever is done with other slots, and whether it succeeds or not: the files of a slot stay as
they are. In a tree they are also read as before, and loaded as before into every game. -/
theorem slot_isolated (t : FileTree) (slot : UInt16) (actions : List (UInt16 × SlotAction))
    (h : ∀ action ∈ actions, action.1 ≠ slot) :
    let u := performAll t actions
    (∀ f : SlotFile, u.lookup f slot = t.lookup f slot) ∧
      (t.IsTree → (∀ f : SlotFile, u.read (f.location slot) = t.read (f.location slot)) ∧
        ∀ g, loadSlot slot u g = loadSlot slot t g) := by
  intro u
  have hspares := spares_performAll h t
  refine ⟨hspares.lookup, fun ht => ⟨hspares.read_eq ht, fun g => loadSlot_congr ?_ g⟩⟩
  exact readPresent_of_spares hspares ht

/-- A directory with one file, while slots with fewer digits are saved, loaded and removed. -/
theorem slot_isolated_of_longer :
    let t := (({} : FileTree).withDirectory "slots").put .primary 1000 [1, 2, 3]
    let actions : List (UInt16 × SlotAction) :=
      [(1, .save {} (.start {})), (10, .load (.start {})), (100, .remove)]
    (∀ action ∈ actions, action.1 ≠ 1000) ∧ t.IsTree ∧
      (performAll t actions).lookup .primary 1000 = some (.file [1, 2, 3]) ∧
      ∀ g, loadSlot 1000 (performAll t actions) g = loadSlot 1000 t g := by
  intro t actions
  have hactions : ∀ action ∈ actions, action.1 ≠ 1000 := by
    simp only [actions, List.forall_mem_cons]
    exact ⟨by decide, by decide, by decide, nofun⟩
  have hslots : (({} : FileTree).withDirectory "slots").HasDirectory "slots" := rfl
  have ht : t.IsTree := by
    apply (isTree_empty.withDirectory "slots").put (f := .primary) hslots
    rw [lookup_withDirectory]
    exact nofun
  obtain ⟨hlookup, hsame⟩ := slot_isolated t 1000 actions hactions
  have hfile : t.lookup .primary 1000 = some (.file [1, 2, 3]) := by
    rw [lookup_put, if_pos ⟨rfl, rfl⟩]
  exact ⟨hactions, ht, (hlookup .primary).trans hfile, (hsame ht).2⟩

end SaveDirectory

end Savegame
