import Savegame.Proofs.Keys
import Savegame.Proofs.Replacement
import Savegame.Proofs.Sidecar

/-!
# Listing the slots

Where the tree holds the files of slots and nothing else, a listing has one entry for each slot with
a sidecar.
-/

namespace Savegame

namespace FileTree

variable {t : FileTree} {f g : SlotFile} {slot : UInt16} {name : String}

/-- A tree of the two directories and of files of slots, each in its place. -/
structure IsTidy (t : FileTree) : Prop where
  ascending : t.entries.IsAscending
  own : ∀ path, t.entries.find? path ≠ none →
    ∃ f : SlotFile, path = [f.directory] ∨ ∃ slot, path = f.path slot

theorem isTidy_empty : ({} : FileTree).IsTidy :=
  ⟨.nil, fun _ hpath => absurd rfl hpath⟩

namespace IsTidy

theorem set (h : t.IsTidy) {path : Path} (entry : Entry)
    (hpath : ∃ f : SlotFile, path = [f.directory] ∨ ∃ slot, path = f.path slot) :
    (t.set path entry).IsTidy := by
  refine ⟨h.ascending.insert path entry, fun other hother => ?_⟩
  rw [FileTree.set, Dictionary.find?_insert] at hother
  split at hother
  case isTrue heq => exact heq ▸ hpath
  case isFalse => exact h.own other hother

theorem put (h : t.IsTidy) (f : SlotFile) (slot : UInt16) (content : Bytes) :
    (t.put f slot content).IsTidy :=
  h.set (.file content) ⟨f, .inr ⟨slot, rfl⟩⟩

theorem drop (h : t.IsTidy) (f : SlotFile) (slot : UInt16) : (t.drop f slot).IsTidy := by
  refine ⟨h.ascending.erase _, fun path hpath => ?_⟩
  rw [FileTree.drop, Dictionary.find?_erase] at hpath
  split at hpath
  case isTrue => exact absurd rfl hpath
  case isFalse => exact h.own path hpath

theorem withDirectory (h : t.IsTidy) (f : SlotFile) : (t.withDirectory f.directory).IsTidy := by
  rw [FileTree.withDirectory]
  split
  · exact h.set .directory ⟨f, .inl rfl⟩
  · exact h

theorem laidOut (h : t.IsTidy) : t.laidOut.IsTidy :=
  (h.withDirectory .primary).withDirectory .sidecar

theorem replaced (h : t.IsTidy) (f p : SlotFile) (slot : UInt16) (content : Bytes) :
    (t.replaced f p slot content).IsTidy :=
  (((h.put p slot content).drop f slot).drop p slot).put f slot content

theorem copied (h : t.IsTidy) (f g : SlotFile) (slot : UInt16) : (t.copied f g slot).IsTidy := by
  rw [FileTree.copied]
  split
  · exact h.put g slot _
  · exact h

theorem saved (h : t.IsTidy) (slot : UInt16) (bytes preview : Bytes) :
    (t.saved slot bytes preview).IsTidy :=
  ((h.copied .primary .backup slot).replaced .primary .pending slot bytes).replaced .sidecar
    .pendingSidecar slot preview

end IsTidy

theorem mem_children_iff {directory : String} :
    name ∈ t.children [directory] ↔ t.entries.find? [directory, name] ≠ none := by
  rw [children, List.mem_filterMap, ← Dictionary.mem_keys_iff]
  constructor
  · rintro ⟨path, hpath, hname⟩
    split at hname
    case isTrue hdirectory =>
      have hne : path ≠ [] := by
        rintro rfl
        cases hname
      have hsplit := List.dropLast_append_getLast? name hname
      rw [hdirectory, List.singleton_append] at hsplit
      rwa [hsplit]
    case isFalse => cases hname
  · intro hpath
    exact ⟨_, hpath, by simp⟩

theorem nodup_children (h : t.IsTidy) (directory : Path) : (t.children directory).Nodup := by
  refine h.ascending.nodup.filterMap fun path other name hname hother => ?_
  rw [Option.mem_def] at hname hother
  split at hname
  case isFalse => cases hname
  case isTrue hpath =>
    split at hother
    case isFalse => cases hother
    case isTrue hsame =>
      rw [← List.dropLast_append_getLast? name hname,
        ← List.dropLast_append_getLast? name hother, hpath, hsame]

end FileTree

namespace SaveDirectory

open FileTree

variable {t : FileTree} {slot : UInt16} {m : SlotMetadata}

/-- What a listing shows of a slot. -/
structure Listed (t : FileTree) (slot : UInt16) (m : SlotMetadata) : Prop where
  sidecar : ∃ raw, t.lookup .sidecar slot = some (.file raw) ∧ SlotMetadata.ofBytes? raw = some m
  number : m.slot = slot
  primary : (t.lookup .primary slot).isSome

theorem Listed.unique {other : SlotMetadata} (h : Listed t slot m) (hother : Listed t slot other) :
    m = other := by
  obtain ⟨raw, hraw, hm⟩ := h.sidecar
  obtain ⟨found, hfound, hothers⟩ := hother.sidecar
  rw [hraw, Option.some.injEq, Entry.file.injEq] at hfound
  subst hfound
  exact Option.some.inj (hm.symm.trans hothers)

theorem listed_laidOut : Listed t.laidOut slot m ↔ Listed t slot m := by
  refine ⟨fun h => ⟨?_, h.number, ?_⟩, fun h => ⟨?_, h.number, ?_⟩⟩
  · exact lookup_laidOut (t := t) (g := .sidecar) ▸ h.sidecar
  · exact lookup_laidOut (t := t) (g := .primary) ▸ h.primary
  · rw [lookup_laidOut]
    exact h.sidecar
  · rw [lookup_laidOut]
    exact h.primary

theorem entriesOf_cons (ht : t.HasLayout) (h : Listed t slot m) (names : List String) :
    (entriesOf t (SlotFile.sidecar.name slot :: names)).answer =
      (entriesOf t names).answer.map fun entries => ⟨m, slotLocation slot⟩ :: entries := by
  obtain ⟨raw, hraw, hm⟩ := h.sidecar
  have hjoin : metaDirectory.join (SlotFile.sidecar.name slot) = SlotFile.sidecar.location slot :=
    SlotFile.location_eq_join .sidecar slot
  have hread : t.read (SlotFile.sidecar.location slot) = .ok raw := by
    rw [read_location (ht _), hraw]
  have hpresent : t.isPresent (slotLocation slot) = true := by
    rw [slotLocation_eq, isPresent_location (ht _)]
    exact h.primary
  rw [entriesOf, if_neg (not_not.mpr (SlotFile.extension?_sidecar slot)), hjoin, hread]
  simp only [hm, h.number, hpresent, if_true]

theorem entriesOf_map (ht : t.HasLayout) {slots : List UInt16}
    (h : ∀ slot ∈ slots, ∃ m, Listed t slot m) :
    ∃ entries, (entriesOf t (slots.map SlotFile.sidecar.name)).answer = .ok entries ∧
      entries.map (·.metadata.slot) = slots ∧
      ∀ entry ∈ entries, Listed t entry.metadata.slot entry.metadata ∧
        entry.location = slotLocation entry.metadata.slot := by
  induction slots with
  | nil => exact ⟨[], rfl, rfl, nofun⟩
  | cons slot rest ih =>
    obtain ⟨⟨m, hm⟩, hrest⟩ := List.forall_mem_cons.mp h
    obtain ⟨entries, hanswer, hslots, hentries⟩ := ih hrest
    refine ⟨⟨m, slotLocation slot⟩ :: entries, ?_, ?_, ?_⟩
    · rw [List.map_cons, entriesOf_cons ht hm, hanswer]
      rfl
    · rw [List.map_cons, hslots, hm.number]
    · refine List.forall_mem_cons.mpr ⟨?_, hentries⟩
      rw [hm.number]
      exact ⟨hm, rfl⟩

theorem newestFirst_perm (entries : List SlotEntry) : (newestFirst entries).Perm entries :=
  List.mergeSort_perm _ _

/-- The children of the directory of the sidecars are the sidecars. -/
theorem exists_slots (htidy : t.IsTidy)
    (hpending : ∀ slot, t.lookup .pendingSidecar slot = none) :
    ∃ slots : List UInt16, slots.map SlotFile.sidecar.name = t.children ["meta"] ∧
      slots.Nodup ∧ ∀ slot, slot ∈ slots ↔ t.lookup .sidecar slot ≠ none := by
  have hnames : ∀ name ∈ t.children ["meta"], name ∈ Set.range SlotFile.sidecar.name := by
    intro name hname
    obtain ⟨f, hpath⟩ := htidy.own _ (mem_children_iff.mp hname)
    rcases hpath with hpath | ⟨slot, hpath⟩
    · exact absurd (congrArg List.length hpath) (by simp)
    · rw [mem_children_iff, hpath] at hname
      cases f with
      | sidecar => exact ⟨slot, (List.cons.inj (List.cons.inj hpath).2).1.symm⟩
      | pendingSidecar => exact absurd (hpending slot) hname
      | _ => exact absurd (List.cons.inj hpath).1 (by decide)
  obtain ⟨slots, hslots⟩ : t.children ["meta"] ∈ Set.range (List.map SlotFile.sidecar.name) := by
    rw [Set.range_list_map]
    exact hnames
  refine ⟨slots, hslots, ?_, fun slot => ?_⟩
  · have hnodup := nodup_children htidy ["meta"]
    rw [← hslots] at hnodup
    exact hnodup.of_map
  · rw [← List.mem_map_of_injective SlotFile.sidecar.name_injective, hslots, mem_children_iff]
    rfl

theorem state_listSlots (hadmits : t.AdmitsLayout) : (listSlots t).state = t.laidOut := by
  rw [listSlots, ensureLayout_eq hadmits]
  rfl

theorem filter_key_of_nodup {α β : Type} [DecidableEq β] {l : List α} {key : α → β}
    (hnodup : (l.map key).Nodup) {k : β} {found : Option α}
    (h : ∀ x, x ∈ l ∧ key x = k ↔ found = some x) : l.filter (key · = k) = found.toList := by
  have hmem : ∀ x, x ∈ l.filter (key · = k) ↔ found = some x := by
    intro x
    rw [List.mem_filter, decide_eq_true_eq]
    exact h x
  cases found with
  | none => exact List.eq_nil_iff_forall_not_mem.mpr fun x hx =>
    (Option.some_ne_none x).symm ((hmem x).mp hx)
  | some y =>
    have hfiltered : (l.filter (key · = k)).Nodup := hnodup.of_map.filter _
    refine List.perm_singleton.mp
      ((List.perm_ext_iff_of_nodup hfiltered (List.nodup_singleton y)).mpr fun x => ?_)
    rw [hmem, List.mem_singleton, Option.some.injEq, eq_comm]

/-- A listing that comes upon the sidecars in an order of its own. -/
def listEnumerated (enumerate : FileTree → List String) (t : FileTree) :
    Outcome FileTree (List SlotEntry) :=
  (ensureLayout t).andThen fun _ t =>
    let found := entriesOf t (enumerate t)
    ⟨found.answer.map newestFirst, t, found.events⟩

theorem listSlots_eq (t : FileTree) : listSlots t = listEnumerated (·.children ["meta"]) t :=
  rfl

theorem exists_slots_of_perm (htidy : t.IsTidy)
    (hpending : ∀ slot, t.lookup .pendingSidecar slot = none) {names : List String}
    (hperm : names.Perm (t.children ["meta"])) :
    ∃ slots : List UInt16, slots.map SlotFile.sidecar.name = names ∧ slots.Nodup ∧
      ∀ slot, slot ∈ slots ↔ t.lookup .sidecar slot ≠ none := by
  obtain ⟨found, hfound, hnodup, hmem⟩ := exists_slots htidy hpending
  rw [← hfound] at hperm
  obtain ⟨slots, rfl⟩ : names ∈ Set.range (List.map SlotFile.sidecar.name) := by
    rw [Set.range_list_map]
    intro name hname
    obtain ⟨slot, -, rfl⟩ := List.mem_map.mp (hperm.mem_iff.mp hname)
    exact ⟨slot, rfl⟩
  have hslots : slots.Perm found :=
    (List.map_perm_map_iff SlotFile.sidecar.name_injective).mp hperm
  exact ⟨slots, rfl, hslots.nodup_iff.mpr hnodup, fun slot => hslots.mem_iff.trans (hmem slot)⟩

theorem pairwise_newestFirst (entries : List SlotEntry) :
    (newestFirst entries).Pairwise
      fun a b => b.metadata.savedAt.rank ≤ a.metadata.savedAt.rank := by
  let newer (a b : SlotEntry) : Bool := decide (b.metadata.savedAt.rank ≤ a.metadata.savedAt.rank)
  have htrans : ∀ a b c, newer a b = true → newer b c = true → newer a c = true := by
    simp only [newer, decide_eq_true_eq]
    omega
  have htotal : ∀ a b, (newer a b || newer b a) = true := by
    simp only [newer, Bool.or_eq_true, decide_eq_true_eq]
    omega
  have hsorted := List.pairwise_mergeSort htrans htotal entries
  simp only [newer, decide_eq_true_eq] at hsorted
  exact hsorted

/-- A listing sorts what it finds: one entry for each slot with a sidecar, in the order in which the
sidecars are found. -/
theorem listEnumerated_eq_newestFirst (hadmits : t.AdmitsLayout) (htidy : t.IsTidy)
    (hpending : ∀ slot, t.lookup .pendingSidecar slot = none)
    (hlisted : ∀ slot, t.lookup .sidecar slot ≠ none → ∃ m, Listed t slot m)
    {enumerate : FileTree → List String}
    (henumerate : ∀ t, (enumerate t).Perm (t.children ["meta"])) :
    ∃ found, (listEnumerated enumerate t).answer = .ok (newestFirst found) ∧
      (found.map (·.metadata.slot)).map SlotFile.sidecar.name = enumerate t.laidOut ∧
      (found.map (·.metadata.slot)).Nodup ∧
      (∀ slot, slot ∈ found.map (·.metadata.slot) ↔ t.lookup .sidecar slot ≠ none) ∧
      ∀ entry ∈ found, Listed t entry.metadata.slot entry.metadata ∧
        entry.location = slotLocation entry.metadata.slot := by
  have hnone : ∀ slot, t.laidOut.lookup .pendingSidecar slot = none := by
    intro slot
    rw [lookup_laidOut]
    exact hpending slot
  obtain ⟨slots, hslots, hnodup, hmem⟩ :=
    exists_slots_of_perm htidy.laidOut hnone (henumerate t.laidOut)
  simp only [lookup_laidOut] at hmem
  have hlaid : ∀ slot ∈ slots, ∃ m, Listed t.laidOut slot m := by
    intro slot hslot
    simp only [listed_laidOut]
    exact hlisted slot ((hmem slot).mp hslot)
  obtain ⟨found, hfound, rfl, hentries⟩ := entriesOf_map (hasLayout_laidOut hadmits) hlaid
  simp only [listed_laidOut] at hentries
  refine ⟨found, ?_, hslots, hnodup, hmem, hentries⟩
  rw [hslots] at hfound
  rw [listEnumerated, ensureLayout_eq hadmits, Outcome.andThen]
  simp only [hfound]
  rfl

/-- A listing has one entry for each slot with a sidecar, and the latest dates come first. -/
theorem answer_listEnumerated (hadmits : t.AdmitsLayout) (htidy : t.IsTidy)
    (hpending : ∀ slot, t.lookup .pendingSidecar slot = none)
    (hlisted : ∀ slot, t.lookup .sidecar slot ≠ none → ∃ m, Listed t slot m)
    {enumerate : FileTree → List String}
    (henumerate : ∀ t, (enumerate t).Perm (t.children ["meta"])) :
    ∃ entries, (listEnumerated enumerate t).answer = .ok entries ∧
      (entries.map (·.metadata.slot)).Nodup ∧
      (entries.Pairwise fun a b => b.metadata.savedAt.rank ≤ a.metadata.savedAt.rank) ∧
      ∀ entry, entry ∈ entries ↔ Listed t entry.metadata.slot entry.metadata ∧
        entry.location = slotLocation entry.metadata.slot := by
  obtain ⟨found, hanswer, -, hnodup, hmem, hentries⟩ :=
    listEnumerated_eq_newestFirst hadmits htidy hpending hlisted henumerate
  have hperm := newestFirst_perm found
  refine ⟨newestFirst found, hanswer, ?_, pairwise_newestFirst found, fun entry => ?_⟩
  · rw [(hperm.map _).nodup_iff]
    exact hnodup
  · rw [hperm.mem_iff]
    refine ⟨hentries entry, ?_⟩
    rintro ⟨hentry, hlocation⟩
    obtain ⟨raw, hraw, -⟩ := hentry.sidecar
    have hslot : entry.metadata.slot ∈ found.map (·.metadata.slot) := by
      rw [hmem, hraw]
      exact Option.some_ne_none _
    obtain ⟨other, hother, hsame⟩ := List.mem_map.mp hslot
    obtain ⟨hothers, hlocations⟩ := hentries other hother
    rw [hsame] at hothers hlocations
    have heq : entry = other :=
      SlotEntry.ext (hentry.unique hothers) (hlocation.trans hlocations.symm)
    exact heq ▸ hother

theorem answer_listSlots (hadmits : t.AdmitsLayout) (htidy : t.IsTidy)
    (hpending : ∀ slot, t.lookup .pendingSidecar slot = none)
    (hlisted : ∀ slot, t.lookup .sidecar slot ≠ none → ∃ m, Listed t slot m) :
    ∃ entries, (listSlots t).answer = .ok entries ∧ (entries.map (·.metadata.slot)).Nodup ∧
      ∀ entry, entry ∈ entries ↔ Listed t entry.metadata.slot entry.metadata ∧
        entry.location = slotLocation entry.metadata.slot := by
  obtain ⟨entries, hanswer, hnodup, -, hmem⟩ :=
    answer_listEnumerated hadmits htidy hpending hlisted fun t => .refl (t.children ["meta"])
  rw [← listSlots_eq] at hanswer
  exact ⟨entries, hanswer, hnodup, hmem⟩

end SaveDirectory

end Savegame
