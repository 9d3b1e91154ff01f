import Savegame.Proofs.SlotStore

/-!
# The newest first

A listing sorts the slots by the dates in their sidecars. As long as the dates of saves never go
back, that is the order of the saves turned around, up to slots that were saved at the same date.
-/

namespace Savegame

theorem Date.rank_injective : Function.Injective Date.rank := by
  rintro ⟨⟩ ⟨⟩ h
  simp only [rank] at h
  simp only [mk.injEq, ← UInt8.toNat_inj, ← UInt16.toNat_inj]
  grind [UInt8.toNat_lt]

namespace SaveDirectory

open FileTree

/-- The files, and beside them the entries that the last saves of the slots answered with, the last
save first. -/
structure SaveLog where
  files : FileTree := {}
  latest : List SlotEntry := []

def StoreCall.reading? : StoreCall → Option Date
  | save _ date _ => some date
  | load _ _ | remove _ | list => none

def readings (calls : List StoreCall) : List Date :=
  calls.filterMap StoreCall.reading?

/-- The dates of the saves never go back. -/
def InOrder (calls : List StoreCall) : Prop :=
  (readings calls).Pairwise fun earlier later => earlier.rank ≤ later.rank

/-- What a save puts out has a length that a word of 64 bits can say. -/
def StoreCall.IsSized : StoreCall → Prop
  | save _ date g => ∀ bytes, (g.saveToBytes date).answer = .ok bytes → bytes.length < 2 ^ 64
  | load _ _ | remove _ | list => True

namespace SaveLog

/-- The log after a call. A save puts its slot in front, and a removal takes it out. -/
def step (s : SaveLog) : StoreCall → SaveLog
  | .save slot date g =>
    let o := saveSlot slot date g s.files
    match o.answer with
    | .ok entry => ⟨o.state.2, entry :: s.latest.filter (·.metadata.slot ≠ slot)⟩
    | .error _ => { s with files := o.state.2 }
  | .load _ _ => s
  | .remove slot =>
    let o := removeSlot slot s.files
    match o.answer with
    | .ok () => ⟨o.state, s.latest.filter (·.metadata.slot ≠ slot)⟩
    | .error _ => { s with files := o.state }
  | .list => { s with files := (listSlots s.files).state }

def run (calls : List StoreCall) : SaveLog :=
  calls.foldl step {}

/-- A log that says of its files what a listing finds in them. -/
structure IsSound (dates : List Date) (s : SaveLog) : Prop where
  layout : s.files = {} ∨ s.files.HasLayout
  tidy : s.files.IsTidy
  clear : ∀ slot, s.files.IsClear slot
  pending : ∀ slot, s.files.lookup .pendingSidecar slot = none
  sidecar : ∀ slot, s.files.lookup .sidecar slot ≠ none → ∃ m, Listed s.files slot m
  listed : ∀ entry, entry ∈ s.latest ↔ Listed s.files entry.metadata.slot entry.metadata ∧
    entry.location = slotLocation entry.metadata.slot
  nodup : (s.latest.map (·.metadata.slot)).Nodup
  dated : ∀ entry ∈ s.latest, entry.metadata.savedAt ∈ dates
  ordered : s.latest.Pairwise fun a b => b.metadata.savedAt.rank ≤ a.metadata.savedAt.rank

end SaveLog

variable {t u : FileTree} {slot i : UInt16} {m n : SlotMetadata} {bytes : Bytes} {date : Date}
  {g : Game} {dates : List Date} {s : SaveLog} {calls : List StoreCall}

theorem listed_congr (hside : u.lookup .sidecar slot = t.lookup .sidecar slot)
    (hprimary : u.lookup .primary slot = t.lookup .primary slot) :
    Listed u slot m ↔ Listed t slot m := by
  constructor
  · intro h
    exact ⟨hside ▸ h.sidecar, h.number, hprimary ▸ h.primary⟩
  · intro h
    refine ⟨?_, h.number, ?_⟩
    · rw [hside]
      exact h.sidecar
    · rw [hprimary]
      exact h.primary

/-- The slot that was saved is listed with the preview that was made. -/
theorem listed_saved_self {preview : Bytes} (hm : SlotMetadata.ofBytes? preview = some m)
    (hslot : m.slot = slot) : Listed (t.saved slot bytes preview) slot n ↔ n = m := by
  have hself : Listed (t.saved slot bytes preview) slot m :=
    ⟨⟨preview, lookup_saved_sidecar, hm⟩, hslot, by rw [lookup_saved_primary]; rfl⟩
  constructor
  · intro h
    exact h.unique hself
  · rintro rfl
    exact hself

theorem listed_saved_of_ne {preview : Bytes} (h : slot ≠ i) :
    Listed (t.saved slot bytes preview) i m ↔ Listed t i m :=
  listed_congr (lookup_saved_of_ne h) (lookup_saved_of_ne h)

theorem not_listed_cleared : ¬ Listed (t.cleared slot) slot m := by
  intro h
  obtain ⟨raw, hraw, -⟩ := h.sidecar
  rw [lookup_cleared, if_pos ⟨.inr (.inr rfl), rfl⟩] at hraw
  cases hraw

theorem listed_cleared_of_ne (h : slot ≠ i) : Listed (t.cleared slot) i m ↔ Listed t i m := by
  apply listed_congr
  · rw [lookup_cleared, if_neg fun hself => h hself.2]
  · rw [lookup_cleared, if_neg fun hself => h hself.2]

namespace SaveLog.IsSound

theorem empty : IsSound [] {} where
  layout := .inl rfl
  tidy := isTidy_empty
  clear := isClear_empty
  pending _ := rfl
  sidecar _ h := absurd rfl h
  listed entry := by
    constructor
    · intro h
      cases h
    · rintro ⟨h, -⟩
      obtain ⟨raw, hraw, -⟩ := h.sidecar
      cases hraw
  nodup := .nil
  dated _ h := by cases h
  ordered := .nil

theorem admitsLayout (hs : s.IsSound dates) : s.files.AdmitsLayout :=
  admitsLayout_of_layout hs.layout

theorem later (hs : s.IsSound dates) (more : List Date) : s.IsSound (dates ++ more) :=
  { hs with dated := fun entry hentry => List.mem_append_left more (hs.dated entry hentry) }

theorem laidOut (hs : s.IsSound dates) : IsSound dates ⟨s.files.laidOut, s.latest⟩ where
  layout := .inr (hasLayout_laidOut hs.admitsLayout)
  tidy := hs.tidy.laidOut
  clear slot := (hs.clear slot).laidOut
  pending slot := by rw [lookup_laidOut, hs.pending]
  sidecar slot h := by
    rw [lookup_laidOut] at h
    simp only [listed_laidOut]
    exact hs.sidecar slot h
  listed entry := by
    rw [listed_laidOut]
    exact hs.listed entry
  nodup := hs.nodup
  dated := hs.dated
  ordered := hs.ordered

/-- A slot is out of the list before it is put in front of it. -/
theorem mem_without {entry : SlotEntry} :
    entry ∈ s.latest.filter (·.metadata.slot ≠ slot) ↔
      entry ∈ s.latest ∧ entry.metadata.slot ≠ slot := by
  rw [List.mem_filter, decide_eq_true_eq]

theorem nodup_without (hs : s.IsSound dates) (slot : UInt16) :
    ((s.latest.filter (·.metadata.slot ≠ slot)).map (·.metadata.slot)).Nodup :=
  hs.nodup.sublist (List.filter_sublist.map _)

theorem saved (hs : s.IsSound dates) (hlayout : s.files.HasLayout) (bytes : Bytes)
    (hreadable : SlotMetadata.ofBytes? m.toBytes = some m)
    (hlast : ∀ earlier ∈ dates, earlier.rank ≤ m.savedAt.rank) :
    IsSound (dates ++ [m.savedAt])
      ⟨s.files.saved m.slot bytes m.toBytes,
        ⟨m, slotLocation m.slot⟩ :: s.latest.filter (·.metadata.slot ≠ m.slot)⟩ where
  layout := .inr (hasLayout_saved.mpr hlayout)
  tidy := hs.tidy.saved m.slot bytes _
  clear slot := (hs.clear slot).saved m.slot bytes _
  pending slot := by
    by_cases h : m.slot = slot
    · rw [h, lookup_saved_pendingSidecar]
    · rw [lookup_saved_of_ne h, hs.pending]
  sidecar slot h := by
    by_cases hslot : m.slot = slot
    · exact ⟨m, hslot ▸ (listed_saved_self hreadable rfl).mpr rfl⟩
    · simp only [listed_saved_of_ne hslot]
      rw [lookup_saved_of_ne hslot] at h
      exact hs.sidecar slot h
  listed entry := by
    rw [List.mem_cons, mem_without]
    by_cases hslot : m.slot = entry.metadata.slot
    · rw [← hslot, listed_saved_self hreadable rfl]
      constructor
      · rintro (rfl | ⟨-, hne⟩)
        · exact ⟨rfl, rfl⟩
        · exact absurd rfl hne
      · rintro ⟨hm, hlocation⟩
        exact .inl (SlotEntry.ext hm hlocation)
    · rw [listed_saved_of_ne hslot, ← hs.listed]
      constructor
      · rintro (rfl | ⟨hentry, -⟩)
        · exact absurd rfl hslot
        · exact hentry
      · intro hentry
        exact .inr ⟨hentry, fun h => hslot h.symm⟩
  nodup := by
    refine List.nodup_cons.mpr ⟨fun h => ?_, hs.nodup_without m.slot⟩
    obtain ⟨entry, hentry, hslot⟩ := List.mem_map.mp h
    exact (mem_without.mp hentry).2 hslot
  dated entry hentry := by
    rcases List.mem_cons.mp hentry with rfl | hrest
    · exact List.mem_append_right dates List.mem_cons_self
    · exact List.mem_append_left _ (hs.dated entry (mem_without.mp hrest).1)
  ordered := by
    refine List.pairwise_cons.mpr ⟨fun entry hentry => ?_, hs.ordered.filter _⟩
    exact hlast _ (hs.dated entry (mem_without.mp hentry).1)

theorem cleared (hs : s.IsSound dates) (slot : UInt16) :
    IsSound dates ⟨s.files.cleared slot, s.latest.filter (·.metadata.slot ≠ slot)⟩ where
  layout := layout_cleared hs.layout
  tidy := hs.tidy.cleared slot
  clear other f := by
    rw [lookup_cleared]
    split
    · simp
    · exact hs.clear other f
  pending other := by
    rw [lookup_cleared]
    split
    · rfl
    · exact hs.pending other
  sidecar other h := by
    by_cases hslot : slot = other
    · rw [hslot, lookup_cleared, if_pos ⟨.inr (.inr rfl), rfl⟩] at h
      exact absurd rfl h
    · simp only [listed_cleared_of_ne hslot]
      rw [lookup_cleared, if_neg fun hself => hslot hself.2] at h
      exact hs.sidecar other h
  listed entry := by
    rw [mem_without]
    by_cases hslot : slot = entry.metadata.slot
    · constructor
      · rintro ⟨-, hne⟩
        exact absurd hslot.symm hne
      · rintro ⟨hlisted, -⟩
        exact absurd (hslot ▸ hlisted) not_listed_cleared
    · rw [listed_cleared_of_ne hslot, ← hs.listed]
      exact and_iff_left fun h => hslot h.symm
  nodup := hs.nodup_without slot
  dated entry hentry := hs.dated entry (mem_without.mp hentry).1
  ordered := hs.ordered.filter _

end SaveLog.IsSound

namespace SaveLog

theorem step_save_of_ok (hs : s.IsSound dates) (hbytes : (g.saveToBytes date).answer = .ok bytes) :
    s.step (.save slot date g) =
      let m := SlotMetadata.of slot (g.saveToBytes date).state bytes
      ⟨s.files.laidOut.saved m.slot bytes m.toBytes,
        ⟨m, slotLocation m.slot⟩ :: s.latest.filter (·.metadata.slot ≠ m.slot)⟩ := by
  have hanswer := answer_saveSlot slot hs.admitsLayout (hs.clear slot) hbytes
  obtain ⟨-, -, hstate⟩ := saveSlot_of_bytes hbytes hanswer
  simp only [step, hanswer, hstate]
  rfl

theorem step_save_of_error {e : SaveError} (hs : s.IsSound dates)
    (hbytes : (g.saveToBytes date).answer = .error e) :
    s.step (.save slot date g) = ⟨s.files.laidOut, s.latest⟩ := by
  have hlayout := ensureLayout_eq hs.admitsLayout
  simp only [step, saveSlot, hlayout, withGame, Outcome.andThen, hbytes]

theorem savedAt_of_save (slot : UInt16) (date : Date) (g : Game) (bytes : Bytes) :
    (SlotMetadata.of slot (g.saveToBytes date).state bytes).savedAt = date := by
  rw [SlotMetadata.of, Game.saveToBytes, Game.save, Game.write]
  split <;> rfl

/-- Every call keeps the log true, as long as dates do not go back. -/
theorem isSound_step (hs : s.IsSound dates) {call : StoreCall} (hsized : call.IsSized)
    (hlast : ∀ date ∈ call.reading?, ∀ earlier ∈ dates, earlier.rank ≤ date.rank) :
    (s.step call).IsSound (dates ++ call.reading?.toList) := by
  cases call with
  | save slot date g =>
    cases hbytes : (g.saveToBytes date).answer with
    | error e =>
      rw [step_save_of_error hs hbytes]
      exact hs.laidOut.later _
    | ok bytes =>
      have hdate := savedAt_of_save slot date g bytes
      have hreadable : SlotMetadata.ofBytes?
          (SlotMetadata.of slot (g.saveToBytes date).state bytes).toBytes =
            some (SlotMetadata.of slot (g.saveToBytes date).state bytes) := by
        rw [SlotMetadata.ofBytes?_toBytes]
        exact if_pos (hsized bytes hbytes)
      have hlayout := hasLayout_laidOut hs.admitsLayout
      have hsaved := hs.laidOut.saved hlayout bytes hreadable (hdate.symm ▸ hlast date rfl)
      rw [hdate] at hsaved
      rw [step_save_of_ok hs hbytes]
      exact hsaved
  | load slot g => exact hs.later _
  | remove slot =>
    simp only [step, removeSlot_of_layout hs.layout (hs.clear slot)]
    exact (hs.cleared slot).later _
  | list =>
    simp only [step, state_listSlots hs.admitsLayout]
    exact hs.laidOut.later _

theorem readings_append (calls : List StoreCall) (call : StoreCall) :
    readings (calls ++ [call]) = readings calls ++ call.reading?.toList := by
  rw [readings, readings, List.filterMap_append]
  cases h : call.reading? <;> simp [h]

theorem run_append (calls : List StoreCall) (call : StoreCall) :
    run (calls ++ [call]) = (run calls).step call :=
  List.foldl_append

theorem isSound_run (horder : InOrder calls) (hsized : ∀ call ∈ calls, call.IsSized) :
    (run calls).IsSound (readings calls) := by
  induction calls using List.reverseRecOn with
  | nil => exact .empty
  | append_singleton calls call ih =>
    rw [InOrder, readings_append, List.pairwise_append] at horder
    obtain ⟨hbefore, -, hlast⟩ := horder
    obtain ⟨hsizes, hsize⟩ := List.forall_mem_append.mp hsized
    rw [readings_append, run_append]
    refine isSound_step (ih hbefore hsizes) (hsize call List.mem_cons_self) ?_
    intro date hdate earlier hearlier
    exact hlast earlier hearlier date (Option.mem_toList.mpr hdate)

theorem latest_run_save (calls : List StoreCall) (slot : UInt16) (horder : InOrder calls)
    (hsized : ∀ call ∈ calls, call.IsSized) (hbytes : (g.saveToBytes date).answer = .ok bytes) :
    (run (calls ++ [.save slot date g])).latest =
      .of slot (g.saveToBytes date).state bytes ::
        (run calls).latest.filter (·.metadata.slot ≠ slot) := by
  rw [run_append, step_save_of_ok (isSound_run horder hsized) hbytes]
  rfl

theorem IsSound.exists_listed (hs : s.IsSound dates) {enumerate : FileTree → List String}
    (henumerate : ∀ t, (enumerate t).Perm (t.children ["meta"])) :
    ∃ entries, (listEnumerated enumerate s.files).answer = .ok entries ∧ entries.Perm s.latest ∧
      entries.Pairwise fun a b => b.metadata.savedAt.rank ≤ a.metadata.savedAt.rank := by
  obtain ⟨entries, hanswer, hnodup, hsorted, hmem⟩ := answer_listEnumerated hs.admitsLayout hs.tidy
    hs.pending hs.sidecar henumerate
  refine ⟨entries, hanswer, ?_, hsorted⟩
  refine (List.perm_ext_iff_of_nodup hnodup.of_map hs.nodup.of_map).mpr fun entry => ?_
  exact (hmem entry).trans (hs.listed entry).symm

end SaveLog

open SaveLog

theorem eq_of_ordered {dates others : List Date}
    (hdates : dates.Pairwise fun a b => b.rank ≤ a.rank)
    (hothers : others.Pairwise fun a b => b.rank ≤ a.rank) (h : dates.Perm others) :
    dates = others := by
  refine h.eq_of_pairwise (fun a b _ _ hab hba => ?_) hdates hothers
  exact Date.rank_injective (Nat.le_antisymm hba hab)

/-- Over any calls from an empty directory on whose saves are in the order of their dates, a listing
has the slots that were not removed, and has them in the order of their last saves turned around.
Only slots with the same date may change places, and then it depends on the order in which their
sidecars are found. -/
theorem list_newest_first (horder : InOrder calls) (hsized : ∀ call ∈ calls, call.IsSized)
    {enumerate : FileTree → List String}
    (henumerate : ∀ t, (enumerate t).Perm (t.children ["meta"])) :
    let latest := (run calls).latest
    ∃ entries, (listEnumerated enumerate (run calls).files).answer = .ok entries ∧
      entries.Perm latest ∧
      entries.map (·.metadata.savedAt) = latest.map (·.metadata.savedAt) ∧
      ((latest.map (·.metadata.savedAt)).Nodup → entries = latest) := by
  intro latest
  have hs := isSound_run horder hsized
  obtain ⟨entries, hanswer, hperm, hsorted⟩ := hs.exists_listed henumerate
  refine ⟨entries, hanswer, hperm, ?_, fun hdistinct => ?_⟩
  · exact eq_of_ordered (List.pairwise_map.mpr hsorted) (List.pairwise_map.mpr hs.ordered)
      (hperm.map _)
  · refine hperm.eq_of_pairwise (fun a b ha hb hab hba => ?_) hsorted hs.ordered
    refine List.inj_on_of_nodup_map hdistinct (hperm.mem_iff.mp ha) hb ?_
    exact Date.rank_injective (Nat.le_antisymm hba hab)

theorem isSized_save (hg : Reachable {} g) (slot : UInt16) (date : Date) :
    (StoreCall.save slot date g).IsSized :=
  fun _ hbytes => (hg.saved_of_ok rfl hbytes).1

/-- Slot 1, saved once more after slot 2, comes first however the sidecars are found. -/
theorem list_newest_first_saved_again :
    let calls : List StoreCall := [.save 1 { day := 1 } (.start {}),
      .save 2 { day := 5 } (.start {}), .save 1 { day := 9 } (.start {})]
    let enumerate : FileTree → List String := fun t => (t.children ["meta"]).reverse
    (InOrder calls ∧ (∀ call ∈ calls, call.IsSized) ∧
        ∀ t, (enumerate t).Perm (t.children ["meta"])) ∧
      ∃ entries, (listEnumerated enumerate (run calls).files).answer = .ok entries ∧
        entries.map (·.metadata.slot) = [1, 2] := by
  have hstart : Reachable {} (Game.start {}) := .start
  generalize Game.start {} = g at hstart ⊢
  intro calls enumerate
  have horder : InOrder calls := by
    simp [InOrder, calls, readings, StoreCall.reading?, Date.rank]
  have hsized : ∀ call ∈ calls, call.IsSized := by
    simp [calls, isSized_save hstart]
  have henumerate : ∀ t, (enumerate t).Perm (t.children ["meta"]) := fun t =>
    List.reverse_perm _
  obtain ⟨first, -, hfirst, -⟩ := hstart.saved rfl { day := 1 }
  obtain ⟨second, -, hsecond, -⟩ := hstart.saved rfl { day := 5 }
  obtain ⟨third, -, hthird, -⟩ := hstart.saved rfl { day := 9 }
  have hslot : ∀ (slot : UInt16) (h : Game) (bytes : Bytes),
      (SlotEntry.of slot h bytes).metadata.slot = slot := fun _ _ _ => rfl
  have hlatest : (run calls).latest =
      [.of 1 (g.saveToBytes { day := 9 }).state third,
        .of 2 (g.saveToBytes { day := 5 }).state second] := by
    have hone := latest_run_save [] 1 .nil (List.forall_mem_nil _) hfirst
    have htwo := latest_run_save [.save 1 { day := 1 } g] 2
      (List.pairwise_singleton _ _) (by simp [isSized_save hstart]) hsecond
    have hthree := latest_run_save [.save 1 { day := 1 } g, .save 2 { day := 5 } g] 1
      (by simp [InOrder, readings, StoreCall.reading?, Date.rank])
      (by simp [isSized_save hstart]) hthird
    rw [List.nil_append] at hone
    rw [List.singleton_append, hone] at htwo
    rw [List.cons_append, List.singleton_append, htwo] at hthree
    rw [hthree]
    simp [hslot, SaveLog.run]
  refine ⟨⟨horder, hsized, henumerate⟩, ?_⟩
  obtain ⟨entries, hanswer, -, -, hentries⟩ := list_newest_first horder hsized henumerate
  refine ⟨entries, hanswer, ?_⟩
  rw [hentries (by rw [hlatest]; simp [SlotEntry.of, savedAt_of_save]), hlatest]
  rfl

/-- The names below a directory are found in ascending order. -/
theorem pairwise_children (h : t.IsTidy) (directory : String) :
    (t.children [directory]).Pairwise (· < ·) := by
  refine List.Pairwise.filterMap _ ?_ h.ascending
  intro path other hlt name hname last hlast
  split at hname
  case isFalse => cases hname
  case isTrue hpath =>
    split at hlast
    case isFalse => cases hlast
    case isTrue hother =>
      have hfirst := List.dropLast_append_getLast? name hname
      have hsecond := List.dropLast_append_getLast? last hlast
      rw [← hfirst, ← hsecond, hpath, hother] at hlt
      simpa [List.cons_lt_cons_iff] using hlt

/-- Slots that were all saved at the same date are listed in the order of their names. -/
theorem ascending_of_equal_dates (hs : s.IsSound dates)
    (hsame : ∀ entry ∈ s.latest, entry.metadata.savedAt = date) :
    ∃ entries, (listSlots s.files).answer = .ok entries ∧ entries.Perm s.latest ∧
      (entries.map (SlotFile.sidecar.name ·.metadata.slot)).Pairwise (· < ·) := by
  obtain ⟨found, hfound, hnames, -⟩ := listEnumerated_eq_newestFirst hs.admitsLayout hs.tidy
    hs.pending hs.sidecar fun t => .refl (t.children ["meta"])
  obtain ⟨entries, hanswer, hperm, -⟩ :=
    hs.exists_listed fun t => .refl (t.children ["meta"])
  rw [hfound, Except.ok.injEq] at hanswer
  subst hanswer
  have hlisted : found.Perm s.latest := (newestFirst_perm found).symm.trans hperm
  have hkept : newestFirst found = found := by
    apply List.mergeSort_of_pairwise
    refine List.pairwise_of_forall_mem_list fun a ha b hb => ?_
    rw [hsame a (hlisted.mem_iff.mp ha), hsame b (hlisted.mem_iff.mp hb)]
    exact decide_eq_true le_rfl
  rw [List.map_map] at hnames
  refine ⟨newestFirst found, hfound, hperm, ?_⟩
  rw [hkept]
  exact hnames ▸ pairwise_children hs.laidOut.tidy "meta"

/-- A date says no more than the minute. Of two slots that were saved in the same one, the last is
not listed first. -/
theorem equal_dates_not_newest_first :
    let calls : List StoreCall := [.save 1 {} (.start {}), .save 2 {} (.start {})]
    InOrder calls ∧ (∀ call ∈ calls, call.IsSized) ∧
      ((run calls).latest.map (·.metadata.slot) = [2, 1]) ∧
      ∃ entries, (listSlots (run calls).files).answer = .ok entries ∧
        entries.map (·.metadata.slot) = [1, 2] := by
  have hstart : Reachable {} (Game.start {}) := .start
  generalize Game.start {} = g at hstart ⊢
  intro calls
  have horder : InOrder calls := by
    simp [InOrder, calls, readings, StoreCall.reading?]
  have hsized : ∀ call ∈ calls, call.IsSized := by
    simp [calls, isSized_save hstart]
  obtain ⟨bytes, -, hbytes, -⟩ := hstart.saved rfl {}
  have hlatest : (run calls).latest =
      [.of 2 (g.saveToBytes {}).state bytes, .of 1 (g.saveToBytes {}).state bytes] := by
    have hone := latest_run_save [] 1 .nil (List.forall_mem_nil _) hbytes
    have htwo := latest_run_save [.save 1 {} g] 2
      (List.pairwise_singleton _ _) (by simp [isSized_save hstart]) hbytes
    rw [List.nil_append] at hone
    rw [List.singleton_append, hone] at htwo
    rw [htwo]
    simp [SlotEntry.of, SlotMetadata.of, SaveLog.run]
  refine ⟨horder, hsized, by rw [hlatest]; rfl, ?_⟩
  have hsame : ∀ entry ∈ (run calls).latest, entry.metadata.savedAt = {} := by
    intro entry hentry
    simp only [hlatest, List.mem_cons, List.not_mem_nil, or_false] at hentry
    rcases hentry with rfl | rfl <;> exact savedAt_of_save _ _ _ _
  obtain ⟨entries, hanswer, hperm, hascending⟩ :=
    ascending_of_equal_dates (isSound_run horder hsized) hsame
  refine ⟨entries, hanswer, ?_⟩
  have hslots : (entries.map (·.metadata.slot)).Perm [1, 2] := by
    rw [hlatest] at hperm
    exact (hperm.map _).trans (.swap 1 2 [])
  have hnames : (entries.map (·.metadata.slot)).Pairwise
      fun a b => SlotFile.sidecar.name a < SlotFile.sidecar.name b := by
    rw [List.pairwise_map] at hascending ⊢
    exact hascending
  refine hslots.eq_of_pairwise (fun a b _ _ hab hba => ?_) hnames (List.pairwise_pair.mpr ?_)
  · exact absurd hba (lt_asymm hab)
  · decide

end SaveDirectory

end Savegame
