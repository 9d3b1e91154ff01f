import Mathlib
import Savegame.Dictionary

/-!
# The keys of a dictionary

The keys are in ascending order, so each is there once.
-/

namespace Savegame.Dictionary

variable {κ ν : Type} [DecidableEq κ]

theorem mem_keys_iff {d : Dictionary κ ν} {key : κ} : key ∈ d.keys ↔ d.find? key ≠ none := by
  rw [keys, find?, ne_eq, Option.map_eq_none_iff, List.find?_eq_none, List.mem_map]
  simp

def IsAscending [LT κ] (d : Dictionary κ ν) : Prop :=
  d.keys.Pairwise (· < ·)

theorem IsAscending.erase [LT κ] {d : Dictionary κ ν} (h : d.IsAscending) (key : κ) :
    (d.erase key).IsAscending :=
  h.sublist (List.filter_sublist.map _)

omit [DecidableEq κ] in
theorem IsAscending.nodup [LT κ] [Std.Irrefl (α := κ) (· < ·)] {d : Dictionary κ ν}
    (h : d.IsAscending) : d.keys.Nodup := by
  refine List.Pairwise.imp ?_ h
  rintro a _ hlt rfl
  exact Std.Irrefl.irrefl a hlt

theorem mem_insertEntry [LT κ] [DecidableLT κ] {key k : κ} {value : ν} {entries : List (κ × ν)}
    (h : k ∈ (insertEntry key value entries).map (·.1)) :
    k = key ∨ k ∈ entries.map (·.1) := by
  induction entries with
  | nil => exact .inl (by simpa [insertEntry] using h)
  | cons entry rest ih =>
    obtain ⟨first, v⟩ := entry
    rw [insertEntry] at h
    split at h
    · exact List.mem_cons.mp h
    · split at h
      · rcases List.mem_cons.mp h with heq | hrest
        · exact .inl heq
        · exact .inr (List.mem_cons_of_mem _ hrest)
      · rcases List.mem_cons.mp h with heq | hrest
        · exact .inr (heq ▸ List.mem_cons_self)
        · exact (ih hrest).imp_right (List.mem_cons_of_mem _)

theorem IsAscending.insert [LT κ] [DecidableLT κ] [IsTrans κ (· < ·)]
    [Std.Trichotomous (α := κ) (· < ·)] {d : Dictionary κ ν} (h : d.IsAscending) (key : κ)
    (value : ν) : (d.insert key value).IsAscending := by
  obtain ⟨entries⟩ := d
  change (entries.map (·.1)).Pairwise (· < ·) at h
  change ((insertEntry key value entries).map (·.1)).Pairwise (· < ·)
  induction entries with
  | nil => exact List.pairwise_singleton _ _
  | cons entry rest ih =>
    obtain ⟨first, v⟩ := entry
    have hcons := List.pairwise_cons.mp h
    rw [insertEntry]
    split
    case isTrue hlt =>
      refine List.pairwise_cons.mpr ⟨fun k hk => ?_, h⟩
      rcases List.mem_cons.mp hk with heq | hrest
      · exact heq ▸ hlt
      · exact IsTrans.trans _ _ _ hlt (hcons.1 k hrest)
    case isFalse hge =>
      split
      case isTrue heq => exact List.pairwise_cons.mpr ⟨heq ▸ hcons.1, hcons.2⟩
      case isFalse hne =>
        refine List.pairwise_cons.mpr ⟨fun k hk => ?_, ih hcons.2⟩
        rcases mem_insertEntry hk with rfl | hrest
        · by_contra hnot
          exact hne (Std.Trichotomous.trichotomous _ _ hnot hge)
        · exact hcons.1 k hrest

theorem contains_ofList [LT κ] [DecidableLT κ] (pairs : List (κ × ν)) (key : κ) :
    (ofList pairs).contains key = true ↔ ∃ pair ∈ pairs, pair.1 = key := by
  have hfold : ∀ d : Dictionary κ ν,
      (pairs.foldl (fun d pair => d.insert pair.1 pair.2) d).contains key = true ↔
        d.contains key = true ∨ ∃ pair ∈ pairs, pair.1 = key := by
    induction pairs with
    | nil => simp
    | cons pair rest ih =>
      intro d
      rw [List.foldl_cons, ih, contains, find?_insert, contains, List.exists_mem_cons_iff]
      by_cases h : pair.1 = key
      · simp [h]
      · simp [h]
  rw [ofList, hfold]
  simp [contains, find?_empty]

theorem insertEntry_perm [LT κ] [DecidableLT κ] {key : κ} (value : ν)
    {entries : List (κ × ν)} (h : key ∉ entries.map (·.1)) :
    (insertEntry key value entries).Perm ((key, value) :: entries) := by
  induction entries with
  | nil => exact .refl _
  | cons entry rest ih =>
    obtain ⟨hfirst, hrest⟩ := not_or.mp (mt List.mem_cons.mpr h)
    rw [insertEntry]
    split
    case isTrue => exact .refl _
    case isFalse =>
      rw [if_neg (Ne.symm hfirst)]
      exact ((ih hrest).cons entry).trans (.swap _ _ _)

/-- Of pairs with different keys none is lost. -/
theorem entries_ofList_perm [LT κ] [DecidableLT κ] {pairs : List (κ × ν)}
    (h : (pairs.map (·.1)).Nodup) : (ofList pairs).entries.Perm pairs := by
  have hfold : ∀ d : Dictionary κ ν, (pairs.map (·.1) ++ d.keys).Nodup →
      (pairs.foldl (fun d pair => d.insert pair.1 pair.2) d).entries.Perm (pairs ++ d.entries) := by
    clear h
    induction pairs with
    | nil => exact fun d _ => .refl _
    | cons pair rest ih =>
      intro d hd
      have hmiddle : ((rest.map (·.1)) ++ pair.1 :: d.keys).Nodup :=
        (List.perm_middle.nodup_iff).mpr hd
      have hfresh : pair.1 ∉ d.keys :=
        (List.nodup_cons.mp (List.nodup_append.mp hmiddle).2.1).1
      have hinsert : (d.insert pair.1 pair.2).entries.Perm (pair :: d.entries) :=
        insertEntry_perm pair.2 hfresh
      have hkeys : (d.insert pair.1 pair.2).keys.Perm (pair.1 :: d.keys) := hinsert.map _
      have hnext := ih (d.insert pair.1 pair.2) ((hkeys.append_left _).nodup_iff.mpr hmiddle)
      exact hnext.trans ((hinsert.append_left rest).trans List.perm_middle)
  have hnone : (∅ : Dictionary κ ν).entries = [] := rfl
  have hpairs := hfold ∅ (by rwa [keys, hnone, List.map_nil, List.append_nil])
  rwa [hnone, List.append_nil] at hpairs

/-- Whatever is found was one of the pairs. -/
theorem mem_of_find?_ofList [LT κ] [DecidableLT κ] {pairs : List (κ × ν)} {key : κ} {value : ν}
    (h : (ofList pairs).find? key = some value) : (key, value) ∈ pairs := by
  have hfold : ∀ d : Dictionary κ ν,
      (pairs.foldl (fun d pair => d.insert pair.1 pair.2) d).find? key = some value →
        (key, value) ∈ pairs ∨ d.find? key = some value := by
    clear h
    induction pairs with
    | nil => exact fun d hd => .inr hd
    | cons pair rest ih =>
      intro d hd
      rcases ih _ hd with hrest | hfirst
      · exact .inl (List.mem_cons_of_mem _ hrest)
      · rw [find?_insert] at hfirst
        split at hfirst
        case isTrue hkey =>
          cases hfirst
          subst hkey
          exact .inl List.mem_cons_self
        case isFalse => exact .inr hfirst
  rcases hfold ∅ h with hmem | hempty
  · exact hmem
  · cases hempty

end Savegame.Dictionary
