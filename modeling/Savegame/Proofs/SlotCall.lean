import Savegame.Proofs.NamedFile

/-!
# Calls on a slot's files

What is said of calls on files, for the files of slots. Their paths tell the slots apart, so that a
call for one slot leaves the files of all others alone.
-/

namespace Savegame

theorem ok_of_mapError {ε δ α : Type} {f : ε → δ} {result : Except ε α} {x : α}
    (h : result.mapError f = .ok x) : result = .ok x := by
  cases result with
  | error e => cases h
  | ok y =>
    cases h
    rfl

namespace FileTree

variable {t u : FileTree} {f g : SlotFile} {slot i j : UInt16} {content : Bytes} {name : String}

def lookup (t : FileTree) (f : SlotFile) (slot : UInt16) : Option Entry :=
  t.entries.find? (f.path slot)

def put (t : FileTree) (f : SlotFile) (slot : UInt16) (content : Bytes) : FileTree :=
  t.set (f.path slot) (.file content)

def drop (t : FileTree) (f : SlotFile) (slot : UInt16) : FileTree :=
  ⟨t.entries.erase (f.path slot)⟩

/-- The tree with a copy of a slot's file in the place of another, if the first is there. -/
def copied (t : FileTree) (f g : SlotFile) (slot : UInt16) : FileTree :=
  match t.lookup f slot with
  | some (.file content) => t.put g slot content
  | _ => t

theorem lookup_put (t : FileTree) (f g : SlotFile) (i j : UInt16) (content : Bytes) :
    (t.put f i content).lookup g j =
      if f = g ∧ i = j then some (.file content) else t.lookup g j := by
  rw [lookup, put, find?_set]
  simp only [SlotFile.path_inj]
  rfl

theorem lookup_drop (t : FileTree) (f g : SlotFile) (i j : UInt16) :
    (t.drop f i).lookup g j = if f = g ∧ i = j then none else t.lookup g j := by
  rw [lookup, drop, Dictionary.find?_erase]
  simp only [SlotFile.path_inj]
  rfl

theorem path_ne_singleton (f : SlotFile) (slot : UInt16) (name : String) :
    f.path slot ≠ [name] := by
  simp [SlotFile.path]

@[simp] theorem find?_name_put :
    (t.put f slot content).entries.find? [name] = t.entries.find? [name] := by
  rw [put, find?_set, if_neg (path_ne_singleton f slot name)]

@[simp] theorem find?_name_drop :
    (t.drop f slot).entries.find? [name] = t.entries.find? [name] := by
  rw [drop, Dictionary.find?_erase, if_neg (path_ne_singleton f slot name)]

@[simp] theorem hasDirectory_put : (t.put f slot content).HasDirectory name ↔ t.HasDirectory name := by
  rw [HasDirectory, find?_name_put, HasDirectory]

@[simp] theorem hasDirectory_drop : (t.drop f slot).HasDirectory name ↔ t.HasDirectory name := by
  rw [HasDirectory, find?_name_drop, HasDirectory]

/-- Where a slot's file is found depends on its directory and on what stands at its path. -/
theorem place_location_eq (t : FileTree) (f : SlotFile) (slot : UInt16) :
    t.place (f.location slot) =
      match t.entries.find? [f.directory] with
      | some .directory =>
        match t.lookup f slot with
        | some .directory => .ok (.directory (f.path slot))
        | some (.file content) => .ok (.file (f.path slot) content false)
        | none => .ok (.vacant (f.path slot) false)
      | some (.file _) => .error .notDirectory
      | none => .error .notFound :=
  t.place_file_eq (f.file slot)

/-- What can stand where a slot's file goes. -/
theorem place_location_cases (t : FileTree) (f : SlotFile) (slot : UInt16) :
    (∃ e, t.place (f.location slot) = .error e) ∨
      t.place (f.location slot) = .ok (.directory (f.path slot)) ∨
      (∃ content, t.place (f.location slot) = .ok (.file (f.path slot) content false)) ∨
      t.place (f.location slot) = .ok (.vacant (f.path slot) false) := by
  rw [place_location_eq]
  cases t.entries.find? [f.directory] with
  | none => exact .inl ⟨_, rfl⟩
  | some entry =>
    cases entry with
    | file _ => exact .inl ⟨_, rfl⟩
    | directory =>
      cases t.lookup f slot with
      | none => exact .inr (.inr (.inr rfl))
      | some entry =>
        cases entry with
        | directory => exact .inr (.inl rfl)
        | file content => exact .inr (.inr (.inl ⟨content, rfl⟩))

theorem eq_put_of_write (h : t.write (f.location i) content = .ok u) : u = t.put f i content := by
  unfold write at h
  rcases place_location_cases t f i with ⟨e, hplace⟩ | hplace | ⟨_, hplace⟩ | hplace <;>
    rw [hplace] at h <;> cases h <;> rfl

theorem eq_drop_of_remove (h : t.remove (f.location i) = .ok u) : u = t.drop f i := by
  unfold remove at h
  rcases place_location_cases t f i with ⟨e, hplace⟩ | hplace | ⟨_, hplace⟩ | hplace <;>
    rw [hplace] at h <;> cases h
  rfl

theorem eq_put_of_copy (h : t.copy (f.location i) (g.location i) = .ok u) :
    ∃ content, u = t.put g i content := by
  unfold copy at h
  rcases place_location_cases t f i with ⟨e, hplace⟩ | hplace | ⟨content, hplace⟩ | hplace
  case inr.inr.inl =>
    rw [hplace] at h
    exact ⟨content, eq_put_of_write (ok_of_mapError h)⟩
  all_goals
    rw [hplace] at h
    cases h

theorem eq_put_of_move (h : t.move (f.location i) (g.location i) = .ok u) :
    ∃ content, u = (t.drop f i).put g i content := by
  unfold move at h
  rcases place_location_cases t f i with ⟨e, hplace⟩ | hplace | ⟨content, hplace⟩ | hplace
  case inr.inr.inl =>
    rw [hplace] at h
    dsimp only [bind, Except.bind] at h
    refine ⟨content, ?_⟩
    rcases place_location_cases t g i with ⟨e, hgoal⟩ | hgoal | ⟨_, hgoal⟩ | hgoal <;>
      rw [hgoal] at h <;> cases h <;> rfl
  all_goals
    rw [hplace] at h
    cases h

theorem read_location (h : t.HasDirectory f.directory) :
    t.read (f.location slot) =
      match t.lookup f slot with
      | some .directory => .error .isDirectory
      | some (.file content) => .ok content
      | none => .error .notFound :=
  read_file (f := f.file slot) h

theorem write_location (h : t.HasDirectory f.directory)
    (hfree : t.lookup f slot ≠ some .directory) (content : Bytes) :
    t.write (f.location slot) content = .ok (t.put f slot content) :=
  write_file (f := f.file slot) h hfree content

theorem isPresent_location (h : t.HasDirectory f.directory) :
    t.isPresent (f.location slot) = (t.lookup f slot).isSome :=
  isPresent_file (f := f.file slot) h

end FileTree

namespace Call

open FileTree

variable {t : FileTree} {f g : SlotFile} {slot : UInt16} {content : Bytes}

theorem settles_write (h : t.HasDirectory f.directory) (content : Bytes) :
    Settles t (t.put f slot content) (t.lookup f slot = some .directory)
      (run t (.write (f.location slot) content)) :=
  settles_write_file (f := f.file slot) h content

theorem settles_clear (h : t.HasDirectory f.directory) :
    Settles t (t.drop f slot) (t.lookup f slot = some .directory)
      (run t (.clear (f.location slot))) :=
  settles_clear_file (f := f.file slot) h

theorem settles_move (h : t.HasDirectory f.directory) (hg : t.HasDirectory g.directory)
    (hsource : t.lookup f slot = some (.file content)) :
    Settles t ((t.drop f slot).put g slot content) (t.lookup g slot = some .directory)
      (run t (.move (f.location slot) (g.location slot))) :=
  settles_move_file (f := f.file slot) (g := g.file slot) h hg hsource

theorem settles_backUp (h : t.HasDirectory f.directory) (hg : t.HasDirectory g.directory) :
    Settles t (t.copied f g slot)
      (t.lookup f slot = some .directory ∨
        (t.lookup f slot).isSome ∧ t.lookup g slot = some .directory)
      (run t (.backUp (f.location slot) (g.location slot))) :=
  settles_backUp_file (f := f.file slot) (g := g.file slot) h hg

end Call

end Savegame
