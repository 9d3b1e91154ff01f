import Savegame.Proofs.NamedFile

/-!
# The files of a tree

Which files there are, and with what content, is a function of the path. A write changes it at one
path; directories that are made leave it alone.
-/

namespace Savegame

namespace FileTree

variable {t u : FileTree} {here path : Path} {l : Location} {content : Bytes}

/-- The content of the file at a path, if one is there. -/
def file? (t : FileTree) (path : Path) : Option Bytes :=
  match t.entries.find? path with
  | some (.file content) => some content
  | some .directory | none => none

theorem file?_set_file (t : FileTree) (path : Path) (content : Bytes) :
    (t.set path (.file content)).file? = Function.update t.file? path (some content) := by
  funext other
  rw [Function.update_apply, file?, find?_set]
  by_cases h : path = other
  · rw [if_pos h, if_pos h.symm]
  · rw [if_neg h, if_neg (Ne.symm h), file?]

theorem file?_set_directory (h : t.entries.find? path = none) :
    (t.set path .directory).file? = t.file? := by
  funext other
  rw [file?, find?_set]
  by_cases heq : path = other
  · rw [if_pos heq, file?, ← heq, h]
  · rw [if_neg heq, file?]

/-- The place is as the entries of a tree have it. -/
def Place.IsOf (t : FileTree) : Place → Prop
  | .directory _ => True
  | .file path content _ => t.entries.find? path = some (.file content)
  | .vacant path _ => t.entries.find? path = none

/-- The path that a write to a place changes, if it is one for a file. -/
def Place.target? : Place → Option Path
  | .file path _ false | .vacant path false => some path
  | .directory _ | .file _ _ true | .vacant _ true => none

theorem isOf_follow {segments : List String} {place : Place}
    (h : t.follow here segments = .ok place) : place.IsOf t := by
  fun_induction follow t here segments with
  | case1 here =>
    cases h
    trivial
  | case2 here segment rest _ ih => exact ih h
  | case3 here rest _ ih => exact ih h
  | case4 here name rest _ _ _ ih => exact ih h
  | case5 here name rest _ _ content hentry =>
    cases h
    exact hentry
  | case6 => cases h
  | case7 here name rest _ _ hentry =>
    cases h
    exact hentry
  | case8 => cases h

theorem Place.IsOf.ne_directory {place : Place} (h : place.IsOf t) (hpath : place.target? = some path) :
    t.entries.find? path ≠ some .directory := by
  intro hdirectory
  match place, h with
  | .file _ _ false, hfile =>
    cases hpath
    rw [IsOf, hdirectory] at hfile
    cases hfile
  | .vacant _ false, hnone =>
    cases hpath
    rw [IsOf, hdirectory] at hnone
    cases hnone

theorem eq_of_target?_file {asDirectory : Bool}
    (h : (Place.file here content asDirectory).target? = some path) :
    here = path ∧ asDirectory = false := by
  cases asDirectory with
  | false => exact ⟨Option.some.inj h, rfl⟩
  | true => cases h

theorem eq_of_target?_vacant {asDirectory : Bool}
    (h : (Place.vacant here asDirectory).target? = some path) :
    here = path ∧ asDirectory = false := by
  cases asDirectory with
  | false => exact ⟨Option.some.inj h, rfl⟩
  | true => cases h

/-- A file that was put at the end of a location is found there. -/
theorem follow_set {segments : List String} {place : Place}
    (h : t.follow here segments = .ok place) (hpath : place.target? = some path) (content : Bytes) :
    (t.set path (.file content)).follow here segments = .ok (.file path content false) := by
  have hne := (isOf_follow h).ne_directory hpath
  fun_induction follow t here segments with
  | case1 here =>
    cases h
    cases hpath
  | case2 here segment rest hstay ih =>
    rw [follow, if_pos hstay]
    exact ih h
  | case3 here rest hup ih =>
    rw [follow, if_neg hup, if_pos rfl]
    exact ih h
  | case4 here name rest hstay hup hentry ih =>
    have hother : path ≠ here ++ [name] := by
      rintro rfl
      exact hne hentry
    rw [follow, if_neg hstay, if_neg hup, find?_set, if_neg hother, hentry]
    exact ih h
  | case5 here name rest hstay hup _ _ hrest =>
    cases h
    obtain ⟨rfl, hlast⟩ := eq_of_target?_file hpath
    rw [follow, if_neg hstay, if_neg hup, find?_set, if_pos rfl]
    simp only [hrest, if_true, hlast]
  | case6 => cases h
  | case7 here name rest hstay hup _ hrest =>
    cases h
    obtain ⟨rfl, hlast⟩ := eq_of_target?_vacant hpath
    rw [follow, if_neg hstay, if_neg hup, find?_set, if_pos rfl]
    simp only [hrest, if_true, hlast]
  | case8 => cases h

theorem write_eq_ok_iff :
    t.write l content = .ok u ↔
      ∃ place path, t.place l = .ok place ∧ place.target? = some path ∧
        t.set path (.file content) = u := by
  have hwrite : t.write l content = (t.place l).bind fun place =>
      place.target?.elim (.error .isDirectory) fun path => .ok (t.set path (.file content)) := by
    rw [write]
    cases t.place l with
    | error e => rfl
    | ok place =>
      cases place with
      | directory => rfl
      | file _ _ asDirectory => cases asDirectory <;> rfl
      | vacant _ asDirectory => cases asDirectory <;> rfl
  rw [hwrite]
  cases t.place l with
  | error e => simp [Except.bind]
  | ok place => cases htarget : place.target? <;> simp [Except.bind, htarget]

theorem place_of_write (h : t.write l content = .ok u) :
    ∃ path, u.file? = Function.update t.file? path (some content) ∧
      u.place l = .ok (.file path content false) := by
  obtain ⟨place, path, hplace, hpath, rfl⟩ := write_eq_ok_iff.mp h
  exact ⟨path, t.file?_set_file path content, follow_set hplace hpath content⟩

/-- Whether a write succeeds does not depend on what is written. -/
theorem write_of_write (h : t.write l content = .ok u) (other : Bytes) :
    ∃ v, t.write l other = .ok v := by
  obtain ⟨place, path, hplace, hpath, -⟩ := write_eq_ok_iff.mp h
  exact ⟨_, write_eq_ok_iff.mpr ⟨place, path, hplace, hpath, rfl⟩⟩

theorem file?_of_makeDirectory (h : t.makeDirectory l = .ok u) : u.file? = t.file? := by
  rw [makeDirectory] at h
  cases hplace : t.place l with
  | error e =>
    rw [hplace] at h
    cases h
  | ok place =>
    rw [hplace] at h
    cases place with
    | vacant path _ =>
      cases h
      exact file?_set_directory (isOf_follow hplace)
    | directory _ => cases h
    | file _ _ _ => cases h

/-- Whatever becomes of making directories, no file is created or changed. -/
theorem file?_makeDirectories (t : FileTree) (l : Location) (fuel : Nat) :
    (t.makeDirectories l fuel).2.file? = t.file? := by
  induction fuel generalizing l with
  | zero => rfl
  | succ fuel ih =>
    rw [makeDirectories]
    split
    · rfl
    · split
      next hmade => exact file?_of_makeDirectory hmade
      next =>
        have hparent := ih l.parent
        split
        next hmade =>
          rw [hmade] at hparent
          split
          next hlast => exact (file?_of_makeDirectory hlast).trans hparent
          next => split <;> exact hparent
        next => exact hparent
      next => split <;> rfl

/-- A file can be written at a location, once the directories above it are made. -/
def CanWrite (t : FileTree) (l : Location) : Prop :=
  let made := t.makeDirectories l.parent (l.segments.length + 1)
  made.1 = .ok () ∧ ∃ content u, made.2.write l content = .ok u

end FileTree

end Savegame
