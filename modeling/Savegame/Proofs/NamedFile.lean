import Savegame.Proofs.Naming

/-!
# Calls on files below the root's directories

A call is done, and changes the file that it names and no other, or a directory stands in its way
and it changes nothing.
-/

namespace Savegame

namespace Location

/-- The name under which the new content of a file is written first. -/
def pendingName (name : String) : String :=
  (splitExtension name).1 ++ "." ++ "tmp"

variable {name : String}

theorem extension?_pendingName (h : name ≠ "") : extension? (pendingName name) = some "tmp" := by
  rw [extension?, pendingName, splitExtension_append (stem_ne_empty h) (by decide)]

theorem extension?_append_bak (h : name ≠ "") : extension? (name ++ ".bak") = some "bak" := by
  have hname : name ++ ".bak" = name ++ "." ++ "bak" := by
    rw [String.append_assoc]
    rfl
  rw [extension?, hname, splitExtension_append h (by decide)]

theorem ne_append_bak {other : String} (h : extension? name ≠ some "bak") (hother : other ≠ "") :
    name ≠ other ++ ".bak" := by
  rintro rfl
  exact h (extension?_append_bak hother)

theorem IsName.of_extension {extension : String} (h : extension? name = some extension)
    (hextension : extension ≠ "") (hslash : '/' ∉ name.toList) : IsName name := by
  have habove : extension? ".." = some "" := rfl
  refine ⟨?_, ?_, ?_, hslash⟩
  · rintro rfl
    cases h
  · rintro rfl
    cases h
  · rintro rfl
    rw [habove, Option.some.injEq] at h
    exact hextension h.symm

theorem IsName.append_bak (h : IsName name) : IsName (name ++ ".bak") := by
  refine .of_extension (extension?_append_bak h.notEmpty) (by decide) ?_
  rw [String.toList_append, List.mem_append, not_or]
  exact ⟨h.noSlash, by decide⟩

theorem IsName.pendingName (h : IsName name) : IsName (pendingName name) := by
  refine .of_extension (extension?_pendingName h.notEmpty) (by decide) ?_
  rw [Location.pendingName, String.append_assoc, String.toList_append, List.mem_append, not_or]
  exact ⟨fun hmem => h.noSlash (mem_of_mem_stem hmem), by decide⟩

end Location

/-- A file of a directory right below the root. -/
structure NamedFile where
  directory : String
  name : String
  isName_directory : Location.IsName directory
  isName_name : Location.IsName name

namespace NamedFile

def path (f : NamedFile) : Path :=
  [f.directory, f.name]

def location (f : NamedFile) : Location :=
  ⟨f.path⟩

/-- Where the old content of a file is kept. -/
def backup (f : NamedFile) : NamedFile :=
  ⟨f.directory, f.name ++ ".bak", f.isName_directory, f.isName_name.append_bak⟩

/-- Where new content of a file is written first. -/
def pending (f : NamedFile) : NamedFile :=
  ⟨f.directory, Location.pendingName f.name, f.isName_directory, f.isName_name.pendingName⟩

theorem path_ne_singleton (f : NamedFile) (name : String) : f.path ≠ [name] := by
  simp [path]

theorem replace_location (f : NamedFile) (hstem : (Location.splitExtension f.name).1 ≠ ".")
    (content : Bytes) :
    Call.replace f.location content true =
      [.makeDirectories ⟨[f.directory]⟩, .backUp f.location f.backup.location,
        .write f.pending.location content, .clear f.location,
        .move f.pending.location f.location] := by
  have hparent : f.location.parent = ⟨[f.directory]⟩ :=
    Location.parent_pair f.isName_directory f.isName_name
  have hpending : f.location.withExtension "tmp" = f.pending.location :=
    Location.withExtension_of_isName f.isName_name hstem f.directory "tmp"
  have hbackup : f.location.withSuffix ".bak" = f.backup.location := rfl
  simp only [Call.replace, hparent, hpending, hbackup, if_true, List.cons_append, List.nil_append]

end NamedFile

def SlotFile.file (f : SlotFile) (slot : UInt16) : NamedFile :=
  ⟨f.directory, f.name slot, f.isName_directory, f.isName_name slot⟩

namespace FileTree

variable {t : FileTree} {f g : NamedFile} {content : Bytes} {name other : String}

def HasDirectory (t : FileTree) (name : String) : Prop :=
  t.entries.find? [name] = some .directory

/-- The tree with a directory below the root, if nothing of its name is there. -/
def withDirectory (t : FileTree) (name : String) : FileTree :=
  match t.entries.find? [name] with
  | none => t.set [name] .directory
  | some _ => t

def unset (t : FileTree) (path : Path) : FileTree :=
  ⟨t.entries.erase path⟩

/-- The tree with a copy of a file in the place of another, if the first is there. -/
def copiedTo (t : FileTree) (f g : NamedFile) : FileTree :=
  match t.entries.find? f.path with
  | some (.file content) => t.set g.path (.file content)
  | _ => t

/-- The tree after new content was written beside a file and moved to its place. -/
def replacedFile (t : FileTree) (f : NamedFile) (content : Bytes) : FileTree :=
  (((t.set f.pending.path (.file content)).unset f.path).unset f.pending.path).set f.path
    (.file content)

theorem find?_set (t : FileTree) (path other : Path) (entry : Entry) :
    (t.set path entry).entries.find? other =
      if path = other then some entry else t.entries.find? other :=
  t.entries.find?_insert path other entry

theorem find?_unset (t : FileTree) (path other : Path) :
    (t.unset path).entries.find? other = if path = other then none else t.entries.find? other :=
  t.entries.find?_erase path other

@[simp] theorem hasDirectory_set_file {entry : Entry} :
    (t.set f.path entry).HasDirectory name ↔ t.HasDirectory name := by
  rw [HasDirectory, find?_set, if_neg (f.path_ne_singleton name), HasDirectory]

@[simp] theorem hasDirectory_unset_file :
    (t.unset f.path).HasDirectory name ↔ t.HasDirectory name := by
  rw [HasDirectory, find?_unset, if_neg (f.path_ne_singleton name), HasDirectory]

@[simp] theorem hasDirectory_copiedTo : (t.copiedTo f g).HasDirectory name ↔ t.HasDirectory name := by
  unfold copiedTo
  split
  · exact hasDirectory_set_file
  · rfl

/-- In the end the file has the new content, and nothing stands where that was written first. -/
theorem find?_replacedFile (t : FileTree) (f : NamedFile) (content : Bytes) (path : Path) :
    (t.replacedFile f content).entries.find? path =
      if f.path = path then some (.file content)
      else if f.pending.path = path then none
      else t.entries.find? path := by
  simp only [replacedFile, find?_set, find?_unset]
  split
  · rfl
  · split <;> rfl

@[simp] theorem hasDirectory_replacedFile :
    (t.replacedFile f content).HasDirectory name ↔ t.HasDirectory name := by
  simp [replacedFile]

theorem find?_withDirectory_file :
    (t.withDirectory name).entries.find? f.path = t.entries.find? f.path := by
  rw [withDirectory]
  split
  · rw [find?_set, if_neg (f.path_ne_singleton name).symm]
  · rfl

theorem withDirectory_of_hasDirectory (h : t.HasDirectory name) : t.withDirectory name = t := by
  rw [withDirectory, h]

theorem hasDirectory_withDirectory
    (h : ¬ ∃ content, t.entries.find? [name] = some (.file content)) :
    (t.withDirectory name).HasDirectory name := by
  rw [withDirectory, HasDirectory]
  cases hentry : t.entries.find? [name] with
  | none => simp [set, Dictionary.find?_insert]
  | some entry =>
    cases entry with
    | directory => exact hentry
    | file content => exact absurd ⟨content, hentry⟩ h

theorem find?_withDirectory_of_ne (h : name ≠ other) :
    (t.withDirectory name).entries.find? [other] = t.entries.find? [other] := by
  rw [withDirectory]
  split
  · rw [set, Dictionary.find?_insert, if_neg (by simpa using h)]
  · rfl

theorem HasDirectory.withDirectory (h : t.HasDirectory other) (name : String) :
    (t.withDirectory name).HasDirectory other := by
  rw [FileTree.withDirectory]
  split
  case h_1 hnone =>
    have hne : name ≠ other := by
      rintro rfl
      rw [HasDirectory, hnone] at h
      cases h
    rw [HasDirectory, set, Dictionary.find?_insert, if_neg (by simpa using hne)]
    exact h
  case h_2 => exact h

theorem unset_of_none {path : Path} (h : t.entries.find? path = none) : t.unset path = t := by
  obtain ⟨⟨entries⟩⟩ := t
  rw [Dictionary.find?, Option.map_eq_none_iff, List.find?_eq_none] at h
  rw [unset, Dictionary.erase]
  congr 2
  exact List.filter_eq_self.mpr fun p hp => by simpa using h p hp

theorem follow_cons (h : Location.IsName name) (here : Path) (rest : List String) :
    t.follow here (name :: rest) =
      match t.entries.find? (here ++ [name]) with
      | some .directory => t.follow (here ++ [name]) rest
      | some (.file content) =>
        if rest.all (· = "") then .ok (.file (here ++ [name]) content (rest ≠ []))
        else .error .notDirectory
      | none =>
        if rest.all (· = "") then .ok (.vacant (here ++ [name]) (rest ≠ []))
        else .error .notFound := by
  rw [follow, if_neg (not_or.mpr ⟨h.notEmpty, h.notHere⟩)]
  exact if_neg h.notAbove

theorem place_name (h : Location.IsName name) :
    t.place ⟨[name]⟩ =
      match t.entries.find? [name] with
      | some .directory => .ok (.directory [name])
      | some (.file content) => .ok (.file [name] content false)
      | none => .ok (.vacant [name] false) := by
  rw [place, follow_cons h]
  rfl

/-- Where a file is found depends on its directory and on what stands at its path. -/
theorem place_file_eq (t : FileTree) (f : NamedFile) :
    t.place f.location =
      match t.entries.find? [f.directory] with
      | some .directory =>
        match t.entries.find? f.path with
        | some .directory => .ok (.directory f.path)
        | some (.file content) => .ok (.file f.path content false)
        | none => .ok (.vacant f.path false)
      | some (.file _) => .error .notDirectory
      | none => .error .notFound := by
  have hname : [f.name].all (· = "") = false := by
    simp [f.isName_name.notEmpty]
  have hbelow : t.follow [f.directory] [f.name] =
      match t.entries.find? f.path with
      | some .directory => .ok (.directory f.path)
      | some (.file content) => .ok (.file f.path content false)
      | none => .ok (.vacant f.path false) := by
    rw [follow_cons f.isName_name]
    rfl
  rw [← hbelow, place, NamedFile.location, NamedFile.path, follow_cons f.isName_directory, hname]
  rfl

theorem place_file (h : t.HasDirectory f.directory) :
    t.place f.location =
      match t.entries.find? f.path with
      | some .directory => .ok (.directory f.path)
      | some (.file content) => .ok (.file f.path content false)
      | none => .ok (.vacant f.path false) := by
  rw [place_file_eq, h]

theorem read_file (h : t.HasDirectory f.directory) :
    t.read f.location =
      match t.entries.find? f.path with
      | some .directory => .error .isDirectory
      | some (.file content) => .ok content
      | none => .error .notFound := by
  rw [read, place_file h]
  cases t.entries.find? f.path with
  | none => rfl
  | some entry => cases entry <;> rfl

theorem write_file (h : t.HasDirectory f.directory)
    (hfree : t.entries.find? f.path ≠ some .directory) (content : Bytes) :
    t.write f.location content = .ok (t.set f.path (.file content)) := by
  rw [write, place_file h]
  cases hentry : t.entries.find? f.path with
  | none => rfl
  | some entry =>
    cases entry with
    | directory => exact absurd hentry hfree
    | file _ => rfl

theorem isPresent_file (h : t.HasDirectory f.directory) :
    t.isPresent f.location = (t.entries.find? f.path).isSome := by
  rw [isPresent, place_file h]
  cases t.entries.find? f.path with
  | none => rfl
  | some entry => cases entry <;> rfl

end FileTree

namespace Call

open FileTree

/-- A call is done and leaves `done` behind, unless it is blocked and leaves everything as it was. -/
inductive Settles (t done : FileTree) (blocked : Prop) : Outcome FileTree Unit → Prop where
  | done (h : ¬ blocked) : Settles t done blocked ⟨.ok (), done, []⟩
  | blocked (e : SaveError) (h : blocked) : Settles t done blocked ⟨.error e, t, []⟩

theorem Settles.eq_of_not {t done : FileTree} {blocked : Prop} {o : Outcome FileTree Unit}
    (h : Settles t done blocked o) (hfree : ¬ blocked) : o = ⟨.ok (), done, []⟩ := by
  cases h with
  | done _ => rfl
  | blocked e hblocked => exact absurd hblocked hfree

theorem Settles.eq_of_ok {t done : FileTree} {blocked : Prop} {o : Outcome FileTree Unit}
    (h : Settles t done blocked o) (hok : o.answer = .ok ()) :
    o = ⟨.ok (), done, []⟩ ∧ ¬ blocked := by
  cases h with
  | done hfree => exact ⟨rfl, hfree⟩
  | blocked e _ => cases hok

variable {t u : FileTree} {f g : NamedFile} {content : Bytes} {name : String} {call : Call}

theorem runAll_cons_of_run (h : run t call = ⟨.ok (), u, []⟩) (rest : List Call) :
    runAll t (call :: rest) = runAll u rest := by
  rw [runAll, h]
  rfl

theorem settles_write_file (h : t.HasDirectory f.directory) (content : Bytes) :
    Settles t (t.set f.path (.file content)) (t.entries.find? f.path = some .directory)
      (run t (.write f.location content)) := by
  rw [run, FileTree.write, place_file h]
  cases hentry : t.entries.find? f.path with
  | none => exact .done (by simp)
  | some entry =>
    cases entry with
    | directory => exact .blocked _ rfl
    | file _ => exact .done (by simp)

theorem settles_clear_file (h : t.HasDirectory f.directory) :
    Settles t (t.unset f.path) (t.entries.find? f.path = some .directory)
      (run t (.clear f.location)) := by
  rw [run, isPresent_file h, FileTree.remove, place_file h]
  cases hentry : t.entries.find? f.path with
  | none =>
    rw [unset_of_none hentry]
    exact .done (by simp)
  | some entry =>
    cases entry with
    | directory => exact .blocked _ rfl
    | file _ => exact .done (by simp)

theorem settles_move_file (h : t.HasDirectory f.directory) (hg : t.HasDirectory g.directory)
    (hsource : t.entries.find? f.path = some (.file content)) :
    Settles t ((t.unset f.path).set g.path (.file content))
      (t.entries.find? g.path = some .directory) (run t (.move f.location g.location)) := by
  rw [run, FileTree.move, place_file h, hsource]
  dsimp only [bind, Except.bind]
  rw [place_file hg]
  cases hentry : t.entries.find? g.path with
  | none => exact .done (by simp)
  | some entry =>
    cases entry with
    | directory => exact .blocked _ rfl
    | file _ => exact .done (by simp)

theorem settles_backUp_file (h : t.HasDirectory f.directory) (hg : t.HasDirectory g.directory) :
    Settles t (t.copiedTo f g)
      (t.entries.find? f.path = some .directory ∨
        (t.entries.find? f.path).isSome ∧ t.entries.find? g.path = some .directory)
      (run t (.backUp f.location g.location)) := by
  rw [run, isPresent_file h, FileTree.copy, place_file h, copiedTo]
  cases hsource : t.entries.find? f.path with
  | none => exact .done (by simp)
  | some entry =>
    cases entry with
    | directory => exact .blocked _ (.inl rfl)
    | file content =>
      dsimp only
      rw [FileTree.write, place_file hg]
      cases hentry : t.entries.find? g.path with
      | none => exact .done (by simp)
      | some entry =>
        cases entry with
        | directory => exact .blocked _ (.inr ⟨rfl, rfl⟩)
        | file _ => exact .done (by simp)

theorem settles_makeDirectories (hname : Location.IsName name) :
    Settles t (t.withDirectory name) (∃ content, t.entries.find? [name] = some (.file content))
      (run t (.makeDirectories ⟨[name]⟩)) := by
  have hempty : (Location.mk [name]).isEmpty = false := by
    simp [Location.isEmpty, hname.notEmpty]
  rw [run, FileTree.makeDirectories, hempty, FileTree.makeDirectory, FileTree.isDirectory,
    place_name hname, withDirectory]
  cases t.entries.find? [name] with
  | none => exact .done (by simp)
  | some entry =>
    cases entry with
    | directory => exact .done (by simp)
    | file content => exact .blocked _ ⟨content, rfl⟩

theorem runAll_replacedFile (h : t.HasDirectory f.directory)
    (hf : t.entries.find? f.path ≠ some .directory)
    (hpending : t.entries.find? f.pending.path ≠ some .directory)
    (hne : f.pending.path ≠ f.path) (content : Bytes) :
    runAll t [.write f.pending.location content, .clear f.location,
        .move f.pending.location f.location] = ⟨.ok (), t.replacedFile f content, []⟩ := by
  have hwritten := (settles_write_file (f := f.pending) h content).eq_of_not hpending
  rw [runAll_cons_of_run hwritten]
  have hdirectory : (t.set f.pending.path (.file content)).HasDirectory f.directory :=
    hasDirectory_set_file.mpr h
  have hcleared := settles_clear_file hdirectory
  rw [find?_set, if_neg hne] at hcleared
  rw [runAll_cons_of_run (hcleared.eq_of_not hf)]
  have hsource : ((t.set f.pending.path (.file content)).unset f.path).entries.find?
      f.pending.path = some (.file content) := by
    rw [find?_unset, if_neg hne.symm, find?_set, if_pos rfl]
  have hkept := hasDirectory_unset_file (f := f).mpr hdirectory
  have hmoved := settles_move_file (f := f.pending) hkept hkept hsource
  rw [find?_unset, if_pos rfl] at hmoved
  rw [runAll_cons_of_run (hmoved.eq_of_not (by simp))]
  rfl

end Call

end Savegame
