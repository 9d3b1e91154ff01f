import Savegame.Proofs.Restoring
import Savegame.Proofs.Run
import Savegame.Proofs.SavedGame

/-!
# Saves by name, in memory and in a directory

A directory is handled as a map from names to saves would be, but for the backups: a save that takes
the place of another keeps the old one under a name of its own, and saves can be loaded by it.
-/

namespace Savegame

/-- A call by name, with the game that it is made for. -/
inductive FileCall where
  | save (name : String) (date : Date) (g : Game)
  | load (name : String) (g : Game)

namespace FileCall

def name : FileCall → String
  | save name _ _ | load name _ => name

def saved? : FileCall → Option String
  | save name _ _ => some name
  | load _ _ => none

end FileCall

structure FileManager (σ : Type) where
  saveTo : String → Date → Game → σ → Outcome (Game × σ) Nat
  loadFrom : String → σ → Game → Outcome Game Unit

/-- Whether a call succeeded, and the game after it. The wording of a refusal is left out. -/
structure Reply where
  succeeded : Bool
  game : Game

namespace FileManager

variable {σ : Type}

def step (m : FileManager σ) (s : σ) : FileCall → Reply × σ
  | .save name date g =>
    let o := m.saveTo name date g s
    (⟨o.answer.isOk, o.state.1⟩, o.state.2)
  | .load name g =>
    let o := m.loadFrom name s g
    (⟨o.answer.isOk, o.state⟩, s)

def replies (m : FileManager σ) (s : σ) (calls : List FileCall) : List Reply :=
  (trace m.step s calls).map (·.1)

def memory : FileManager MemoryFiles :=
  ⟨MemoryFiles.saveTo, MemoryFiles.loadFrom⟩

def directory : FileManager FileTree :=
  ⟨SaveDirectory.saveTo, SaveDirectory.loadFrom⟩

end FileManager

def MemoryFiles.backedUp (files : MemoryFiles) (name : String) : MemoryFiles :=
  match files.find? name with
  | some old => files.insert (name ++ ".bak") old
  | none => files

/-- Saves in memory of which the one that is replaced is kept as a backup. -/
def FileManager.keeping : FileManager MemoryFiles where
  saveTo name date g files :=
    match (g.saveToBytes date).answer with
    | .ok _ => MemoryFiles.saveTo name date g (files.backedUp name)
    | .error _ => MemoryFiles.saveTo name date g files
  loadFrom := MemoryFiles.loadFrom

/-- A name that a file can be replaced under: new content is first written under another. -/
structure IsReplaceable (name : String) : Prop extends Location.IsName name where
  hasStem : (Location.splitExtension name).1 ≠ "."
  notPending : Location.extension? name ≠ some "tmp"

instance (name : String) : Decidable (IsReplaceable name) :=
  decidable_of_iff (Location.IsName name ∧ (Location.splitExtension name).1 ≠ "." ∧
      Location.extension? name ≠ some "tmp")
    ⟨fun ⟨hname, hstem, hpending⟩ => ⟨hname, hstem, hpending⟩,
      fun ⟨hname, hstem, hpending⟩ => ⟨hname, hstem, hpending⟩⟩

def saveFile (name : String) (h : Location.IsName name) : NamedFile :=
  ⟨"slots", name, SlotFile.primary.isName_directory, h⟩

theorem location_saveFile {name : String} (h : Location.IsName name) :
    SaveDirectory.location name = (saveFile name h).location :=
  h.directory_join

namespace MemoryFiles

variable {files : MemoryFiles} {name other : String} {bytes : Bytes}

theorem find?_backedUp (files : MemoryFiles) (name other : String) :
    (files.backedUp name).find? other =
      match files.find? name with
      | some old => if name ++ ".bak" = other then some old else files.find? other
      | none => files.find? other := by
  unfold backedUp
  split
  · exact files.find?_insert _ _ _
  · rfl

theorem find?_backedUp_of_ne (h : other ≠ name ++ ".bak") :
    (files.backedUp name).find? other = files.find? other := by
  rw [find?_backedUp]
  split
  · exact if_neg h.symm
  · rfl

end MemoryFiles

/-- A tree whose slots directory holds the given saves, and no other file. -/
structure Represents (files : MemoryFiles) (t : FileTree) : Prop where
  root : t = {} ∧ files = ∅ ∨ t.HasDirectory "slots"
  entry : ∀ name, Location.IsName name →
    t.entries.find? ["slots", name] = (files.find? name).map .file
  notPending : ∀ name, files.find? name ≠ none → Location.extension? name ≠ some "tmp"

namespace Represents

open FileTree

variable {files : MemoryFiles} {t u : FileTree} {name : String}

theorem empty : Represents ∅ {} where
  root := .inl ⟨rfl, rfl⟩
  entry _ _ := rfl
  notPending _ h := absurd rfl h

theorem notDirectory (h : Represents files t) (hname : Location.IsName name) :
    t.entries.find? ["slots", name] ≠ some .directory := by
  rw [h.entry name hname]
  cases files.find? name <;> simp

theorem notFile (h : Represents files t) :
    ¬ ∃ content, t.entries.find? ["slots"] = some (.file content) := by
  rintro ⟨content, hfile⟩
  rcases h.root with ⟨rfl, -⟩ | hslots
  · cases hfile
  · rw [HasDirectory, hfile] at hslots
    cases hslots

theorem find?_pending (h : Represents files t) (hname : Location.IsName name) :
    t.entries.find? ["slots", Location.pendingName name] = none := by
  rw [h.entry _ hname.pendingName, Option.map_eq_none_iff]
  by_contra hsome
  exact h.notPending _ hsome (Location.extension?_pendingName hname.notEmpty)

theorem withDirectory (h : Represents files t) : Represents files (t.withDirectory "slots") := by
  refine ⟨.inr (hasDirectory_withDirectory h.notFile), fun name hname => ?_, h.notPending⟩
  exact (find?_withDirectory_file (f := saveFile name hname)).trans (h.entry name hname)

theorem put (h : Represents files t) (ht : t.HasDirectory "slots") (hname : Location.IsName name)
    (hpending : Location.extension? name ≠ some "tmp") (bytes : Bytes) :
    Represents (files.insert name bytes) (t.set ["slots", name] (.file bytes)) := by
  refine ⟨.inr ?_, fun other hother => ?_, fun other hsome => ?_⟩
  · exact (hasDirectory_set_file (f := saveFile name hname)).mpr ht
  · rw [find?_set, Dictionary.find?_insert, h.entry other hother]
    by_cases heq : name = other <;> simp [heq]
  · rw [Dictionary.find?_insert] at hsome
    split at hsome
    case isTrue heq => exact heq ▸ hpending
    case isFalse => exact h.notPending other hsome

theorem backUp (h : Represents files t) (ht : t.HasDirectory "slots")
    (hname : Location.IsName name) :
    let f := saveFile name hname
    Call.run t (.backUp f.location f.backup.location) = ⟨.ok (), t.copiedTo f f.backup, []⟩ ∧
      Represents (files.backedUp name) (t.copiedTo f f.backup) := by
  intro f
  have hsettles : Call.Settles t (t.copiedTo f f.backup) _ _ :=
    Call.settles_backUp_file (f := f) (g := f.backup) ht ht
  constructor
  · apply hsettles.eq_of_not
    rintro (hsource | ⟨-, htarget⟩)
    · exact h.notDirectory hname hsource
    · exact h.notDirectory hname.append_bak htarget
  · have hentry : t.entries.find? f.path = (files.find? name).map .file := h.entry name hname
    unfold MemoryFiles.backedUp copiedTo
    rw [hentry]
    cases files.find? name with
    | none => exact h
    | some old =>
      have hbak := Location.extension?_append_bak hname.notEmpty
      exact h.put ht hname.append_bak (by rw [hbak]; decide) old

theorem swap (h : Represents files t) (ht : t.HasDirectory "slots") (hname : IsReplaceable name)
    (bytes : Bytes) :
    let f := saveFile name hname.toIsName
    Call.runAll t [.write f.pending.location bytes, .clear f.location,
        .move f.pending.location f.location] = ⟨.ok (), t.replacedFile f bytes, []⟩ ∧
      Represents (files.insert name bytes) (t.replacedFile f bytes) := by
  intro f
  have hfile := hname.toIsName
  have hnone : t.entries.find? f.pending.path = none := h.find?_pending hfile
  constructor
  · refine Call.runAll_replacedFile ht (h.notDirectory hfile) ?_ ?_ bytes
    · rw [hnone]
      simp
    · intro heq
      have hsame : Location.pendingName name = name := (List.cons.inj (List.cons.inj heq).2).1
      have htmp := Location.extension?_pendingName hname.notEmpty
      exact hname.notPending (hsame ▸ htmp)
  · have hput := h.put ht hfile hname.notPending bytes
    refine ⟨.inr (hasDirectory_replacedFile.mpr ht), fun other hother => ?_, hput.notPending⟩
    -- Nothing stood where the new content was written, so it makes no difference that it is gone.
    have hpath : f.path = ["slots", name] := rfl
    rw [← hput.entry other hother, find?_replacedFile, find?_set, hpath]
    split_ifs with hsame hpending
    · rfl
    · rw [← hpending, hnone]
    · rfl

/-- The calls that replace a save do what a map does that keeps backups. -/
theorem replace (h : Represents files t) (hname : IsReplaceable name) (bytes : Bytes) :
    ∃ u, Call.runAll t (Call.replace (SaveDirectory.location name) bytes true) = ⟨.ok (), u, []⟩ ∧
      Represents ((files.backedUp name).insert name bytes) u := by
  let f := saveFile name hname.toIsName
  have hslots := hasDirectory_withDirectory h.notFile
  have hmade : Call.run t (.makeDirectories ⟨[f.directory]⟩) =
      ⟨.ok (), t.withDirectory "slots", []⟩ :=
    (Call.settles_makeDirectories f.isName_directory).eq_of_not h.notFile
  obtain ⟨hcopied, hkept⟩ := h.withDirectory.backUp hslots hname.toIsName
  have hdirectory : ((t.withDirectory "slots").copiedTo f f.backup).HasDirectory "slots" :=
    hasDirectory_copiedTo.mpr hslots
  obtain ⟨hswapped, hafter⟩ := hkept.swap hdirectory hname bytes
  refine ⟨_, ?_, hafter⟩
  rw [location_saveFile hname.toIsName, (saveFile name hname.toIsName).replace_location hname.hasStem]
  exact (Call.runAll_cons_of_run hmade _).trans
    ((Call.runAll_cons_of_run hcopied _).trans hswapped)

theorem step_save (h : Represents files t) (hname : IsReplaceable name) (date : Date) (g : Game) :
    (FileManager.keeping.step files (.save name date g)).1 =
        (FileManager.directory.step t (.save name date g)).1 ∧
      Represents (FileManager.keeping.step files (.save name date g)).2
        (FileManager.directory.step t (.save name date g)).2 := by
  simp only [FileManager.step, FileManager.keeping, FileManager.directory, MemoryFiles.saveTo,
    SaveDirectory.saveTo]
  cases hbytes : (g.saveToBytes date).answer with
  | error e =>
    exact ⟨rfl, h⟩
  | ok bytes =>
    obtain ⟨u, hrun, hu⟩ := h.replace hname bytes
    simp only [hrun]
    exact ⟨rfl, hu⟩

theorem read (h : Represents files t) (hname : Location.IsName name) :
    t.read (SaveDirectory.location name) =
      match files.find? name with
      | some bytes => .ok bytes
      | none => .error .notFound := by
  rw [location_saveFile hname]
  rcases h.root with ⟨rfl, rfl⟩ | hslots
  · rw [FileTree.read, place_file_eq]
    rfl
  · have hentry : t.entries.find? (saveFile name hname).path = (files.find? name).map .file :=
      h.entry name hname
    rw [read_file hslots, hentry]
    cases files.find? name <;> rfl

theorem loadFrom (h : Represents files t) (hname : Location.IsName name) (g : Game) :
    SaveDirectory.loadFrom name t g =
      match files.find? name with
      | some bytes => g.load bytes
      | none => ⟨.error (.stream (.system .notFound)), g, []⟩ := by
  rw [SaveDirectory.loadFrom, h.read hname]
  cases files.find? name <;> rfl

theorem step_load (h : Represents files t) (hname : Location.IsName name) (g : Game) :
    (FileManager.keeping.step files (.load name g)).1 =
      (FileManager.directory.step t (.load name g)).1 := by
  simp only [FileManager.step, FileManager.keeping, FileManager.directory, MemoryFiles.loadFrom,
    h.loadFrom hname]
  cases files.find? name <;> rfl

end Represents

/-- A run of calls of which those that save can replace what they find. -/
structure IsPlainRun (calls : List FileCall) : Prop where
  names : ∀ call ∈ calls, Location.IsName call.name
  saves : ∀ call ∈ calls, ∀ name ∈ call.saved?, IsReplaceable name

namespace IsPlainRun

variable {calls : List FileCall} {name : String}

theorem nil : IsPlainRun [] :=
  ⟨nofun, nofun⟩

theorem save (hname : IsReplaceable name) (date : Date) (g : Game) (h : IsPlainRun calls) :
    IsPlainRun (.save name date g :: calls) := by
  refine ⟨List.forall_mem_cons.mpr ⟨hname.toIsName, h.names⟩,
    List.forall_mem_cons.mpr ⟨?_, h.saves⟩⟩
  rintro saved ⟨⟩
  exact hname

theorem load (hname : Location.IsName name) (g : Game) (h : IsPlainRun calls) :
    IsPlainRun (.load name g :: calls) :=
  ⟨List.forall_mem_cons.mpr ⟨hname, h.names⟩, List.forall_mem_cons.mpr ⟨nofun, h.saves⟩⟩

end IsPlainRun

/-- No call is by the name of a backup of what the run saves. -/
def AvoidsBackups (calls : List FileCall) : Prop :=
  ∀ call ∈ calls, ∀ other ∈ calls, ∀ name ∈ other.saved?, call.name ≠ name ++ ".bak"

namespace FileManager

open FileTree

variable {calls : List FileCall}

theorem directory_represents (h : IsPlainRun calls) :
    keeping.replies ∅ calls = directory.replies {} calls ∧
      Represents (after keeping.step ∅ calls) (after directory.step {} calls) := by
  refine trace_of_simulation Represents (fun files t hrep call hcall => ?_) Represents.empty
  cases call with
  | save name date g => exact hrep.step_save (h.saves _ hcall name rfl) date g
  | load name g => exact ⟨hrep.step_load (h.names _ hcall) g, hrep⟩

/-- Saves in memory with and without backups, which differ in the backups only. -/
def DifferInBackups (calls : List FileCall) (kept files : MemoryFiles) : Prop :=
  ∀ name, (∀ call ∈ calls, ∀ saved ∈ call.saved?, name ≠ saved ++ ".bak") →
    kept.find? name = files.find? name

theorem keeping_agrees (h : AvoidsBackups calls) :
    keeping.replies ∅ calls = memory.replies ∅ calls := by
  have hstart : DifferInBackups calls ∅ ∅ := fun _ _ => rfl
  refine (trace_of_simulation (DifferInBackups calls) (fun kept files hdiffer call hcall => ?_)
    hstart).1
  cases call with
  | load name g =>
    have hsame := hdiffer name (h _ hcall)
    refine ⟨?_, hdiffer⟩
    simp only [step, keeping, memory, MemoryFiles.loadFrom, hsame]
  | save name date g =>
    simp only [step, keeping, memory, MemoryFiles.saveTo]
    cases hbytes : (g.saveToBytes date).answer with
    | error e => exact ⟨rfl, hdiffer⟩
    | ok bytes =>
      refine ⟨rfl, fun other hother => ?_⟩
      rw [Dictionary.find?_insert, Dictionary.find?_insert,
        MemoryFiles.find?_backedUp_of_ne (hother _ hcall name rfl), hdiffer other hother]

/-- Saves in a directory are answered as saves in memory are of which the old one is kept as a
backup whenever one is replaced, and so as plain saves in memory as long as no backup is asked for.
A game that was reached under valid settings can be saved after any such run. Its name then loads
the save, and every other name, but for its backup, what it loaded before. -/
theorem directory_keeps_backups (calls : List FileCall) (h : IsPlainRun calls) :
    directory.replies {} calls = keeping.replies ∅ calls ∧
    (AvoidsBackups calls → directory.replies {} calls = memory.replies ∅ calls) ∧
    ∀ (settings : Settings) (g : Game) (name : String) (date : Date),
      settings.validate = .ok () → Reachable settings g → IsReplaceable name →
      let t := after directory.step {} calls
      let saved := SaveDirectory.saveTo name date g t
      (∃ length, saved.answer = .ok length) ∧
      (∀ live : Game, live.settings = settings →
        (SaveDirectory.loadFrom name saved.state.2 live).Restores live (g.keptRecord date)) ∧
      ∀ (other : String) (live : Game), Location.IsName other → other ≠ name →
        other ≠ name ++ ".bak" →
        SaveDirectory.loadFrom other saved.state.2 live = SaveDirectory.loadFrom other t live := by
  obtain ⟨hreplies, hrep⟩ := directory_represents h
  refine ⟨hreplies.symm, fun havoids => hreplies.symm.trans (keeping_agrees havoids), ?_⟩
  intro settings g name date hsettings hg hname t saved
  obtain ⟨bytes, d, hbytes, hdecode, hrecord, -⟩ := hg.saved hsettings date
  obtain ⟨u, hrun, hu⟩ := hrep.replace hname bytes
  have hsaved : saved.answer = .ok bytes.length ∧ saved.state.2 = u := by
    simp only [saved, SaveDirectory.saveTo, hbytes]
    rw [hrun]
    exact ⟨rfl, rfl⟩
  rw [hsaved.2]
  refine ⟨⟨_, hsaved.1⟩, fun live hlive => ?_, fun other live hother hne hbackup => ?_⟩
  · rw [hu.loadFrom hname.toIsName, Dictionary.find?_insert, if_pos rfl]
    rw [← hlive] at hdecode
    dsimp only
    rw [Game.load_of_decode hdecode, hrecord]
    exact ⟨rfl, rfl⟩
  · rw [hu.loadFrom hother, hrep.loadFrom hother, Dictionary.find?_insert, if_neg hne.symm,
      MemoryFiles.find?_backedUp_of_ne hbackup]

/-- A name is saved under twice and asked for, and then another is saved under. -/
theorem directory_keeps_backups_twice :
    let g := Game.start {}
    let calls : List FileCall := [.save "a" {} g, .save "a" { day := 2 } g, .load "a" g]
    let t := after directory.step {} calls
    let saved := SaveDirectory.saveTo "b" {} g t
    (IsPlainRun calls ∧ AvoidsBackups calls ∧ Settings.validate {} = .ok ()) ∧
      directory.replies {} calls = memory.replies ∅ calls ∧
      (∃ length, saved.answer = .ok length) ∧
      (SaveDirectory.loadFrom "b" saved.state.2 g).Restores g (g.keptRecord {}) ∧
      SaveDirectory.loadFrom "a" saved.state.2 g = SaveDirectory.loadFrom "a" t g := by
  intro g calls
  have ha : IsReplaceable "a" := by decide
  have hb : IsReplaceable "b" := by decide
  have hrun : IsPlainRun calls :=
    .save ha {} g (.save ha { day := 2 } g (.load ha.toIsName g .nil))
  have hplain : ∀ name : String, name ≠ "" → "a" ≠ name ++ ".bak" :=
    fun _ => Location.ne_append_bak (by decide)
  have havoids : AvoidsBackups calls := by
    intro call hcall other hother name hname
    have hsame : ∀ call ∈ calls, call.name = "a" := by simp [calls, FileCall.name]
    rw [hsame call hcall]
    exact hplain name (hrun.saves other hother name hname).notEmpty
  have hvalid : Settings.validate {} = .ok () := by decide
  obtain ⟨-, hmemory, hsaved⟩ := directory_keeps_backups calls hrun
  have hreachable : Reachable {} g := .start
  have hsettings : g.settings = {} := rfl
  obtain ⟨hanswer, hload, hother⟩ := hsaved {} g "b" {} hvalid hreachable hb
  exact ⟨⟨hrun, havoids, hvalid⟩, hmemory havoids, hanswer, hload g hsettings,
    hother "a" g ha.toIsName (by decide) (hplain "b" (by decide))⟩

/-- A directory refuses a first save of which the calls fail, and memory takes it. -/
theorem replies_of_refused {name : String} {g : Game} {date : Date} {bytes : Bytes} {e : SaveError}
    (hname : Location.IsName name) (hbytes : (g.saveToBytes date).answer = .ok bytes)
    (h : (Call.runAll {} (Call.replace ⟨["slots", name]⟩ bytes true)).answer = .error e) :
    (memory.replies ∅ [.save name date g]).map (·.succeeded) = [true] ∧
      (directory.replies {} [.save name date g]).map (·.succeeded) = [false] := by
  have hlocation : SaveDirectory.location name = ⟨["slots", name]⟩ := hname.directory_join
  simp only [replies, trace, step, memory, directory, MemoryFiles.saveTo, SaveDirectory.saveTo,
    hbytes, hlocation, h, List.map_cons, List.map_nil]
  exact ⟨rfl, rfl⟩

/-- The backup of a save that was replaced can be loaded from a directory but not from memory, and
two names that saves in memory may have cannot be replaced in a directory. -/
theorem replies_differ :
    let g := Game.start {}
    let calls : List FileCall := [.save "a" {} g, .save "a" {} g, .load "a.bak" g]
    (Settings.validate {} = .ok () ∧ ∀ call ∈ calls, Location.IsName call.name) ∧
      (memory.replies ∅ calls).map (·.succeeded) = [true, true, false] ∧
      (directory.replies {} calls).map (·.succeeded) = [true, true, true] ∧
      ∀ name ∈ ["a.tmp", "..x"], Location.IsName name ∧
        (memory.replies ∅ [.save name {} g]).map (·.succeeded) = [true] ∧
        (directory.replies {} [.save name {} g]).map (·.succeeded) = [false] := by
  intro g calls
  have hvalid : Settings.validate {} = .ok () := by decide
  have hreachable : Reachable {} g := .start
  obtain ⟨bytes, d, hbytes, hdecode, -⟩ := hreachable.saved hvalid {}
  have hload := Game.load_of_decode (g := g) hdecode
  have ha : IsReplaceable "a" := by decide
  have hrun : IsPlainRun calls :=
    .save ha {} g (.save ha {} g (.load ha.append_bak g .nil))
  have hne : "a" ≠ "a.bak" := by decide
  have hnone : (((∅ : MemoryFiles).insert "a" bytes).insert "a" bytes).find? "a.bak" = none := by
    rw [Dictionary.find?_insert, if_neg hne, Dictionary.find?_insert, if_neg hne]
    rfl
  have hbackup : ((MemoryFiles.backedUp ((MemoryFiles.backedUp ∅ "a").insert "a" bytes) "a").insert
      "a" bytes).find? "a.bak" = some bytes := by
    rw [Dictionary.find?_insert, if_neg hne, MemoryFiles.find?_backedUp, Dictionary.find?_insert,
      if_pos rfl]
    exact if_pos (by decide)
  refine ⟨⟨hvalid, hrun.names⟩, ?_, ?_, ?_⟩
  · simp only [calls, replies, trace, step, memory, MemoryFiles.saveTo, MemoryFiles.loadFrom, hbytes,
      List.map_cons, List.map_nil, hnone]
    rfl
  · rw [← (directory_represents hrun).1]
    simp only [calls, replies, trace, step, keeping, MemoryFiles.saveTo, MemoryFiles.loadFrom,
      hbytes, List.map_cons, List.map_nil, hbackup, hload]
    rfl
  · rw [List.forall_mem_cons, List.forall_mem_singleton]
    constructor
    · have hname : Location.IsName "a.tmp" := by decide
      have hrefused : (Call.runAll {} (Call.replace ⟨["slots", "a.tmp"]⟩ bytes true)).answer =
          .error (.stream (.system .notFound)) := rfl
      exact ⟨hname, replies_of_refused hname hbytes hrefused⟩
    · have hname : Location.IsName "..x" := by decide
      have hrefused : (Call.runAll {} (Call.replace ⟨["slots", "..x"]⟩ bytes true)).answer =
          .error (.stream (.system .isDirectory)) := rfl
      exact ⟨hname, replies_of_refused hname hbytes hrefused⟩

end FileManager

end Savegame
