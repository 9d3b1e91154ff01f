import Savegame.CommandLine.Run
import Savegame.Proofs.Conversion
import Savegame.Proofs.Files
import Savegame.Proofs.ReadableSaves

/-!
# The file that a conversion writes

A conversion on the command line loads a save and writes it at another version, to a file that may
be the same. It ends well if the save can be read and the file be written, and changes nothing but
that file.
-/

namespace Savegame

namespace CommandLine

variable {t : FileTree} {here : Path} {settings : Settings} {save output : String}
  {version : UInt32} {content bytes : Bytes} {d : Record.Decoded}

theorem configuration_of_settingsOf {config? : Option String} {problem : Problem}
    (h : settingsOf t here config? = .error problem) :
    ∃ path cause, problem = .configuration path cause := by
  cases config? with
  | none => cases h
  | some path =>
    rw [settingsOf] at h
    cases hload : Settings.load t (locate here path) with
    | error cause =>
      rw [hload] at h
      exact ⟨path, cause, (Except.error.inj h).symm⟩
    | ok settings =>
      rw [hload] at h
      cases h

/-- What comes of the first half of a conversion, before any file is touched. -/
inductive Converts (t : FileTree) (here : Path) (settings : Settings) (save : String)
    (version : UInt32) : Except Problem Bytes → Prop
  | newer (hversion : Record.newest < version) :
      Converts t here settings save version (.error (.newerVersion version))
  | unread {fault : FileFault} (hversion : version ≤ Record.newest)
      (hread : t.read (locate here save) = .error fault) :
      Converts t here settings save version (.error (.reading save fault))
  | refused {content : Bytes} {e : SaveError} (hversion : version ≤ Record.newest)
      (hread : t.read (locate here save) = .ok content)
      (hdecode : Record.decode settings.maxDescriptionLength content = .error e) :
      Converts t here settings save version (.error (.decoding save e))
  | done {content : Bytes} {d : Record.Decoded} (hversion : version ≤ Record.newest)
      (hread : t.read (locate here save) = .ok content)
      (hdecode : Record.decode settings.maxDescriptionLength content = .ok d) :
      Converts t here settings save version
        (.ok (d.record.stopped.encode ⟨version, settings.maxDescriptionLength⟩).bytes)

/-- No conversion fails on the way out. -/
theorem converts_convertedBytes (t : FileTree) (here : Path) (settings : Settings) (save : String)
    (version : UInt32) :
    Converts t here settings save version (convertedBytes t here settings save version) := by
  rw [convertedBytes]
  by_cases hnewer : Record.newest < version
  · rw [if_pos hnewer]
    exact .newer hnewer
  · have hversion : version ≤ Record.newest := UInt32.not_lt.mp hnewer
    rw [if_neg hnewer, loadGame]
    cases hread : t.read (locate here save) with
    | error fault => exact .unread hversion hread
    | ok content =>
      cases hdecode : Record.decode settings.maxDescriptionLength content with
      | error e =>
        have hload := Game.load_of_error (g := .start settings) hdecode
        simp only [Except.mapError, bind, Except.bind, pure, Except.pure, hload]
        exact .refused hversion hread hdecode
      | ok d =>
        have hload := Game.load_of_decode (g := .start settings) hdecode
        obtain ⟨hanswer, hsink⟩ := Game.write_loaded (g := .start settings) hdecode hversion
        rw [Game.loaded] at hanswer hsink
        simp only [Except.mapError, bind, Except.bind, pure, Except.pure, hload, hanswer, hsink]
        exact .done hversion hread hdecode

/-- A report of a failure that leaves the files alone, and is none of putting a record out. -/
structure Report.Fails (r : Report) (t : FileTree) : Prop where
  exitCode : r.exitCode = 1
  files : r.files.file? = t.file?
  problem : ∀ v e, r.problem? ≠ some (.encoding v e)

theorem Report.fails_of_exitCode {u : FileTree} {problem : Problem} (hfiles : u.file? = t.file?)
    (hcode : problem.exitCode = 1) (hne : ∀ v e, problem ≠ .encoding v e) :
    Report.Fails { files := u, problem? := some problem } t :=
  ⟨hcode, hfiles, fun v e h => hne v e (Option.some.inj h)⟩

/-- A report of new content in one file, found at the end of a location. -/
structure Report.Puts (r : Report) (t : FileTree) (l : Location) (bytes : Bytes) : Prop where
  problem : r.problem? = none
  files : ∃ path, r.files.file? = Function.update t.file? path (some bytes) ∧
    r.files.place l = .ok (.file path bytes false)

theorem fails_convert_of_error {problem : Problem}
    (h : convertedBytes t here settings save version = .error problem) :
    (convert t here settings save output version).Fails t := by
  have hconverts := converts_convertedBytes t here settings save version
  rw [h] at hconverts
  rw [convert, h]
  cases hconverts with
  | newer => exact Report.fails_of_exitCode rfl rfl nofun
  | unread => exact Report.fails_of_exitCode rfl rfl nofun
  | refused => exact Report.fails_of_exitCode rfl rfl nofun

theorem puts_convert (h : convertedBytes t here settings save version = .ok bytes)
    (hwrite : t.CanWrite (locate here output)) :
    (convert t here settings save output version).Puts t (locate here output) bytes := by
  obtain ⟨hmade, content, u, hother⟩ := hwrite
  have hfiles := t.file?_makeDirectories (locate here output).parent
    ((locate here output).segments.length + 1)
  rw [convert, h]
  dsimp only
  generalize t.makeDirectories (locate here output).parent
    ((locate here output).segments.length + 1) = made at hmade hother hfiles
  obtain ⟨answer, made⟩ := made
  dsimp only at hmade hother hfiles
  obtain ⟨v, hput⟩ := FileTree.write_of_write hother bytes
  obtain ⟨path, hupdate, hplace⟩ := FileTree.place_of_write hput
  rw [hmade]
  dsimp only
  rw [hput]
  rw [hfiles] at hupdate
  exact ⟨rfl, path, hupdate, hplace⟩

theorem fails_convert_of_not (h : convertedBytes t here settings save version = .ok bytes)
    (hwrite : ¬ t.CanWrite (locate here output)) :
    (convert t here settings save output version).Fails t := by
  have hfiles := t.file?_makeDirectories (locate here output).parent
    ((locate here output).segments.length + 1)
  rw [FileTree.CanWrite] at hwrite
  rw [convert, h]
  dsimp only at hwrite ⊢
  generalize t.makeDirectories (locate here output).parent
    ((locate here output).segments.length + 1) = made at hwrite hfiles
  obtain ⟨answer, made⟩ := made
  dsimp only at hwrite hfiles
  cases answer with
  | error e => exact Report.fails_of_exitCode hfiles rfl nofun
  | ok _ =>
    cases hput : made.write (locate here output) bytes with
    | error e =>
      dsimp only
      rw [hput]
      exact Report.fails_of_exitCode hfiles rfl nofun
    | ok u => exact absurd ⟨rfl, bytes, u, hput⟩ hwrite

/-- All that a conversion needs: settings, a version that can be written, a save that is accepted
under the settings, and a place for the new one. -/
structure Convertible (t : FileTree) (here : Path) (config? : Option String) (save output : String)
    (version : UInt32) (settings : Settings) (content : Bytes) (d : Record.Decoded) : Prop where
  configured : settingsOf t here config? = .ok settings
  known : version ≤ Record.newest
  read : t.read (locate here save) = .ok content
  accepted : Record.decode settings.maxDescriptionLength content = .ok d
  write : t.CanWrite (locate here output)

/-- A conversion either lacks something and fails, or puts the save at the new version in its
file. -/
theorem fails_or_puts (t : FileTree) (here : Path) {arguments : List String} {verbosity : Nat}
    {config? : Option String}
    (harguments :
      Invocation.ofArguments arguments = .ok ⟨verbosity, config?, .convert save output version⟩) :
    ((run t here arguments).Fails t ∧
        ¬ ∃ settings content d, Convertible t here config? save output version settings content d) ∨
      ∃ settings content d, Convertible t here config? save output version settings content d ∧
        (run t here arguments).Puts t (locate here output)
          (d.record.stopped.encode ⟨version, settings.maxDescriptionLength⟩).bytes := by
  rw [run, harguments]
  dsimp only
  cases hsettings : settingsOf t here config? with
  | error problem =>
    obtain ⟨path, cause, rfl⟩ := configuration_of_settingsOf hsettings
    refine .inl ⟨Report.fails_of_exitCode rfl rfl (by rintro v e ⟨⟩), ?_⟩
    rintro ⟨settings, content, d, h⟩
    cases hsettings.symm.trans h.configured
  | ok settings =>
    have hconverts := converts_convertedBytes t here settings save version
    cases hbytes : convertedBytes t here settings save version with
    | error problem =>
      rw [hbytes] at hconverts
      refine .inl ⟨fails_convert_of_error hbytes, ?_⟩
      rintro ⟨other, content, d, h⟩
      obtain rfl : settings = other := Except.ok.inj (hsettings.symm.trans h.configured)
      cases hconverts with
      | newer hversion => exact UInt32.not_lt.mpr h.known hversion
      | unread _ hread => cases hread.symm.trans h.read
      | refused _ hread hdecode =>
        obtain rfl := Except.ok.inj (hread.symm.trans h.read)
        cases hdecode.symm.trans h.accepted
    | ok bytes =>
      rw [hbytes] at hconverts
      cases hconverts with
      | @done content d hversion hread hdecode =>
        by_cases hwrite : t.CanWrite (locate here output)
        · refine .inr ⟨settings, content, d, ⟨hsettings, hversion, hread, hdecode, hwrite⟩, ?_⟩
          exact puts_convert hbytes hwrite
        · refine .inl ⟨fails_convert_of_not hbytes hwrite, ?_⟩
          rintro ⟨_, _, _, h⟩
          exact hwrite h.write

/-- What a conversion puts in its file is accepted again, as the record that was loaded, up to what a
save at the version keeps of it. -/
theorem Convertible.accepted_again {r : Report} {config? : Option String}
    (h : Convertible t here config? save output version settings content d)
    (hputs : r.Puts t (locate here output)
      (d.record.stopped.encode ⟨version, settings.maxDescriptionLength⟩).bytes) :
    ∃ path bytes e, r.files.file? = Function.update t.file? path (some bytes) ∧
      r.files.place (locate here output) = .ok (.file path bytes false) ∧
      Record.decode settings.maxDescriptionLength bytes = .ok e ∧
      e.record = d.record.stopped.kept version := by
  obtain ⟨path, hfiles, hplace⟩ := hputs.files
  have hsavable := (Record.isSavable_of_decode h.accepted).stopped
  obtain ⟨e, hagain, hrecord⟩ := Record.exists_decode_encode hsavable.toIsSound
    (Record.description_lt_of_decode h.accepted) h.known hsavable.description
  exact ⟨path, _, e, hfiles, hplace, hagain, hrecord⟩

/-- A conversion succeeds if and only if the version is not too new, the save is accepted under the
settings and its new place can be written. It then puts one file there, and no other is created or
changed. That file is accepted under the same settings, as the record that was loaded, up to what a
save at the version keeps of it. A conversion that fails creates and changes no file, and none fails
for the record that it puts out. -/
theorem convert_keeps_game (t : FileTree) (here : Path) {arguments : List String}
    {verbosity : Nat} {config? : Option String}
    (harguments :
      Invocation.ofArguments arguments = .ok ⟨verbosity, config?, .convert save output version⟩) :
    let report := run t here arguments
    let source := locate here save
    let target := locate here output
    (report.exitCode = 0 ↔ ∃ settings content d,
      settingsOf t here config? = .ok settings ∧ version ≤ Record.newest ∧ t.read source = .ok content ∧
        Record.decode settings.maxDescriptionLength content = .ok d ∧ t.CanWrite target) ∧
    (report.exitCode ≠ 0 → report.files.file? = t.file?) ∧
    (∀ settings content d, settingsOf t here config? = .ok settings →
      t.read source = .ok content → Record.decode settings.maxDescriptionLength content = .ok d →
      report.exitCode = 0 → ∃ path bytes e,
        report.files.file? = Function.update t.file? path (some bytes) ∧
        report.files.place target = .ok (.file path bytes false) ∧
        Record.decode settings.maxDescriptionLength bytes = .ok e ∧
        e.record = ({ d.record with running := false } : Record).kept version) ∧
    ∀ v e, report.problem? ≠ some (.encoding v e) := by
  intro report source target
  rcases fails_or_puts t here harguments with
    ⟨hfails, hnone⟩ | ⟨settings, content, d, hall, hputs⟩
  · have hcode : report.exitCode ≠ 0 := by
      rw [hfails.exitCode]
      decide
    refine ⟨⟨fun h => absurd h hcode, ?_⟩, fun _ => hfails.files, ?_, hfails.problem⟩
    · rintro ⟨settings, content, d, hsettings, hversion, hread, hdecode, hwrite⟩
      exact absurd ⟨settings, content, d, hsettings, hversion, hread, hdecode, hwrite⟩ hnone
    · intro _ _ _ _ _ _ h
      exact absurd h hcode
  · have hcode : report.exitCode = 0 := by
      rw [Report.exitCode, hputs.problem]
    refine ⟨⟨fun _ => ⟨settings, content, d, hall.configured, hall.known, hall.read, hall.accepted,
      hall.write⟩, fun _ => hcode⟩, fun h => absurd hcode h, ?_, ?_⟩
    · intro other content' d' hsettings hread hdecode _
      obtain rfl : settings = other := Except.ok.inj (hall.configured.symm.trans hsettings)
      obtain rfl : content = content' := Except.ok.inj (hall.read.symm.trans hread)
      obtain rfl : d = d' := Except.ok.inj (hall.accepted.symm.trans hdecode)
      exact hall.accepted_again hputs
    · intro v e h
      rw [hputs.problem] at h
      cases h

/-- The save on the shelf is converted to an older version in its own place. -/
theorem convert_keeps_game_shelf :
    let arguments := ["--config", "c", "convert", "d/a.m3s", "-o", "d/a.m3s", "--version", "148"]
    Invocation.ofArguments arguments =
        .ok ⟨0, some "c", .convert "d/a.m3s" "d/a.m3s" 148⟩ ∧
      ∃ bytes, ((described "Temple").saveToBytes {}).answer = .ok bytes ∧
        let report := run (shelf bytes) [] arguments
        report.exitCode = 0 ∧ ∃ path converted e,
          report.files.file? = Function.update (shelf bytes).file? path (some converted) ∧
            Record.decode 1000 converted = .ok e ∧ e.record.description = "" := by
  intro arguments
  have harguments : Invocation.ofArguments arguments =
      .ok ⟨0, some "c", .convert "d/a.m3s" "d/a.m3s" 148⟩ := by
    decide +kernel
  obtain ⟨bytes, d, hanswer, hdecode, -⟩ := exists_save_described "Temple" (by decide)
  refine ⟨harguments, bytes, hanswer, ?_⟩
  intro report
  have hread : (shelf bytes).read (locate [] "d/a.m3s") = .ok bytes := by
    rw [FileTree.read, place_save_shelf bytes]
    rfl
  have hmade : (shelf bytes).makeDirectories (locate [] "d/a.m3s").parent
      ((locate [] "d/a.m3s").segments.length + 1) = (.ok (), shelf bytes) := by
    cbv
  have hwrite : (shelf bytes).CanWrite (locate [] "d/a.m3s") := by
    rw [FileTree.CanWrite, hmade]
    exact ⟨rfl, [], _, FileTree.write_eq_ok_iff.mpr ⟨_, _, place_save_shelf bytes, rfl, rfl⟩⟩
  obtain ⟨hsuccess, -, hfile, -⟩ := convert_keeps_game (shelf bytes) [] harguments
  have hcode : report.exitCode = 0 :=
    hsuccess.mpr ⟨_, bytes, d, settingsOf_shelf bytes, by decide, hread, hdecode, hwrite⟩
  obtain ⟨path, converted, e, hupdate, -, hagain, hrecord⟩ :=
    hfile _ bytes d (settingsOf_shelf bytes) hread hdecode hcode
  refine ⟨hcode, path, converted, e, hupdate, hagain, ?_⟩
  rw [hrecord]
  rfl

end CommandLine

end Savegame
