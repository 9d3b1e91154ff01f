import Savegame.CommandLine.Run
import Savegame.Proofs.Limits
import Savegame.Proofs.Naming
import Savegame.Proofs.SavedGame
import Savegame.Proofs.Sidecar

/-!
# Which saves the commands can read

A listing has a line for each save that it can read, and an inspection says of one save what is in
it. The two do not read under the same limit on descriptions: an inspection keeps to the settings,
a listing to the standard ones.
-/

namespace Savegame

namespace Location

theorem split_ne_nil (chars : List Char) : split chars ≠ [] := by
  cases chars with
  | nil => simp [split]
  | cons c rest =>
    rw [split]
    split
    · simp
    · split <;> simp

theorem split_append (front tail : List Char) :
    split (front ++ '/' :: tail) = split front ++ split tail := by
  induction front with
  | nil => rfl
  | cons c rest ih =>
    rw [List.cons_append, split, split]
    split
    · rw [ih]
      rfl
    · rw [ih]
      cases hrest : split rest with
      | nil => exact absurd hrest (split_ne_nil rest)
      | cons piece pieces => rfl

/-- The last name of a path that has one is the name of what it leads to. -/
theorem fileName?_of_append {text last : String} {front : List Char} (hlast : IsName last)
    (htext : text.toList = front ++ '/' :: last.toList) :
    (ofText text).fileName? = some last := by
  have hsegments : (ofText text).segments = (split front).map String.ofList ++ [last] := by
    rw [ofText, htext, split_append, split_of_notMem hlast.noSlash]
    simp
  have hnames : (ofText text).names.getLast? = some last := by
    rw [names, hsegments, List.filter_append]
    simp [hlast.notEmpty, hlast.notHere]
  rw [fileName?, hnames]
  exact if_neg hlast.notAbove

end Location

namespace CommandLine

open Location (IsName)

theorem intercalate_append (below : List (List Char)) (last : List Char) :
    ∃ front, '/' :: ['/'].intercalate (below ++ [last]) = front ++ '/' :: last := by
  induction below with
  | nil => exact ⟨[], by simp [List.intercalate]⟩
  | cons name rest ih =>
    obtain ⟨front, hfront⟩ := ih
    refine ⟨'/' :: name ++ front, ?_⟩
    rw [List.append_assoc, ← hfront]
    cases rest with
    | nil => simp [List.intercalate]
    | cons next rest => simp [List.intercalate]

theorem toList_shown (root : String) (below : Path) (last : String) :
    ∃ front, (shown root (below ++ [last])).toList = front ++ '/' :: last.toList := by
  obtain ⟨front, hfront⟩ := intercalate_append (below.map String.toList) last.toList
  have hroot : ∃ start, (if root.endsWith "/" then root else root ++ "/").toList =
      start ++ ['/'] := by
    split
    case isTrue hslash =>
      rw [← String.endsWith_toSlice, String.Slice.endsWith_string_iff] at hslash
      obtain ⟨start, hstart⟩ := hslash
      rw [String.copy_toSlice] at hstart
      exact ⟨start, hstart.symm⟩
    case isFalse => exact ⟨root.toList, by simp⟩
  obtain ⟨start, hstart⟩ := hroot
  refine ⟨start ++ front, ?_⟩
  rw [shown, String.toList_append, hstart, String.toList_intercalate, List.map_append,
    List.append_assoc, List.append_assoc, ← hfront]
  rfl

/-- The line that a listing has for a record. -/
def saveLine (path : String) (r : Record) : Bytes :=
  Utf8.encode (path ++ "\tv" ++ Numeral.decimal 1 r.version.toNat ++ "\t" ++ r.description ++ "\n")

theorem saveLine_ne_nil (path : String) (r : Record) : saveLine path r ≠ [] := by
  intro hnil
  have hlength := congrArg List.length hnil
  rw [saveLine, Utf8.length_encode, String.utf8ByteSize_append] at hlength
  exact absurd hlength (by simp)

theorem listLine_eq {root last : String} (hname : IsName last)
    (hextension : Location.extension? last = some "m3s") (below : Path) (content : Bytes) :
    listLine (shown root (below ++ [last])) content =
      match Record.decode 256 content with
      | .ok d => saveLine (shown root (below ++ [last])) d.record
      | .error _ => [] := by
  obtain ⟨front, hfront⟩ := toList_shown root below last
  rw [listLine, Location.fileName?_of_append hname hfront]
  exact if_neg (not_not.mpr hextension)

variable {t : FileTree} {here : Path} {settings : Settings} {content : Bytes}

/-- An inspection of a save ends well exactly if the save can be read under the settings. -/
theorem inspect_eq {file : String} (hread : t.read (locate here file) = .ok content) :
    inspect t here settings file =
      match Record.decode settings.maxDescriptionLength content with
      | .ok d =>
        { files := t, output := line (Summary.ofRecord { d.record with running := true }) }
      | .error e => { files := t, problem? := some (.decoding file e) } := by
  rw [inspect, loadGame, hread]
  have hlimit : (Game.start settings).settings.maxDescriptionLength =
      settings.maxDescriptionLength := rfl
  simp only [Except.mapError, bind, Except.bind, Game.load, hlimit]
  cases Record.decode settings.maxDescriptionLength content with
  | error e => rfl
  | ok d => rfl

theorem run_list {listing : List String} {verbosity : Nat} {config? : Option String}
    {root : String} {path : Path}
    (hlisting : Invocation.ofArguments listing = .ok ⟨verbosity, config?, .list root⟩)
    (hsettings : settingsOf t here config? = .ok settings)
    (hroot : t.place (locate here root) = .ok (.directory path)) :
    (run t here listing).output = (t.files path).flatMap fun file =>
      listLine (shown root (file.1.drop path.length)) file.2 := by
  rw [run, hlisting]
  simp only [hsettings, list, hroot]

theorem run_inspect {inspecting : List String} {verbosity : Nat} {config? : Option String}
    {file : String}
    (hinspecting : Invocation.ofArguments inspecting = .ok ⟨verbosity, config?, .inspect file⟩)
    (hsettings : settingsOf t here config? = .ok settings) :
    run t here inspecting = inspect t here settings file := by
  rw [run, hinspecting]
  simp only [hsettings]

theorem reported_fields (r : Record) :
    (Summary.ofRecord r).fields? ["version", "description"] =
      some [.integer r.version.toNat, .ofText r.description] := by
  let chosen : List (String × Json) :=
    [("version", .integer r.version.toNat), ("description", .ofText r.description)]
  rw [Summary.ofRecord]
  refine Json.fields?_ofMembers_of_subset ?_ chosen ?_
  · simp
  · simp [chosen]

theorem printed_iff {root last : String} (hname : IsName last)
    (hextension : Location.extension? last = some "m3s") (below : Path) (content : Bytes) :
    listLine (shown root (below ++ [last])) content ≠ [] ↔
      ∃ d, Record.decode 256 content = .ok d := by
  rw [listLine_eq hname hextension]
  cases Record.decode 256 content with
  | error e => simp
  | ok d => simp [saveLine_ne_nil]

theorem inspected_iff {file : String} (hread : t.read (locate here file) = .ok content) :
    (inspect t here settings file).problem? = none ↔
      ∃ d, Record.decode settings.maxDescriptionLength content = .ok d := by
  rw [inspect_eq hread]
  cases Record.decode settings.maxDescriptionLength content with
  | error e => simp
  | ok d => simp

/-- A listing and an inspection under the same settings agree on whether a file below the listed
directory is a readable save, exactly if its description is not between the limit of the settings
and the standard one. Where both read it they report the same version and description. -/
theorem list_agrees_with_inspect {listing inspecting : List String} {v w : Nat}
    {config? : Option String} {root file last : String} {path below : Path}
    (hlisting : Invocation.ofArguments listing = .ok ⟨v, config?, .list root⟩)
    (hinspecting : Invocation.ofArguments inspecting = .ok ⟨w, config?, .inspect file⟩)
    (hsettings : settingsOf t here config? = .ok settings)
    (hroot : t.place (locate here root) = .ok (.directory path))
    (hfile : (path ++ (below ++ [last]), content) ∈ t.files path)
    (hname : IsName last) (hextension : Location.extension? last = some "m3s")
    (hplace : t.place (locate here file) = .ok (.file (path ++ (below ++ [last])) content false)) :
    let limit := settings.maxDescriptionLength
    let printed := listLine (shown root (below ++ [last])) content
    let inspected := run t here inspecting
    (∃ before after, (run t here listing).output = before ++ printed ++ after) ∧
      ((printed ≠ [] ↔ inspected.problem? = none) ↔
        ∀ d, Record.decode (max 256 limit) content = .ok d →
          (d.record.description.utf8ByteSize ≤ 256 ↔
            d.record.description.utf8ByteSize ≤ limit)) ∧
      (printed ≠ [] → inspected.problem? = none → ∃ (r : Record) (summary : Json),
        printed = saveLine (shown root (below ++ [last])) r ∧ inspected.output = line summary ∧
          summary.fields? ["version", "description"] =
            some [.integer r.version.toNat, .ofText r.description]) := by
  intro limit printed inspected
  have hread : t.read (locate here file) = .ok content := by
    rw [FileTree.read, hplace]
    rfl
  have hrun : inspected = inspect t here settings file := run_inspect hinspecting hsettings
  have hprinted : printed ≠ [] ↔ ∃ d, Record.decode 256 content = .ok d :=
    printed_iff hname hextension below content
  have hinspected : inspected.problem? = none ↔ ∃ d, Record.decode limit content = .ok d := by
    rw [hrun]
    exact inspected_iff hread
  refine ⟨?_, ?_, fun hline hproblem => ?_⟩
  · obtain ⟨front, back, hsplit⟩ := List.append_of_mem hfile
    rw [run_list hlisting hsettings hroot, hsplit, List.flatMap_append, List.flatMap_cons,
      List.drop_left, ← List.append_assoc]
    exact ⟨_, _, rfl⟩
  · rw [hprinted, hinspected]
    exact Record.isOk_decode_iff 256 limit content
  · obtain ⟨d, hd⟩ := hprinted.mp hline
    obtain ⟨e, he⟩ := hinspected.mp hproblem
    obtain rfl := Record.decode_unique hd he
    refine ⟨d.record, Summary.ofRecord { d.record with running := true }, ?_, ?_, ?_⟩
    · exact (listLine_eq hname hextension below content).trans (by rw [hd])
    · rw [hrun, inspect_eq hread, he]
    · exact reported_fields { d.record with running := true }

/-- Settings that allow longer descriptions than the standard ones, and a directory with a save. -/
def shelf (bytes : Bytes) : FileTree where
  entries := ⟨[(["c"], .file (Utf8.encode "max_description_len = 1000")), (["d"], .directory),
    (["d", "a.m3s"], .file bytes)]⟩

theorem settingsOf_shelf (bytes : Bytes) :
    settingsOf (shelf bytes) [] (some "c") = .ok { maxDescriptionLength := 1000 } := by
  have hplace : (shelf bytes).place (locate [] "c") =
      .ok (.file ["c"] (Utf8.encode "max_description_len = 1000") false) := by
    cbv
  have hsettings : Settings.ofText "max_description_len = 1000" =
      .ok { maxDescriptionLength := 1000 } := by
    decide +kernel
  simp only [settingsOf, Settings.load, FileTree.isPresent, FileTree.read, hplace, if_true]
  simp [hsettings, bind, Except.bind, pure, Except.pure, Except.mapError]

theorem arguments_list :
    Invocation.ofArguments ["--config", "c", "list", "d"] = .ok ⟨0, some "c", .list "d"⟩ := by
  decide +kernel

theorem arguments_inspect :
    Invocation.ofArguments ["--config", "c", "inspect", "d/a.m3s"] =
      .ok ⟨0, some "c", .inspect "d/a.m3s"⟩ := by
  decide +kernel

theorem place_shelf (bytes : Bytes) :
    (shelf bytes).place (locate [] "d") = .ok (.directory ["d"]) := by
  cbv

theorem place_save_shelf (bytes : Bytes) :
    (shelf bytes).place (locate [] "d/a.m3s") = .ok (.file ["d", "a.m3s"] bytes false) := by
  cbv

/-- A new game under the settings of the shelf, once its description is set. -/
def described (text : String) : Game :=
  (Operation.setDescription text).perform (.start { maxDescriptionLength := 1000 })

theorem exists_save_described (text : String) (htext : text.utf8ByteSize ≤ 1000) :
    ∃ bytes d, ((described text).saveToBytes {}).answer = .ok bytes ∧
      Record.decode 1000 bytes = .ok d ∧ d.record.description = text := by
  let g : Game := .start { maxDescriptionLength := 1000 }
  have hdescribed : described text = { g with record.description := text } := by
    rw [described, Operation.perform, Game.setDescription, if_neg]
    · rfl
    · exact not_lt.mpr htext
  have hreached : Reachable g.settings (described text) := .after (.setDescription text) .start
  obtain ⟨bytes, d, hanswer, hdecode, hrecord, -⟩ := hreached.saved rfl {}
  refine ⟨bytes, d, hanswer, hdecode, ?_⟩
  rw [hrecord, hdescribed]
  rfl

/-- A save without a description is printed and inspected. -/
theorem list_agrees_with_inspect_shelf :
    ∃ bytes, ((described "").saveToBytes {}).answer = .ok bytes ∧
      let t := shelf bytes
      let inspected := run t [] ["--config", "c", "inspect", "d/a.m3s"]
      (Invocation.ofArguments ["--config", "c", "list", "d"] = .ok ⟨0, some "c", .list "d"⟩ ∧
        Invocation.ofArguments ["--config", "c", "inspect", "d/a.m3s"] =
          .ok ⟨0, some "c", .inspect "d/a.m3s"⟩ ∧
        settingsOf t [] (some "c") = .ok { maxDescriptionLength := 1000 } ∧
        t.place (locate [] "d") = .ok (.directory ["d"]) ∧
        (["d"] ++ ([] ++ ["a.m3s"]), bytes) ∈ t.files ["d"] ∧ IsName "a.m3s" ∧
        Location.extension? "a.m3s" = some "m3s" ∧
        t.place (locate [] "d/a.m3s") = .ok (.file (["d"] ++ ([] ++ ["a.m3s"])) bytes false)) ∧
      (listLine (shown "d" ([] ++ ["a.m3s"])) bytes ≠ [] ↔ inspected.problem? = none) := by
  obtain ⟨bytes, d, hanswer, hdecode, hdescription⟩ := exists_save_described "" (by decide)
  refine ⟨bytes, hanswer, ?_⟩
  intro t inspected
  have hfile : (["d"] ++ ([] ++ ["a.m3s"]), bytes) ∈ t.files ["d"] := List.mem_singleton_self _
  have hname : IsName "a.m3s" := by decide
  have hextension : Location.extension? "a.m3s" = some "m3s" := rfl
  refine ⟨⟨arguments_list, arguments_inspect, settingsOf_shelf bytes, place_shelf bytes, hfile,
    hname, hextension, place_save_shelf bytes⟩, ?_⟩
  obtain ⟨-, hagree, -⟩ := list_agrees_with_inspect arguments_list arguments_inspect
    (settingsOf_shelf bytes) (place_shelf bytes) hfile hname hextension (place_save_shelf bytes)
  apply hagree.mpr
  intro e he
  obtain rfl := Record.decode_unique he hdecode
  rw [hdescription]
  decide

/-- A save with a description of 300 bytes is inspected under settings that allow it, but not
printed under them. -/
theorem inspected_not_listed :
    ∃ bytes, ((described (String.ofList (.replicate 300 'a'))).saveToBytes {}).answer = .ok bytes ∧
      let t := shelf bytes
      let inspected := run t [] ["--config", "c", "inspect", "d/a.m3s"]
      settingsOf t [] (some "c") = .ok { maxDescriptionLength := 1000 } ∧
        t.files ["d"] = [(["d", "a.m3s"], bytes)] ∧ inspected.problem? = none ∧
        (run t [] ["--config", "c", "list", "d"]).output = [] := by
  have hsize : (String.ofList (List.replicate 300 'a')).utf8ByteSize = 300 := by decide +kernel
  obtain ⟨bytes, d, hanswer, hdecode, hdescription⟩ :=
    exists_save_described _ (hsize.trans_le (by decide))
  refine ⟨bytes, hanswer, ?_⟩
  intro t inspected
  have hname : IsName "a.m3s" := by decide
  refine ⟨settingsOf_shelf bytes, rfl, ?_, ?_⟩
  · have hread : t.read (locate [] "d/a.m3s") = .ok bytes := by
      rw [FileTree.read, place_save_shelf bytes]
      rfl
    have hrun : inspected = inspect t [] { maxDescriptionLength := 1000 } "d/a.m3s" :=
      run_inspect arguments_inspect (settingsOf_shelf bytes)
    rw [hrun]
    exact (inspected_iff hread).mpr ⟨d, hdecode⟩
  · have hnone : listLine (shown "d" ([] ++ ["a.m3s"])) bytes = [] := by
      by_contra hprinted
      obtain ⟨e, he⟩ := (printed_iff hname rfl [] bytes).mp hprinted
      have hle := ((Record.decode_iff_of_le (by decide : 256 ≤ 1000)).mp he).2
      rw [Record.decode_unique he hdecode, hdescription, hsize] at hle
      exact absurd hle (by decide)
    rw [run_list arguments_list (settingsOf_shelf bytes) (place_shelf bytes)]
    exact (List.append_nil _).trans hnone

end CommandLine

end Savegame
