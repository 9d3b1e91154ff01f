import Savegame.Proofs.Keys
import Savegame.Proofs.NumberText
import Savegame.Proofs.ReadableSaves
import Savegame.Proofs.Wording

/-!
# Summaries lose no variable

The variables of a summary stand under their names. No two have the same name, so every variable
that holds something is there, and the text of the summary is read back as what was printed.
-/

namespace Savegame

theorem Json.readsBack_ofMembers {pairs : List (String × Json)} (h : ∀ p ∈ pairs, ReadsBack p.2) :
    ReadsBack (.ofMembers pairs) := by
  apply readsBack_object
  intro member hmember
  obtain ⟨p, hp, rfl⟩ := List.mem_map.mp hmember
  exact h p hp

namespace Summary

open Json (ReadsBack)

variable (t : VariableTable)

theorem nodup_names :
    ((t.nonZero.map fun entry => (Game.describe entry.1, entry.2)).map (·.1)).Nodup := by
  rw [List.map_map]
  have hnames := t.nodup_nonZero.map Game.describe_injective
  rwa [List.map_map] at hnames

theorem valuesByName_perm :
    (valuesByName t).entries.Perm (t.nonZero.map fun entry => (Game.describe entry.1, entry.2)) :=
  Dictionary.entries_ofList_perm (nodup_names t)

theorem nodup_keys_valuesByName : (valuesByName t).keys.Nodup :=
  ((valuesByName_perm t).map _).nodup_iff.mpr (nodup_names t)

theorem mem_valuesByName {name : String} {x : Int32} :
    (name, x) ∈ (valuesByName t).entries ↔
      ∃ i, Variable.inRange i = true ∧ t.read i ≠ 0 ∧ Game.describe i = name ∧ t.read i = x := by
  rw [(valuesByName_perm t).mem_iff, List.mem_map]
  constructor
  · rintro ⟨⟨i, x⟩, hmem, hpair⟩
    obtain ⟨rfl, rfl⟩ := Prod.mk.inj hpair
    obtain ⟨hrange, hne, rfl⟩ := VariableTable.mem_nonZero.mp hmem
    exact ⟨i, hrange, hne, rfl, rfl⟩
  · rintro ⟨i, hrange, hne, rfl, rfl⟩
    exact ⟨(i, t.read i), VariableTable.mem_nonZero.mpr ⟨hrange, hne, rfl⟩, rfl⟩

/-- The members of the object of variables. -/
def values : List (String × Json) :=
  (valuesByName t).entries.map fun entry => (entry.1, .integer entry.2.toInt)

theorem readsBack_values : ReadsBack (.ofMembers (values t)) := by
  apply Json.readsBack_ofMembers
  intro p hp
  obtain ⟨entry, -, rfl⟩ := List.mem_map.mp hp
  exact Json.readsBack_integer _

theorem readsBack_location : ReadsBack (location t) := by
  apply Json.readsBack_ofMembers
  simp only [List.forall_mem_cons]
  exact ⟨Json.readsBack_integer _, Json.readsBack_integer _, Json.readsBack_integer _,
    List.forall_mem_nil _⟩

theorem readsBack_camera (r : Record) : ReadsBack (camera r) := by
  apply Json.readsBack_ofMembers
  simp only [List.forall_mem_cons]
  exact ⟨Json.readsBack_bool _, readsBack_number _, readsBack_number _, readsBack_number _,
    Json.readsBack_integer _, List.forall_mem_nil _⟩

theorem readsBack_ofRecord (r : Record) : ReadsBack (ofRecord r) := by
  have hitems : ReadsBack (.array (r.inventory.items.map fun item => .integer item.toNat)) := by
    apply Json.readsBack_array
    intro item hitem
    obtain ⟨n, -, rfl⟩ := List.mem_map.mp hitem
    exact Json.readsBack_integer _
  apply Json.readsBack_ofMembers
  simp only [List.forall_mem_cons]
  exact ⟨Json.readsBack_integer _, Json.readsBack_bool _, Json.readsBack_integer _,
    Json.readsBack_integer _, readsBack_location _, hitems, Json.readsBack_integer _,
    readsBack_camera r, Json.readsBack_string _, Json.readsBack_string _, readsBack_values _,
    List.forall_mem_nil _⟩

theorem fields?_vars (r : Record) :
    (ofRecord r).fields? ["vars"] = some [.ofMembers (values r.table)] := by
  let chosen : List (String × Json) := [("vars", .ofMembers (values r.table))]
  rw [ofRecord]
  refine Json.fields?_ofMembers_of_subset ?_ chosen ?_
  · simp
  · simp [chosen, values]

theorem nodup_values : ((values t).map (·.1)).Nodup := by
  rw [values, List.map_map]
  exact nodup_keys_valuesByName t

theorem mem_values {name : String} {value : Json} :
    (name, value) ∈ values t ↔
      ∃ i, 1 ≤ i ∧ i ≤ 2047 ∧ t.read i ≠ 0 ∧ name = Game.describe i ∧
        value = .integer (t.read i).toInt := by
  rw [values, List.mem_map]
  constructor
  · rintro ⟨entry, hentry, hpair⟩
    obtain ⟨rfl, rfl⟩ := Prod.mk.inj hpair
    obtain ⟨i, hrange, hne, hname, hvalue⟩ := (mem_valuesByName t).mp hentry
    obtain ⟨hpos, hle⟩ := Variable.inRange_iff.mp hrange
    exact ⟨i, hpos, hle, hne, hname.symm, by rw [hvalue]⟩
  · rintro ⟨i, hpos, hle, hne, rfl, rfl⟩
    have hrange := Variable.inRange_iff.mpr ⟨hpos, hle⟩
    exact ⟨_, (mem_valuesByName t).mpr ⟨i, hrange, hne, rfl, rfl⟩, rfl⟩

end Summary

namespace CommandLine

theorem ofBytes?_line {v : Json} (h : v.ReadsBack) : Json.ofBytes? (line v) = some v := by
  have hblank : Json.Reader.skipBlanks [0x0A] = [] := rfl
  rw [line]
  exact h.ofBytes? (.line []) hblank

/-- An inspection of a save that can be read prints every variable that holds something, and no
other. Each has one member of its own, with its name and its value, since no two variables have the
same name. -/
theorem inspect_loses_no_variable {t : FileTree} {here : Path} {arguments : List String}
    {verbosity : Nat} {config? : Option String} {file : String} {settings : Settings}
    {content : Bytes} {d : Record.Decoded}
    (harguments : Invocation.ofArguments arguments = .ok ⟨verbosity, config?, .inspect file⟩)
    (hsettings : settingsOf t here config? = .ok settings)
    (hread : t.read (locate here file) = .ok content)
    (hdecode : Record.decode settings.maxDescriptionLength content = .ok d) :
    let table := d.record.table
    let report := run t here arguments
    ∃ summary values,
      report.problem? = none ∧ Json.ofBytes? report.output = some summary ∧
      summary.fields? ["vars"] = some [.ofMembers values] ∧
      (values.map (·.1)).Nodup ∧
      (∀ name value, (name, value) ∈ values ↔
        ∃ i, 1 ≤ i ∧ i ≤ 2047 ∧ table.read i ≠ 0 ∧ name = Game.describe i ∧
          value = .integer (table.read i).toInt) ∧
      (∀ i, 1 ≤ i → i ≤ 2047 → table.read i ≠ 0 →
        (Json.ofMembers values).fields? [Game.describe i] =
          some [.integer (table.read i).toInt]) ∧
      Function.Injective Game.describe := by
  intro table report
  let r : Record := { d.record with running := true }
  have hreport : report = { files := t, output := line (Summary.ofRecord r) } := by
    have hrun : report = inspect t here settings file := run_inspect harguments hsettings
    rw [hrun, inspect_eq hread, hdecode]
  refine ⟨Summary.ofRecord r, Summary.values table, ?_, ?_, Summary.fields?_vars r,
    Summary.nodup_values table, fun _ _ => Summary.mem_values table, ?_,
    Game.describe_injective⟩
  · rw [hreport]
  · rw [hreport]
    exact ofBytes?_line (Summary.readsBack_ofRecord r)
  · intro i hpos hle hne
    let entry : String × Json := (Game.describe i, .integer (table.read i).toInt)
    have hentry : entry ∈ Summary.values table :=
      (Summary.mem_values table).mpr ⟨i, hpos, hle, hne, rfl, rfl⟩
    exact Json.fields?_ofMembers_of_subset (Summary.nodup_values table) [entry]
      (List.cons_subset.mpr ⟨hentry, List.nil_subset _⟩)

/-- A new game whose age is set. -/
def agedGame : Record :=
  { Record.newGame with table := Record.newGame.table.write 61 7 }

/-- The age and the variable that new games start with are both printed. -/
theorem inspect_loses_no_variable_agedGame :
    let content := (agedGame.encode ⟨149, 1000⟩).bytes
    let t := shelf content
    let arguments := ["--config", "c", "inspect", "d/a.m3s"]
    Invocation.ofArguments arguments = .ok ⟨0, some "c", .inspect "d/a.m3s"⟩ ∧
      settingsOf t [] (some "c") = .ok { maxDescriptionLength := 1000 } ∧
      t.read (locate [] "d/a.m3s") = .ok content ∧
      ∃ d, Record.decode 1000 content = .ok d ∧
        ∃ summary values, Json.ofBytes? (run t [] arguments).output = some summary ∧
          summary.fields? ["vars"] = some [.ofMembers values] ∧
          ("LocationAge", .integer 7) ∈ values ∧ (Game.describe 1, .integer 1) ∈ values := by
  intro content t arguments
  have hread : t.read (locate [] "d/a.m3s") = .ok content := by
    rw [FileTree.read, place_save_shelf content]
    rfl
  have hsound : agedGame.IsSound :=
    ⟨by decide, (Inventory.validate_eq_ok_iff _).mp (by decide)⟩
  have hfits : agedGame.Fits ⟨149, 1000⟩ := fun _ => Nat.zero_le 1000
  have hdecode := Record.decode_encode_append hsound (by decide) (by decide) hfits []
  rw [List.append_nil] at hdecode
  refine ⟨arguments_inspect, settingsOf_shelf content, hread, _, hdecode, ?_⟩
  obtain ⟨summary, values, -, hsummary, hvars, -, hmem, -, -⟩ :=
    inspect_loses_no_variable arguments_inspect (settingsOf_shelf content) hread hdecode
  have hage : (agedGame.kept 149).table.read 61 = 7 := VariableTable.read_write_self _ 61 7
  have hfirst : (agedGame.kept 149).table.read 1 = 1 :=
    (VariableTable.read_write_of_ne _ 7 (by decide)).trans (VariableTable.read_write_self _ 1 1)
  refine ⟨summary, values, hsummary, hvars, (hmem _ _).mpr ⟨61, ?_⟩, (hmem _ _).mpr ⟨1, ?_⟩⟩
  · exact ⟨by decide, by decide, by rw [hage]; decide, by decide +kernel, by rw [hage]; rfl⟩
  · exact ⟨by decide, by decide, by rw [hfirst]; decide, rfl, by rw [hfirst]; rfl⟩

end CommandLine

end Savegame
