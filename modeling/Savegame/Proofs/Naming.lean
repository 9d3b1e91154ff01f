import Savegame.Proofs.Numeral
import Savegame.Slot.Directory

/-!
# The files of a slot

A slot has up to five files: its own, the backup of it, the sidecar, and one beside each of the two
that are replaced as a whole. Their names tell the slots apart, and the files of a slot.
-/

namespace Savegame

namespace Location

theorem split_of_notMem {chars : List Char} (h : '/' ∉ chars) : split chars = [chars] := by
  induction chars with
  | nil => rfl
  | cons c rest ih =>
    rw [List.mem_cons, not_or] at h
    rw [split, if_neg (Ne.symm h.1), ih h.2]

theorem startsWith_slash_of_notMem {name : String} (h : '/' ∉ name.toList) :
    name.startsWith "/" = false := by
  rw [Bool.eq_false_iff, ne_eq, String.startsWith_string_iff]
  intro hfront
  exact h (hfront.subset (by decide))

/-- A name without slashes is one more segment. -/
theorem join_of_notMem (l : Location) {name : String} (h : '/' ∉ name.toList) :
    l.join name = ⟨l.segments ++ [name]⟩ := by
  simp [join, startsWith_slash_of_notMem h, ofText, split_of_notMem h]

theorem splitExtension_append {stem extension : String} (hstem : stem ≠ "")
    (hextension : '.' ∉ extension.toList) :
    splitExtension (stem ++ "." ++ extension) = (stem, some extension) := by
  have hall : ∀ c ∈ extension.toList.reverse, decide (c ≠ '.') = true := by
    intro c hc
    rw [decide_eq_true_eq]
    rintro rfl
    exact hextension (List.mem_reverse.mp hc)
  have hreverse : (stem ++ "." ++ extension).toList.reverse =
      extension.toList.reverse ++ '.' :: stem.toList.reverse := by
    simp
  have htake : (stem ++ "." ++ extension).toList.reverse.takeWhile (· ≠ '.') =
      extension.toList.reverse := by
    rw [hreverse, List.takeWhile_append_of_pos hall]
    simp
  have hdrop : (stem ++ "." ++ extension).toList.reverse.dropWhile (· ≠ '.') =
      '.' :: stem.toList.reverse := by
    rw [hreverse, List.dropWhile_append_of_pos hall]
    simp
  obtain ⟨c, rest, hcons⟩ : ∃ c rest, stem.toList.reverse = c :: rest := by
    refine List.exists_cons_of_ne_nil fun hnil => hstem ?_
    exact String.toList_eq_nil_iff.mp (List.reverse_eq_nil_iff.mp hnil)
  rw [splitExtension]
  simp only [htake, hdrop, hcons]
  rw [← hcons]
  simp

theorem stem_ne_empty {name : String} (h : name ≠ "") : (splitExtension name).1 ≠ "" := by
  unfold splitExtension
  dsimp only
  split
  · exact h
  · exact h
  · rename_i stem hstem _
    intro hempty
    have hnil : (String.ofList stem.reverse).toList = "".toList := congrArg String.toList hempty
    rw [String.toList_ofList] at hnil
    exact hstem (List.reverse_eq_nil_iff.mp hnil)

theorem mem_of_mem_stem {name : String} {c : Char} (h : c ∈ (splitExtension name).1.toList) :
    c ∈ name.toList := by
  unfold splitExtension at h
  dsimp only at h
  split at h
  · exact h
  · exact h
  · rename_i stem _ hdrop
    rw [String.toList_ofList, List.mem_reverse] at h
    have hsuffix := List.dropWhile_suffix (l := name.toList.reverse) (· ≠ '.')
    rw [hdrop] at hsuffix
    exact List.mem_reverse.mp (hsuffix.subset (List.mem_cons_of_mem _ h))

/-- What a file can be called: no name of the directory itself or the one above, and no path. -/
structure IsName (name : String) : Prop where
  notEmpty : name ≠ ""
  notHere : name ≠ "."
  notAbove : name ≠ ".."
  noSlash : '/' ∉ name.toList

instance (name : String) : Decidable (IsName name) :=
  decidable_of_iff (name ≠ "" ∧ name ≠ "." ∧ name ≠ ".." ∧ '/' ∉ name.toList)
    ⟨fun ⟨hempty, hhere, habove, hslash⟩ => ⟨hempty, hhere, habove, hslash⟩,
      fun ⟨hempty, hhere, habove, hslash⟩ => ⟨hempty, hhere, habove, hslash⟩⟩

theorem IsName.directory_join {directory name : String} (h : IsName name) :
    (Location.mk [directory]).join name = ⟨[directory, name]⟩ :=
  join_of_notMem _ h.noSlash

theorem parent_pair {directory name : String} (hdirectory : IsName directory) (h : IsName name) :
    (Location.mk [directory, name]).parent = ⟨[directory]⟩ := by
  simp [parent, names, hdirectory.notEmpty, hdirectory.notHere, h.notEmpty, h.notHere]

theorem withExtension_of_isName {name : String} (h : IsName name)
    (hstem : (splitExtension name).1 ≠ ".") (directory new : String) :
    (Location.mk [directory, name]).withExtension new =
      ⟨[directory, (splitExtension name).1 ++ "." ++ new]⟩ := by
  have hlast : (Location.mk [directory, name]).fileName? = some name := by
    have hnames : (Location.mk [directory, name]).names.getLast? = some name := by
      rw [names, List.filter_cons, List.filter_cons_of_pos (by simp [h.notEmpty, h.notHere])]
      split <;> simp
    rw [fileName?, hnames]
    simp only [if_neg h.notAbove]
  rw [withExtension, hlast]
  simp only [hstem, false_and, if_false]
  simp [h.notEmpty, h.notHere]

theorem withExtension_pair {directory stem old : String} (hstem : stem ≠ "" ∧ stem ≠ ".")
    (hname : IsName (stem ++ "." ++ old)) (hold : '.' ∉ old.toList)
    (new : String) :
    (Location.mk [directory, stem ++ "." ++ old]).withExtension new =
      ⟨[directory, stem ++ "." ++ new]⟩ := by
  have hsplit := splitExtension_append hstem.1 hold
  rw [withExtension_of_isName hname (by rw [hsplit]; exact hstem.2), hsplit]

theorem withSuffix_pair (directory name suffix : String) :
    (Location.mk [directory, name]).withSuffix suffix = ⟨[directory, name ++ suffix]⟩ := rfl

end Location

/-- The files of a slot. The pending ones hold new content until it is moved to its place. -/
inductive SlotFile where
  | primary
  | backup
  | pending
  | sidecar
  | pendingSidecar
  deriving DecidableEq, Repr

namespace SlotFile

open SaveDirectory

def directory : SlotFile → String
  | primary | backup | pending => "slots"
  | sidecar | pendingSidecar => "meta"

def suffix : SlotFile → String
  | primary => ".m3s"
  | backup => ".m3s.bak"
  | pending | pendingSidecar => ".tmp"
  | sidecar => ".json"

def name (f : SlotFile) (slot : UInt16) : String :=
  slotStem slot ++ f.suffix

def path (f : SlotFile) (slot : UInt16) : Path :=
  [f.directory, f.name slot]

def location (f : SlotFile) (slot : UInt16) : Location :=
  ⟨f.path slot⟩

theorem eq_of_directory_of_suffix {f g : SlotFile} (hdirectory : f.directory = g.directory)
    (hsuffix : f.suffix = g.suffix) : f = g := by
  cases f <;> cases g <;> first | rfl | exact absurd hdirectory (by decide) |
    exact absurd hsuffix (by decide)

theorem toList_slotStem (slot : UInt16) :
    (slotStem slot).toList = "slot_".toList ++ (Numeral.decimal 3 slot.toNat).toList :=
  String.toList_append

/-- A stem has the characters of its fixed part, and digits. -/
theorem notMem_slotStem {c : Char} (hword : c ∉ "slot_".toList) (hdigit : c.isDigit = false)
    (slot : UInt16) : c ∉ (slotStem slot).toList := by
  rw [toList_slotStem, List.mem_append, not_or]
  refine ⟨hword, fun hmem => ?_⟩
  rw [Numeral.isDigit_of_mem_decimal hmem] at hdigit
  cases hdigit

theorem slotStem_injective {i j : UInt16} (h : slotStem i = slotStem j) : i = j := by
  have hlist := congrArg String.toList h
  rw [toList_slotStem, toList_slotStem, List.append_cancel_left_eq] at hlist
  exact UInt16.toNat_inj.mp (Numeral.decimal_injective (String.toList_inj.mp hlist))

theorem toList_name (f : SlotFile) (slot : UInt16) :
    (f.name slot).toList = (slotStem slot).toList ++ f.suffix.toList :=
  String.toList_append

/-- The first dot of a name ends its stem. -/
theorem split_name (f : SlotFile) (slot : UInt16) :
    (f.name slot).toList.span (· ≠ '.') = ((slotStem slot).toList, f.suffix.toList) := by
  have hstem : ∀ c ∈ (slotStem slot).toList, decide (c ≠ '.') = true := by
    intro c hc
    rw [decide_eq_true_eq]
    rintro rfl
    exact notMem_slotStem (by decide) (by decide) slot hc
  rw [List.span_eq_takeWhile_dropWhile, toList_name, List.takeWhile_append_of_pos hstem,
    List.dropWhile_append_of_pos hstem]
  cases f <;> simp [suffix]

/-- No two slots share a file, and no file serves two ends. -/
theorem path_inj {f g : SlotFile} {i j : UInt16} : f.path i = g.path j ↔ f = g ∧ i = j := by
  refine ⟨fun h => ?_, fun ⟨hf, hi⟩ => hf ▸ hi ▸ rfl⟩
  simp only [path, List.cons.injEq, and_true] at h
  obtain ⟨hdirectory, hname⟩ := h
  have hsplit := congrArg (fun text : String => text.toList.span (· ≠ '.')) hname
  simp only [split_name, Prod.mk.injEq, String.toList_inj] at hsplit
  exact ⟨eq_of_directory_of_suffix hdirectory hsplit.2, slotStem_injective hsplit.1⟩

theorem name_injective (f : SlotFile) : Function.Injective f.name := by
  intro i j h
  have hpath : f.path i = f.path j := by rw [path, path, h]
  exact (path_inj.mp hpath).2

theorem isName_directory (f : SlotFile) : Location.IsName f.directory := by
  cases f <;> decide

theorem isName_name (f : SlotFile) (slot : UInt16) : Location.IsName (f.name slot) := by
  obtain ⟨rest, hrest⟩ : ∃ rest, (f.name slot).toList = 's' :: rest := by
    rw [toList_name, toList_slotStem]
    exact ⟨_, rfl⟩
  have hne : ∀ other : String, other.toList.head? ≠ some 's' → f.name slot ≠ other := by
    rintro other hother rfl
    rw [hrest] at hother
    exact hother rfl
  refine ⟨hne _ (by decide), hne _ (by decide), hne _ (by decide), ?_⟩
  rw [toList_name, List.mem_append, not_or]
  exact ⟨notMem_slotStem (by decide) (by decide) slot, by cases f <;> decide⟩

theorem location_eq_join (f : SlotFile) (slot : UInt16) :
    (Location.mk [f.directory]).join (f.name slot) = f.location slot :=
  (f.isName_name slot).directory_join

@[simp] theorem parent_location (f : SlotFile) (slot : UInt16) :
    (f.location slot).parent = ⟨[f.directory]⟩ :=
  Location.parent_pair f.isName_directory (f.isName_name slot)

theorem slotStem_isStem (slot : UInt16) : slotStem slot ≠ "" ∧ slotStem slot ≠ "." := by
  refine ⟨?_, ?_⟩ <;> intro h <;> simpa [h] using toList_slotStem slot

theorem withExtension_location (f : SlotFile) (old : String) (hf : f.suffix = "." ++ old)
    (hold : '.' ∉ old.toList) (new : String) (slot : UInt16) :
    (f.location slot).withExtension new = ⟨[f.directory, slotStem slot ++ ("." ++ new)]⟩ := by
  have hname : f.name slot = slotStem slot ++ "." ++ old := by
    rw [name, hf, String.append_assoc]
  have hfile := f.isName_name slot
  rw [hname] at hfile
  rw [location, path, hname, Location.withExtension_pair (slotStem_isStem slot) hfile hold,
    String.append_assoc]

@[simp] theorem withExtension_primary (slot : UInt16) :
    (primary.location slot).withExtension "tmp" = pending.location slot :=
  withExtension_location primary "m3s" (by decide) (by decide) "tmp" slot

@[simp] theorem withExtension_sidecar (slot : UInt16) :
    (sidecar.location slot).withExtension "tmp" = pendingSidecar.location slot :=
  withExtension_location sidecar "json" (by decide) (by decide) "tmp" slot

@[simp] theorem withSuffix_primary (slot : UInt16) :
    (primary.location slot).withSuffix ".bak" = backup.location slot := by
  rw [location, path, Location.withSuffix_pair, name, String.append_assoc]
  rfl

theorem extension?_sidecar (slot : UInt16) :
    Location.extension? (sidecar.name slot) = some "json" := by
  have hname : sidecar.name slot = slotStem slot ++ "." ++ "json" := by
    rw [name, String.append_assoc]
    rfl
  rw [Location.extension?, hname,
    Location.splitExtension_append (slotStem_isStem slot).1 (by decide)]

end SlotFile

namespace SaveDirectory

theorem slotLocation_eq (slot : UInt16) : slotLocation slot = SlotFile.primary.location slot :=
  SlotFile.location_eq_join .primary slot

theorem backupLocation_eq (slot : UInt16) : backupLocation slot = SlotFile.backup.location slot := by
  rw [backupLocation, slotLocation_eq, SlotFile.withSuffix_primary]

theorem sidecarLocation_eq (slot : UInt16) :
    sidecarLocation slot = SlotFile.sidecar.location slot :=
  SlotFile.location_eq_join .sidecar slot

end SaveDirectory

end Savegame
