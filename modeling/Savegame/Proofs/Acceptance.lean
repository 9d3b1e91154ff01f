import Savegame.Proofs.Decoding
import Savegame.Proofs.Requirement

/-!
# What decoding accepts

The conditions on a byte string under which it is accepted, in the order in which they are checked.
A refusal names the first one that fails, and always blames the bytes.
-/

namespace Savegame

open Reading (Meets)
open Requirement (Judged FirstFailure present)

/-- Where a byte string stops being text. -/
def Utf8.faultOf (bytes : Bytes) : Utf8.Fault :=
  match Utf8.decode bytes with
  | .error fault => fault
  | .ok _ => .incomplete bytes.length

/-- What reading a text at an offset asks for. -/
def Requirement.text (limit offset : Nat) (bytes : Bytes) : List Requirement :=
  let length := (bytes.word offset).toNat
  let contents := (bytes.drop (offset + 4)).take length
  [present (offset + 4) bytes,
    ⟨length ≤ limit, .descriptionTooLong length limit⟩,
    present (offset + 4 + length) bytes,
    ⟨Utf8.IsText contents, .corrupt (.description (Utf8.faultOf contents))⟩]

theorem meets_readVersion (highest : UInt32) (bytes : Bytes) :
    Meets [present 4 bytes, ⟨bytes.word 0 ≤ highest, .versionTooRecent (bytes.word 0) highest⟩]
      (readVersion highest bytes) (bytes.drop 4) := by
  by_cases hle : 4 ≤ bytes.length
  · rw [readVersion_of_le highest hle]
    refine ⟨.passes hle ?_, fun _ _ => rfl⟩
    by_cases hversion : highest < bytes.word 0
    · rw [if_pos hversion]
      exact .fails _ (UInt32.not_le.mpr hversion)
    · rw [if_neg hversion]
      exact .passes (UInt32.not_lt.mp hversion) (.done _)
  · rw [readVersion_of_lt (not_le.mp hle)]
    refine ⟨.fails _ hle, fun x hx => ?_⟩
    cases hx

theorem Kind.meets_readText (f : Format) (offset : Nat) (bytes : Bytes) :
    Meets (Requirement.text f.limit offset bytes) (readText f (bytes.drop offset))
      (bytes.drop (offset + 4 + (bytes.word offset).toNat)) := by
  have hword : Bytes.word (bytes.drop offset) 0 = bytes.word offset := by
    rw [Bytes.word, Bytes.word, List.drop_drop, Nat.add_zero]
  by_cases hle : offset + 4 ≤ bytes.length
  · rw [readText_of_le (by rw [List.length_drop]; omega) (by rw [hword])]
    by_cases hlimit : f.limit < (bytes.word offset).toNat
    · rw [if_pos hlimit]
      refine ⟨.passes hle (.fails _ (not_le.mpr hlimit)), fun x hx => ?_⟩
      cases hx
    rw [if_neg hlimit]
    by_cases hshort : (bytes.drop offset).length < 4 + (bytes.word offset).toNat
    · have hlast : ¬ offset + 4 + (bytes.word offset).toNat ≤ bytes.length := by
        rw [List.length_drop] at hshort
        omega
      rw [if_pos hshort]
      refine ⟨.passes hle (.passes (not_lt.mp hlimit) (.fails _ hlast)), fun x hx => ?_⟩
      cases hx
    have hlast : offset + 4 + (bytes.word offset).toNat ≤ bytes.length := by
      rw [List.length_drop] at hshort
      omega
    rw [if_neg hshort, List.drop_drop, List.drop_drop, ← Nat.add_assoc]
    refine ⟨.passes hle (.passes (not_lt.mp hlimit) (.passes hlast ?_)), fun _ _ => rfl⟩
    cases hs : Utf8.decode ((bytes.drop (offset + 4)).take (bytes.word offset).toNat) with
    | error fault =>
      have hfault : Utf8.faultOf ((bytes.drop (offset + 4)).take (bytes.word offset).toNat) =
          fault := by
        rw [Utf8.faultOf, hs]
      rw [hfault]
      exact .fails _ (Utf8.not_isText_of_decode hs)
    | ok s => exact .passes ⟨s, Utf8.encode_of_decode hs⟩ (.done s)
  · rw [readText_of_lt (by rw [List.length_drop]; omega)]
    refine ⟨.fails _ hle, fun x hx => ?_⟩
    cases hx

namespace Layout

/-- Fields of fixed kinds ask for their bytes only. -/
theorem meets_read {layout : Layout} (hlayout : layout.isFixed = true)
    (hsize : 0 < layout.size) (f : Format) (offset : Nat) (bytes : Bytes) :
    Meets [present (offset + layout.size) bytes] (layout.read f (bytes.drop offset))
      (bytes.drop (offset + layout.size)) := by
  by_cases hle : offset + layout.size ≤ bytes.length
  · rw [read_of_le hlayout (by rw [List.length_drop]; omega), List.drop_drop]
    exact ⟨.passes hle (.done _), fun _ _ => rfl⟩
  · have hanswer : (layout.read f (bytes.drop offset)).answer = .error (.stream .endOfInput) := by
      apply answer_of_lt hlayout
      rw [List.length_drop]
      omega
    constructor
    · rw [hanswer]
      exact .fails _ hle
    · intro x hx
      rw [hanswer] at hx
      cases hx

theorem meets_read_append {first second : Layout} {before behind : List Requirement}
    {f : Format} {bytes rest after : Bytes} (hfirst : Meets before (Layout.read f first bytes) rest)
    (hsecond : Meets behind (Layout.read f second rest) after) :
    Meets (before ++ behind) (Layout.read f (first ++ second) bytes) after := by
  rw [read_append]
  exact hfirst.andThen fun xs _ => hsecond.map _

theorem meets_read_cons {k : Kind} {kinds : Layout} {before behind : List Requirement}
    {f : Format} {bytes rest after : Bytes} (hfirst : Meets before (k.read f bytes) rest)
    (hsecond : Meets behind (Layout.read f kinds rest) after) :
    Meets (before ++ behind) (Layout.read f (k :: kinds) bytes) after := by
  rw [read]
  exact hfirst.andThen fun x _ => hsecond.map _

end Layout

theorem Inventory.judged_validate (i : Inventory) :
    Judged (⟨i.count.toNat ≤ capacity, .corrupt (.inventoryCount i.count capacity)⟩ ::
        i.slots.toList.map fun item => ⟨item ≤ 65535, .corrupt (.inventoryItem item)⟩)
      i.validate := by
  have hitems : (i.slots.toList.map fun item =>
      (⟨item ≤ 65535, .corrupt (.inventoryItem item)⟩ : Requirement)) =
        i.slots.toList.map fun item =>
          ⟨¬ decide (65535 < item) = true, .corrupt (.inventoryItem item)⟩ := by
    simp only [decide_eq_true_eq, UInt32.not_lt]
  rw [validate, hitems]
  by_cases hcount : capacity < i.count.toNat
  · rw [if_pos hcount]
    exact .fails _ (not_le.mpr hcount)
  · rw [if_neg hcount]
    have hfind := Judged.of_find? i.slots.toList (fun item => decide (65535 < item))
      fun item => .corrupt (.inventoryItem item)
    refine .passes (not_lt.mp hcount) ?_
    cases hitem : i.slots.toList.find? (fun item => decide (65535 < item)) with
    | none =>
      rw [hitem] at hfind
      exact hfind
    | some item =>
      rw [hitem] at hfind
      exact hfind

namespace Record

def dateLayout : Layout :=
  [.word8, .word8, .word16, .word8, .word8]

def stampRequirements (limit : Nat) (bytes : Bytes) : List Requirement :=
  [present 8582 bytes] ++ (Requirement.text limit 8582 bytes ++
    [present (8586 + (bytes.word 8582).toNat + Thumbnail.size) bytes])

def inventoryRequirements (bytes : Bytes) : List Requirement :=
  ⟨(bytes.word 8288).toNat ≤ Inventory.capacity,
      .corrupt (.inventoryCount (bytes.word 8288) Inventory.capacity)⟩ ::
    List.ofFn fun i : Fin Inventory.capacity =>
      ⟨bytes.word (8292 + i * 4) ≤ 65535, .corrupt (.inventoryItem (bytes.word (8292 + i * 4)))⟩

/-- What decoding asks of a byte string, in order. -/
def requirements (limit : Nat) (bytes : Bytes) : List Requirement :=
  [present 4 bytes, ⟨bytes.word 0 ≤ newest, .versionTooRecent (bytes.word 0) newest⟩,
      present bodySize bytes] ++
    (if bytes.word 0 = stampVersion then stampRequirements limit bytes else []) ++
    inventoryRequirements bytes

theorem meets_read_stamp (version : UInt32) (limit : Nat) (bytes : Bytes) :
    Meets (stampRequirements limit bytes)
      (stampLayout.read ⟨version, limit⟩ (bytes.drop bodySize))
      (bytes.drop (8586 + (bytes.word 8582).toNat + Thumbnail.size)) := by
  have hdate : dateLayout.isFixed = true := rfl
  have hpicture : Layout.isFixed [.block Thumbnail.size] = true := rfl
  exact Layout.meets_read_append
    (Layout.meets_read hdate (by decide) ⟨version, limit⟩ bodySize bytes)
    (Layout.meets_read_cons (Kind.meets_readText ⟨version, limit⟩ 8582 bytes)
      (Layout.meets_read hpicture (by decide) ⟨version, limit⟩ _ bytes))

theorem eq_word_of_readVersion {highest version : UInt32} {bytes : Bytes}
    (h : (readVersion highest bytes).answer = .ok version) :
    version = bytes.word 0 ∧ version ≤ highest := by
  by_cases hle : 4 ≤ bytes.length
  · rw [readVersion_of_le highest hle] at h
    by_cases hversion : highest < bytes.word 0
    · simp only [if_pos hversion] at h
      cases h
    · simp only [if_neg hversion] at h
      cases h
      exact ⟨rfl, UInt32.not_lt.mp hversion⟩
  · rw [readVersion_of_lt (not_le.mp hle)] at h
    cases h

theorem meets_read (limit : Nat) (bytes : Bytes) :
    Meets ([present 4 bytes, ⟨bytes.word 0 ≤ newest, .versionTooRecent (bytes.word 0) newest⟩] ++
        ([present bodySize bytes] ++
          if bytes.word 0 = stampVersion then stampRequirements limit bytes else []))
      (read limit bytes)
      (bytes.drop (if bytes.word 0 = stampVersion then
        8586 + (bytes.word 8582).toNat + Thumbnail.size else bodySize)) := by
  refine (meets_readVersion newest bytes).andThen fun version hanswer =>
    (Layout.meets_read isFixed_layout (by decide) ⟨version, limit⟩ 4 bytes).andThen
      fun values _ => ?_
  obtain ⟨rfl, hversion⟩ := eq_word_of_readVersion hanswer
  by_cases hstamp : bytes.word 0 = stampVersion
  · rw [if_pos hstamp, if_pos hstamp, if_pos (UInt32.le_of_eq hstamp.symm)]
    exact (meets_read_stamp (bytes.word 0) limit bytes).map _
  · have hold : ¬ stampVersion ≤ bytes.word 0 := fun hle => hstamp (UInt32.le_antisymm hversion hle)
    rw [if_neg hstamp, if_neg hstamp, if_neg hold]
    exact ⟨.done _, fun _ _ => rfl⟩

theorem inventory_of_readStamp {limit : Nat} {bytes : Bytes} {r stamped : Record}
    (h : (readStamp limit bytes r).answer = .ok stamped) : stamped.inventory = r.inventory := by
  rw [readStamp] at h
  split at h
  case isTrue =>
    rw [Reading.map] at h
    cases hanswer : (stampLayout.read ⟨r.version, limit⟩ bytes).answer with
    | error e =>
      rw [hanswer] at h
      cases h
    | ok stamp =>
      rw [hanswer] at h
      cases h
      rfl
  case isFalse =>
    cases h
    rfl

theorem inventory_of_read {limit : Nat} {bytes : Bytes} {r : Record}
    (h : (read limit bytes).answer = .ok r) :
    r.inventory = ⟨bytes.word 8288, Vector.ofFn fun i => bytes.word (8292 + i * 4)⟩ := by
  obtain ⟨-, -, moved, -, hstamp⟩ := readStamp_of_read h
  rw [inventory_of_readStamp (congrArg Reading.answer hstamp), inventory_ofBytes]

theorem judged_validate_of_read {limit : Nat} {bytes : Bytes} {r : Record}
    (h : (read limit bytes).answer = .ok r) :
    Judged (inventoryRequirements bytes) r.inventory.validate := by
  have hinventory := inventory_of_read h
  have hjudged := Inventory.judged_validate r.inventory
  rw [hinventory, Vector.toList_ofFn, List.map_ofFn] at hjudged
  rw [hinventory]
  exact hjudged

/-- All refusals blame the bytes. -/
theorem isCorruption_of_mem {limit : Nat} {bytes : Bytes} {q : Requirement}
    (hq : q ∈ requirements limit bytes) : q.error.isCorruption = true := by
  rw [requirements, List.mem_append, List.mem_append] at hq
  rcases hq with (hq | hq) | hq
  · simp only [List.mem_cons, List.not_mem_nil, or_false] at hq
    rcases hq with rfl | rfl | rfl <;> rfl
  · split at hq
    case isTrue =>
      simp only [stampRequirements, Requirement.text, List.mem_append, List.mem_cons,
        List.not_mem_nil, or_false] at hq
      rcases hq with rfl | (rfl | rfl | rfl | rfl) | rfl <;> rfl
    case isFalse => cases hq
  · rw [inventoryRequirements, List.mem_cons] at hq
    rcases hq with rfl | hq
    · rfl
    · obtain ⟨i, rfl⟩ := List.mem_ofFn.mp hq
      rfl

theorem judged_decode (limit : Nat) (bytes : Bytes) :
    Judged (requirements limit bytes) (decode limit bytes) := by
  rw [decode_eq]
  exact (meets_read limit bytes).judged.bind fun r hr => (judged_validate_of_read hr).map _

theorem isCorruption_of_decode {limit : Nat} {bytes : Bytes} {e : SaveError}
    (h : decode limit bytes = .error e) : e.isCorruption = true := by
  obtain ⟨before, q, after, hsplit, -, -, rfl⟩ :=
    (judged_decode limit bytes).firstFailure_of_eq_error h
  apply isCorruption_of_mem
  rw [hsplit]
  exact List.mem_append_right before List.mem_cons_self

/-- Decoding accepts a byte string exactly if it meets all requirements. If it does not, the error
is the one of the first requirement that fails, and blames the bytes. -/
theorem decode_verdict (limit : Nat) (bytes : Bytes) :
    ((∃ d, decode limit bytes = .ok d) ↔ ∀ q ∈ requirements limit bytes, q.holds) ∧
      (∀ e, decode limit bytes = .error e ↔ FirstFailure (requirements limit bytes) e) ∧
      ∀ e, decode limit bytes = .error e → e.isCorruption = true := by
  have hjudged := judged_decode limit bytes
  refine ⟨hjudged.isOk_iff, fun e => ?_, fun e => isCorruption_of_decode⟩
  exact ⟨hjudged.firstFailure_of_eq_error, hjudged.eq_error_of_firstFailure⟩

end Record

end Savegame
