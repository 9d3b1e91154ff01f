import Savegame.Proofs.Exact
import Savegame.Proofs.Variables
import Savegame.Record.Codec

/-!
# The stages of decoding

A record is read in three stages: its version, the fields of all versions, which stand at fixed
places, and what newer versions add. Then it is judged, and the reserved variable is set back.
-/

namespace Savegame

namespace Inventory

/-- At most seven items are counted, and every word, counted or not, is an item number. -/
structure IsSound (i : Inventory) : Prop where
  count : i.count.toNat ≤ capacity
  items : ∀ item ∈ i.slots.toList, item ≤ 65535

theorem validate_eq_ok_iff (i : Inventory) : i.validate = .ok () ↔ i.IsSound := by
  rw [validate]
  by_cases hcount : capacity < i.count.toNat
  · rw [if_pos hcount]
    constructor
    · intro h
      cases h
    · intro h
      exact absurd h.count (by omega)
  · rw [if_neg hcount]
    cases hfind : i.slots.toList.find? (65535 < ·) with
    | none =>
      rw [List.find?_eq_none] at hfind
      refine ⟨fun _ => ⟨by omega, fun item hitem => ?_⟩, fun _ => rfl⟩
      simpa using hfind item hitem
    | some item =>
      have hitem := List.find?_some hfind
      constructor
      · intro h
        cases h
      · intro h
        have hle := h.items item (List.mem_of_find?_eq_some hfind)
        rw [decide_eq_true_eq] at hitem
        exact absurd hitem (UInt32.not_lt.mpr hle)

end Inventory

theorem readVersion_of_lt {highest : UInt32} {bytes : Bytes} (h : bytes.length < 4) :
    readVersion highest bytes = ⟨.error (.stream .endOfInput), 0, bytes⟩ := by
  rw [readVersion, Reading.number_of_lt h]
  rfl

theorem readVersion_of_le (highest : UInt32) {bytes : Bytes} (h : 4 ≤ bytes.length) :
    readVersion highest bytes =
      ⟨if highest < bytes.word 0 then .error (.versionTooRecent (bytes.word 0) highest)
        else .ok (bytes.word 0), 4, bytes.drop 4⟩ := by
  rw [readVersion, Kind.read_word_of_le UInt32.ofNat h, UInt32.ofNat_toNat]
  rfl

namespace Record

/-- The bytes of a record up to where older versions end. -/
def bodySize : Nat := 8576

theorem isFixed_layout : layout.isFixed = true := rfl

theorem size_layout : layout.size = 8572 := rfl

/-- The record whose fields stand in the first bytes, without what newer versions add. -/
def ofBytes (limit : Nat) (bytes : Bytes) : Record :=
  ofValues (bytes.word 0) (layout.ofBytes ⟨bytes.word 0, limit⟩ (bytes.drop 4))

/-- The reading of what comes after the fields of all versions. -/
def readStamp (limit : Nat) (bytes : Bytes) (r : Record) : Reading Record :=
  if stampVersion ≤ r.version then
    (stampLayout.read ⟨r.version, limit⟩ bytes).map fun stamp => r.withStamp stamp
  else ⟨.ok r, 0, bytes⟩

theorem version_ofBytes (limit : Nat) (bytes : Bytes) :
    (ofBytes limit bytes).version = bytes.word 0 := rfl

theorem answer_read_of_lt_word {limit : Nat} {bytes : Bytes} (h : bytes.length < 4) :
    (read limit bytes).answer = .error (.stream .endOfInput) := by
  rw [read, readVersion_of_lt h]
  rfl

theorem answer_read_of_newer {limit : Nat} {bytes : Bytes} (h : 4 ≤ bytes.length)
    (hversion : newest < bytes.word 0) :
    (read limit bytes).answer = .error (.versionTooRecent (bytes.word 0) newest) := by
  rw [read, readVersion_of_le newest h, if_pos hversion]
  rfl

theorem answer_read_of_lt {limit : Nat} {bytes : Bytes} (h : 4 ≤ bytes.length)
    (hversion : ¬ newest < bytes.word 0) (hshort : bytes.length < bodySize) :
    (read limit bytes).answer = .error (.stream .endOfInput) := by
  have hlayout : (layout.read ⟨bytes.word 0, limit⟩ (bytes.drop 4)).answer =
      .error (.stream .endOfInput) := by
    apply Layout.answer_of_lt isFixed_layout
    rw [List.length_drop, size_layout]
    rw [bodySize] at hshort
    omega
  rw [read, readVersion_of_le newest h, if_neg hversion]
  simp only [Reading.andThen, hlayout]

theorem read_of_le {limit : Nat} {bytes : Bytes} (h : bodySize ≤ bytes.length)
    (hversion : ¬ newest < bytes.word 0) :
    read limit bytes =
      let after := readStamp limit (bytes.drop bodySize) (ofBytes limit bytes)
      ⟨after.answer, bodySize + after.moved, after.rest⟩ := by
  rw [bodySize] at h
  have hlayout : layout.read ⟨bytes.word 0, limit⟩ (bytes.drop 4) =
      ⟨.ok (layout.ofBytes ⟨bytes.word 0, limit⟩ (bytes.drop 4)), 8572, bytes.drop bodySize⟩ := by
    rw [Layout.read_of_le isFixed_layout (by rw [List.length_drop, size_layout]; omega),
      List.drop_drop, size_layout]
    rfl
  rw [read, readVersion_of_le newest (by omega), if_neg hversion]
  simp only [Reading.andThen, hlayout, ← Nat.add_assoc]
  rfl

theorem length_of_read {limit : Nat} {bytes : Bytes} {r : Record}
    (h : (read limit bytes).answer = .ok r) :
    bodySize ≤ bytes.length ∧ ¬ newest < bytes.word 0 := by
  have hword : 4 ≤ bytes.length := by
    by_contra hshort
    rw [answer_read_of_lt_word (not_le.mp hshort)] at h
    cases h
  have hversion : ¬ newest < bytes.word 0 := by
    intro hnewer
    rw [answer_read_of_newer hword hnewer] at h
    cases h
  refine ⟨?_, hversion⟩
  by_contra hshort
  rw [answer_read_of_lt hword hversion (not_le.mp hshort)] at h
  cases h

/-- What was read stands at fixed places, but for what newer versions add. -/
theorem readStamp_of_read {limit : Nat} {bytes : Bytes} {r : Record}
    (h : (read limit bytes).answer = .ok r) :
    bodySize ≤ bytes.length ∧ bytes.word 0 ≤ newest ∧
      ∃ moved, (read limit bytes).moved = bodySize + moved ∧
        readStamp limit (bytes.drop bodySize) (ofBytes limit bytes) =
          ⟨.ok r, moved, (read limit bytes).rest⟩ := by
  obtain ⟨hbody, hnewest⟩ := length_of_read h
  rw [read_of_le hbody hnewest] at h ⊢
  exact ⟨hbody, UInt32.not_lt.mp hnewest, _, rfl, Reading.eq_of_answer h⟩

theorem inventory_ofBytes (limit : Nat) (bytes : Bytes) :
    (ofBytes limit bytes).inventory =
      ⟨bytes.word 8288, Vector.ofFn fun i => bytes.word (8292 + i * 4)⟩ := by
  simp only [ofBytes, layout, Layout.ofBytes, Kind.ofBytes, ofValues, Kind.size, List.drop_drop,
    Bytes.word, Nat.add_zero]
  rfl

theorem isLocal_read (limit : Nat) : Reading.IsLocal (read limit) := by
  refine (((Reading.isLocal_number 4).map _).check _).andThen fun version => ?_
  refine (Layout.isLocal_read _ layout).andThen fun values => ?_
  by_cases h : stampVersion ≤ version
  · simp only [h, if_true]
    exact (Layout.isLocal_read _ stampLayout).map _
  · simp only [h, if_false]
    exact Reading.isLocal_done _

/-- What becomes of a record that is not refused. -/
def accepted (r : Record) (moved : Nat) : Decoded where
  record := { r with table := r.table.write 0 0 }
  events := (if r.table.read 0 = 0 then [] else [.variableZeroReset (r.table.read 0)]) ++
    [.recordDecoded r.version moved]

theorem decode_eq (limit : Nat) (bytes : Bytes) :
    decode limit bytes =
      (read limit bytes).answer.bind fun r =>
        r.inventory.validate.map fun _ => r.accepted (read limit bytes).moved := by
  rw [decode]
  cases (read limit bytes).answer with
  | error e => rfl
  | ok r =>
    simp only [bind, Except.bind]
    cases r.inventory.validate with
    | error e => rfl
    | ok _ =>
      by_cases hzero : r.table.read 0 = 0
      · simp only [if_pos hzero, Except.map, accepted, VariableTable.write_of_read hzero]
        rfl
      · simp only [if_neg hzero, Except.map, accepted]
        rfl

theorem decode_eq_ok_iff {limit : Nat} {bytes : Bytes} {d : Decoded} :
    decode limit bytes = .ok d ↔
      ∃ r, (read limit bytes).answer = .ok r ∧ r.inventory.IsSound ∧
        r.accepted (read limit bytes).moved = d := by
  rw [decode_eq]
  cases (read limit bytes).answer with
  | error e => simp [Except.bind]
  | ok r =>
    simp only [Except.bind, Except.ok.injEq, exists_eq_left', ← Inventory.validate_eq_ok_iff]
    cases r.inventory.validate with
    | error e => simp [Except.map]
    | ok _ => simp [Except.map]

end Record

end Savegame
