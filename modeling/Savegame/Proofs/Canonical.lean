import Savegame.Proofs.RoundTrip

/-!
# Saves loaded and saved again

Loading accepts byte strings that saving would not have put out. Saving again what was loaded from
one gives the same bytes, but for a list of words that depends on the version only.
-/

namespace Savegame.Record

open Bytes (Edit)

/-- What loading a save and saving it again changes: flags become zero or one, numbers in fixed
point go through binary32, and the reserved variable becomes zero. -/
def canonicalEdits (version : UInt32) : List Edit :=
  [⟨4, Kind.flagWord⟩] ++ reals [52, 56, 60, 64, 68] ++
    [⟨72, Kind.flagWord⟩] ++ reals [76, 80, 84, 88] ++ [⟨96, fun _ => 0⟩]
where
  reals (offsets : List Nat) : List Edit :=
    if stampVersion ≤ version then offsets.map (⟨·, Kind.fixedPointWord⟩) else []

theorem edits_layout (f : Format) :
    (layout.edits f ++ [(⟨92, fun _ => 0⟩ : Edit)]).map (.shift 4) = canonicalEdits f.version := by
  have hrow (n : Nat) : (List.range n).flatMap (fun _ => ([] : List Edit)) = [] :=
    List.flatMap_eq_nil_iff.mpr fun _ _ => rfl
  by_cases h : stampVersion ≤ f.version
  · have hfixed : f.isFixedPoint = true := decide_eq_true h
    simp [layout, Layout.edits, Kind.edits, hrow, hfixed, canonicalEdits, canonicalEdits.reals, h,
      Edit.shift, Kind.size]
  · have hraw : ¬ f.isFixedPoint = true := fun hfixed => h (of_decide_eq_true hfixed)
    simp [layout, Layout.edits, Kind.edits, hrow, hraw, canonicalEdits, canonicalEdits.reals, h,
      Edit.shift, Kind.size]

/-- The variables are put out from the same place on, whatever they hold. -/
theorem bytes_put_table (f : Format) (r : Record) :
    ∃ front back : Bytes, front.length = 92 ∧ ∀ table : VariableTable,
      (layout.put f ({ r with table } : Record).values).bytes =
        front ++ ((table.slots.toList.flatMap fun x => Bytes.ofUInt32 x.toUInt32) ++ back) := by
  -- the variables are the field after the first seventeen
  obtain ⟨front, back, hlength, hput⟩ :=
    Layout.bytes_put_set (f := f) isFixed_layout (17 : Fin 21) r.values
  refine ⟨front, back, hlength, fun table => ?_⟩
  have hfits : (Kind.row Variable.count .integer).Fits f table.slots := fun _ _ => trivial
  have hrow := Kind.put_row hfits
  exact (hput table.slots).trans (congrArg (fun e : Emission => front ++ (e.bytes ++ back)) hrow)

theorem bytes_put_reset (f : Format) (r : Record) :
    (layout.put f ({ r with table := r.table.write 0 0 } : Record).values).bytes =
      (⟨92, fun _ => 0⟩ : Edit).apply (layout.put f r.values).bytes := by
  obtain ⟨front, back, hlength, hput⟩ := bytes_put_table f r
  have hr := hput r.table
  obtain ⟨x, rest, hslots⟩ : ∃ x rest, r.table.slots.toList = x :: rest :=
    List.exists_cons_of_length_eq_add_one r.table.slots.length_toList
  have hreset : (r.table.write 0 0).slots.toList = 0 :: rest := by
    rw [VariableTable.write, Vector.toList_set, hslots]
    rfl
  have hchange := Edit.apply_between front
    (rest.flatMap (fun x => Bytes.ofUInt32 x.toUInt32) ++ back) x.toUInt32 fun _ => 0
  rw [hlength] at hchange
  rw [hput, hreset]
  refine Eq.trans ?_ (congrArg _ hr.symm)
  rw [hslots, List.flatMap_cons, List.flatMap_cons, List.append_assoc, List.append_assoc, hchange]
  rfl

theorem isExact_stampLayout (f : Format) : ∀ k ∈ stampLayout, k.IsExact f := by
  simp [stampLayout, Kind.IsExact, Kind.isFixed, Kind.edits]

/-- What newer versions add is put out again as it was read, and nothing else is touched. -/
theorem putStamp_of_read {limit n : Nat} {bytes rest : Bytes} {r stamped : Record}
    (h : readStamp limit bytes r = ⟨.ok stamped, n, rest⟩) :
    stamped.version = r.version ∧ stamped.values = r.values ∧
      stamped.putStamp ⟨r.version, limit⟩ = ⟨bytes.take n, none⟩ := by
  rw [readStamp] at h
  by_cases hstamp : stampVersion ≤ r.version
  · rw [if_pos hstamp] at h
    cases hread : stampLayout.read ⟨r.version, limit⟩ bytes with
    | mk answer moved left =>
      cases answer with
      | error e =>
        rw [hread] at h
        cases h
      | ok stamp =>
        rw [hread] at h
        cases h
        refine ⟨rfl, rfl, ?_⟩
        rw [putStamp, if_pos hstamp]
        exact Layout.put_of_read (isExact_stampLayout _) hread
  · rw [if_neg hstamp] at h
    cases h
    refine ⟨rfl, rfl, ?_⟩
    rw [putStamp, if_neg hstamp, List.take_zero]

theorem description_le_of_read {limit : Nat} {bytes : Bytes} {r : Record}
    (h : (read limit bytes).answer = .ok r) : r.description.utf8ByteSize ≤ limit := by
  obtain ⟨-, -, moved, -, hstamp⟩ := readStamp_of_read h
  obtain ⟨hversion, -, hput⟩ := putStamp_of_read hstamp
  by_cases hnew : stampVersion ≤ r.version
  · rw [← hversion] at hput
    exact fits_of_stop_putStamp (congrArg Emission.stop hput) hnew
  · rw [readStamp, if_neg (hversion ▸ hnew), Reading.mk.injEq, Except.ok.injEq] at hstamp
    obtain ⟨rfl, -, -⟩ := hstamp
    exact Nat.zero_le limit

/-- The canonical changes to the fields of all versions. -/
def bodyEdits (f : Format) : List Edit :=
  layout.edits f ++ [⟨92, fun _ => 0⟩]

theorem within_bodyEdits (f : Format) : Edit.Within layout.size (bodyEdits f) := by
  intro e he
  rcases List.mem_append.mp he with he | he
  · exact Layout.within_edits e he
  · rw [List.mem_singleton.mp he]
    decide

theorem applyAll_canonicalEdits (f : Format) {bytes : Bytes} (h : bodySize ≤ bytes.length)
    (moved : Nat) :
    Edit.applyAll (canonicalEdits f.version) (bytes.take (bodySize + moved)) =
      Bytes.ofUInt32 (bytes.word 0) ++
        (Edit.applyAll (bodyEdits f) ((bytes.drop 4).take layout.size) ++
          (bytes.drop bodySize).take moved) := by
  have hsum : bodySize = 4 + layout.size := rfl
  have hfront : (bytes.take 4).length = 4 := List.length_take_of_le (by omega)
  have hwithin : Edit.Within ((bytes.drop 4).take layout.size).length (bodyEdits f) := by
    rw [List.length_take_of_le (by rw [List.length_drop]; omega)]
    exact within_bodyEdits f
  have htake : bytes.take (bodySize + moved) =
      bytes.take 4 ++ ((bytes.drop 4).take layout.size ++ (bytes.drop bodySize).take moved) := by
    rw [hsum, List.take_add, List.take_add, List.append_assoc]
  have hshift := Edit.applyAll_shift (bodyEdits f) (bytes.take 4)
    ((bytes.drop 4).take layout.size ++ (bytes.drop bodySize).take moved)
  rw [hfront, bodyEdits, edits_layout, ← bodyEdits, Edit.applyAll_append hwithin] at hshift
  rw [htake, hshift, Kind.bytes_word (by omega)]

theorem bytes_put_ofBytes {limit : Nat} {bytes : Bytes} {r : Record}
    (hbody : bodySize ≤ bytes.length) (hversion : r.version = bytes.word 0)
    (hvalues : r.values = (ofBytes limit bytes).values) :
    (layout.put ⟨r.version, limit⟩ ({ r with table := r.table.write 0 0 } : Record).values).bytes =
      Edit.applyAll (bodyEdits ⟨r.version, limit⟩) ((bytes.drop 4).take layout.size) := by
  have hsum : bodySize = 4 + layout.size := rfl
  have hput : layout.put ⟨r.version, limit⟩ r.values =
      ⟨Edit.applyAll (layout.edits ⟨r.version, limit⟩) ((bytes.drop 4).take layout.size),
        none⟩ := by
    rw [hvalues, hversion]
    apply Layout.put_ofBytes isFixed_layout
    rw [List.length_drop]
    omega
  rw [bytes_put_reset, hput, bodyEdits, Edit.applyAll, Edit.applyAll, List.foldl_append]
  rfl

/-- A record that was read comes out again as the bytes it was read from, but for the canonical
changes. -/
theorem encode_reset_of_read {limit : Nat} {bytes : Bytes} {r : Record}
    (h : (read limit bytes).answer = .ok r) :
    ({ r with table := r.table.write 0 0 } : Record).encode ⟨r.version, limit⟩ =
      ⟨Edit.applyAll (canonicalEdits r.version) (bytes.take (read limit bytes).moved), none⟩ := by
  obtain ⟨hbody, hnewest, moved, hmoved, hstamp⟩ := readStamp_of_read h
  obtain ⟨hversion, hvalues, hput⟩ := putStamp_of_read hstamp
  rw [← hversion] at hput
  rw [version_ofBytes] at hversion
  have hreset : ({ r with table := r.table.write 0 0 } : Record).putStamp ⟨r.version, limit⟩ =
      ⟨(bytes.drop bodySize).take moved, none⟩ := hput
  have hle : r.version ≤ newest := by rwa [hversion]
  have hbytes := bytes_put_ofBytes hbody hversion hvalues
  have hedits := applyAll_canonicalEdits ⟨r.version, limit⟩ hbody moved
  rw [encode_eq hle (congrArg Emission.stop hreset), hbytes, hreset, hmoved, hedits, hversion]

theorem within_canonicalEdits (version : UInt32) :
    Edit.Within bodySize (canonicalEdits version) := by
  rw [← edits_layout ⟨version, 0⟩]
  intro e he
  obtain ⟨inner, hinner, rfl⟩ := List.mem_map.mp he
  have hlast := within_bodyEdits ⟨version, 0⟩ inner hinner
  rw [size_layout] at hlast
  simp only [Edit.shift, bodySize]
  omega

/-- Whatever was accepted comes out again at its own version, over the bytes that were used up and
with the canonical changes to them. What follows those bytes plays no part. -/
theorem encode_accepted {limit : Nat} {bytes : Bytes} {d : Decoded}
    (h : decode limit bytes = .ok d) :
    let n := (read limit bytes).moved
    let again := d.record.encode ⟨d.record.version, limit⟩
    n ≤ bytes.length ∧ (read limit bytes).rest = bytes.drop n ∧
      again.stop = none ∧ again.bytes.length = n ∧
      again.bytes = Edit.applyAll (canonicalEdits d.record.version) (bytes.take n) ∧
      ∀ tail, decode limit (bytes.take n ++ tail) = .ok d := by
  obtain ⟨r, hanswer, hsound, hd⟩ := decode_eq_ok_iff.mp h
  intro n again
  obtain ⟨hle, hrest, hlocal⟩ := isLocal_read limit (Reading.eq_of_answer hanswer)
  obtain ⟨-, -, moved, hmoved, -⟩ := readStamp_of_read hanswer
  have hrecord : d.record = { r with table := r.table.write 0 0 } := by
    rw [← hd, accepted]
  have hversion : d.record.version = r.version := by rw [hrecord]
  have hagain : again =
      ⟨Edit.applyAll (canonicalEdits d.record.version) (bytes.take n), none⟩ := by
    have hencode := encode_reset_of_read hanswer
    rwa [← hrecord, ← hversion] at hencode
  have hwithin : Edit.Within (bytes.take n).length (canonicalEdits d.record.version) := by
    intro e he
    have hlast := within_canonicalEdits d.record.version e he
    rw [List.length_take_of_le hle]
    omega
  have hlength : again.bytes.length = n := by
    rw [hagain, Edit.length_applyAll hwithin, List.length_take_of_le hle]
  refine ⟨hle, hrest, congrArg Emission.stop hagain, hlength, congrArg Emission.bytes hagain, ?_⟩
  intro tail
  rw [decode_eq_ok_iff, hlocal tail]
  exact ⟨r, rfl, hsound, hd⟩

/-- An old save whose flags, numbers and variables have all their bits set. -/
theorem encode_accepted_ones :
    let bytes : Bytes := Bytes.ofUInt32 148 ++ List.replicate 8284 255 ++ List.replicate 288 0
    ∃ d, decode 256 bytes = .ok d ∧
      let again := d.record.encode ⟨d.record.version, 256⟩
      (read 256 bytes).moved ≤ bytes.length ∧
        (read 256 bytes).rest = bytes.drop (read 256 bytes).moved ∧
        again.stop = none ∧ again.bytes.length = (read 256 bytes).moved ∧
        again.bytes =
          Edit.applyAll (canonicalEdits d.record.version) (bytes.take (read 256 bytes).moved) ∧
        ∀ tail, decode 256 (bytes.take (read 256 bytes).moved ++ tail) = .ok d := by
  intro bytes
  have hlength : bytes.length = 8576 := by
    simp only [bytes, List.length_append, Bytes.length_ofUInt32, List.length_replicate]
  have hversion : bytes.word 0 = 148 := by
    simp only [bytes, List.append_assoc, Bytes.word_ofUInt32_append]
  have hzero (k : Nat) (hk : k + 4 ≤ 288) : bytes.word (8288 + k) = 0 := by
    have hright := Bytes.word_append_right (Bytes.ofUInt32 148 ++ List.replicate 8284 255)
      (List.replicate 288 0) k
    rw [List.length_append, Bytes.length_ofUInt32, List.length_replicate] at hright
    rw [hright, Bytes.word, List.drop_replicate, List.take_replicate, Nat.min_eq_left (by omega)]
    rfl
  clear_value bytes
  have hstamp : ¬ stampVersion ≤ (ofBytes 256 bytes).version := by
    rw [version_ofBytes, hversion]
    decide
  have hread : read 256 bytes = ⟨.ok (ofBytes 256 bytes), 8576, bytes.drop 8576⟩ := by
    rw [read_of_le (by rw [hlength, bodySize]) (by rw [hversion]; decide), readStamp, if_neg hstamp]
    rfl
  have hsound : (ofBytes 256 bytes).inventory.IsSound := by
    rw [inventory_ofBytes]
    refine ⟨?_, ?_⟩
    · rw [hzero 0 (by decide)]
      exact Nat.zero_le 7
    · intro item hitem
      obtain ⟨i, rfl⟩ : ∃ i : Fin 7, bytes.word (8292 + i * 4) = item := by
        simpa using hitem
      have hi := hzero (4 + i * 4) (by omega)
      rw [← Nat.add_assoc] at hi
      rw [hi]
      decide
  have hdecode : decode 256 bytes = .ok ((ofBytes 256 bytes).accepted 8576) := by
    rw [decode_eq_ok_iff, hread]
    exact ⟨_, rfl, hsound, rfl⟩
  exact ⟨_, hdecode, encode_accepted hdecode⟩

end Savegame.Record
