import Savegame.Proofs.Decoding

/-!
# Records saved and loaded again

`Record.kept` is what a save at a version keeps of a record. The main statement says that a sound
record can be saved at every version, and that loading the save gives exactly what is kept of it.
-/

namespace Savegame

/-- What a save at a version keeps of a number: newer versions round it to fixed point. -/
def Binary32.kept (version : UInt32) (x : Binary32) : Binary32 :=
  if version < Format.fixedPointVersion then x else .ofFixedPoint x.toFixedPoint

/-- A number that is put out and read back is what the version keeps of it. -/
theorem Kind.ofRealWord_realWord (f : Format) (x : Binary32) :
    ofRealWord f (realWord f x) = x.kept f.version := by
  rw [ofRealWord, realWord, Binary32.kept]
  by_cases hold : f.version < Format.fixedPointVersion
  · have hraw : ¬ f.isFixedPoint = true :=
      fun hfixed => UInt32.not_le.mpr hold (of_decide_eq_true hfixed)
    rw [if_neg hraw, if_neg hraw, if_pos hold]
  · have hfixed : f.isFixedPoint = true := decide_eq_true (UInt32.not_lt.mp hold)
    rw [if_pos hfixed, if_pos hfixed, if_neg hold, Int32.toInt32_toUInt32]

def View.map (g : Binary32 → Binary32) (v : View) : View :=
  ⟨g v.pitch, g v.heading, g v.fieldOfView, g v.pitchOffset, g v.headingOffset⟩

def CameraLimits.map (g : Binary32 → Binary32) (l : CameraLimits) : CameraLimits :=
  ⟨l.limited, g l.minPitch, g l.maxPitch, g l.minHeading, g l.maxHeading⟩

namespace Record

/-- The record with the nine numbers that a save at a version keeps of its own. -/
def rounded (version : UInt32) (r : Record) : Record :=
  { r with
    view := r.view.map (Binary32.kept version)
    limits := r.limits.map (Binary32.kept version) }

theorem rounded_of_lt {version : UInt32} (h : version < stampVersion) (r : Record) :
    r.rounded version = r := by
  have hkept : Binary32.kept version = id := funext fun _ => if_pos h
  rw [rounded, hkept]
  rfl

/-- What a save at a version keeps of a record: newer versions round the nine numbers to fixed
point, older ones have no room for the date, the description and the picture. -/
def kept (version : UInt32) (r : Record) : Record :=
  if stampVersion ≤ version then { r.rounded version with version }
  else { r with version, date := {}, description := "", thumbnail := .blank }

/-- A save keeps everything but those, and from `stampVersion` on the date and the description. -/
theorem exists_kept (r : Record) (version : UInt32) :
    ∃ view limits date description thumbnail,
      r.kept version = { r with version, view, limits, date, description, thumbnail } ∧
        (stampVersion ≤ version → date = r.date ∧ description = r.description) := by
  unfold kept
  by_cases hstamp : stampVersion ≤ version
  · rw [if_pos hstamp]
    exact ⟨_, _, _, _, _, rfl, fun _ => ⟨rfl, rfl⟩⟩
  · rw [if_neg hstamp]
    exact ⟨_, _, _, _, _, rfl, fun h => absurd h hstamp⟩

theorem ofValues_settle (f : Format) (r : Record) :
    ofValues f.version (layout.settle f r.values) =
      { r.rounded f.version with
        version := f.version, date := {}, description := "", thumbnail := .blank } := by
  simp [layout, Layout.settle, Kind.settle, Kind.ofRealWord_realWord, ofValues, values, rounded,
    View.map, CameraLimits.map, newGame]
  rfl

theorem fits_stamp {f : Format} {r : Record} (h : r.description.utf8ByteSize ≤ f.limit) :
    stampLayout.Fits f r.stamp :=
  ⟨trivial, trivial, trivial, trivial, trivial, h, trivial, trivial⟩

/-- The description fits where one is written at all. -/
def Fits (f : Format) (r : Record) : Prop :=
  stampVersion ≤ f.version → r.description.utf8ByteSize ≤ f.limit

/-- The bytes that come after the fields of all versions. -/
def putStamp (f : Format) (r : Record) : Emission :=
  if stampVersion ≤ f.version then stampLayout.put f r.stamp else ⟨[], none⟩

theorem stop_putStamp {f : Format} {r : Record} (h : r.Fits f) : (r.putStamp f).stop = none := by
  rw [putStamp]
  split
  case isTrue hstamp => exact Layout.stop_put (fits_stamp (h hstamp))
  case isFalse => rfl

theorem fits_of_stop_putStamp {f : Format} {r : Record} (h : (r.putStamp f).stop = none) :
    r.Fits f := by
  intro hstamp
  by_contra hlong
  have htext := Kind.put_text_of_lt (not_le.mp hlong)
  rw [putStamp, if_pos hstamp] at h
  simp [stampLayout, Layout.put, stamp, Kind.put, htext, Emission.andThen] at h

theorem encode_eq {f : Format} {r : Record} (hversion : f.version ≤ newest)
    (h : (r.putStamp f).stop = none) :
    r.encode f =
      ⟨Bytes.ofUInt32 f.version ++ ((layout.put f r.values).bytes ++ (r.putStamp f).bytes),
        none⟩ := by
  have hlayout : (layout.put f r.values).stop = none :=
    Layout.stop_put (Layout.fits_of_isFixed isFixed_layout _)
  have hnewer : ¬ newest < f.version := UInt32.not_lt.mpr hversion
  rw [putStamp] at h
  rw [encode, if_neg hnewer, putVersion, if_neg hnewer, Emission.andThen_eq, Emission.andThen,
    hlayout, putStamp]
  simp only [h]

theorem readVersion_append {version highest : UInt32} (h : version ≤ highest) (tail : Bytes) :
    readVersion highest (Bytes.ofUInt32 version ++ tail) = ⟨.ok version, 4, tail⟩ := by
  have hcheck : ¬ highest < version := UInt32.not_lt.mpr h
  rw [readVersion, Kind.read_word, UInt32.ofNat_toNat, Reading.check]
  simp only [Except.bind, if_neg hcheck]

/-- Reading from the front what a record was put out as gives what is kept of the record. -/
theorem read_encode {f : Format} {r : Record} (hversion : f.version ≤ newest)
    (hlimit : f.limit < UInt32.size) (h : r.Fits f) (tail : Bytes) :
    read f.limit ((r.encode f).bytes ++ tail) =
      ⟨.ok (r.kept f.version), (r.encode f).bytes.length, tail⟩ := by
  have hlayout : layout.read f ((layout.put f r.values).bytes ++ ((r.putStamp f).bytes ++ tail)) =
      ⟨.ok (layout.settle f r.values), (layout.put f r.values).bytes.length,
        (r.putStamp f).bytes ++ tail⟩ :=
    Layout.read_put hlimit (Layout.fits_of_isFixed isFixed_layout _) _
  rw [encode_eq hversion (stop_putStamp h), List.append_assoc, List.append_assoc, read,
    readVersion_append hversion]
  simp only [Reading.andThen, hlayout]
  by_cases hstamp : stampVersion ≤ f.version
  · have hread : stampLayout.read f ((stampLayout.put f r.stamp).bytes ++ tail) =
        ⟨.ok r.stamp, (stampLayout.put f r.stamp).bytes.length, tail⟩ :=
      Layout.read_put hlimit (fits_stamp (h hstamp)) tail
    simp only [if_pos hstamp, putStamp, hread, Reading.map, Except.map, ofValues_settle, kept,
      List.length_append, Bytes.length_ofUInt32]
    rfl
  · have hraw := rounded_of_lt (UInt32.not_le.mp hstamp) r
    simp only [if_neg hstamp, putStamp, List.nil_append, ofValues_settle, hraw, kept,
      List.length_append, Bytes.length_ofUInt32, List.length_nil]

/-- Sound records are those that a save can be loaded from again. -/
structure IsSound (r : Record) : Prop where
  reserved : r.table.read 0 = 0
  inventory : r.inventory.IsSound

theorem decode_of_read {limit n : Nat} {bytes rest : Bytes} {r : Record}
    (hread : read limit bytes = ⟨.ok r, n, rest⟩) (hsound : r.IsSound) :
    decode limit bytes = .ok ⟨r, [.recordDecoded r.version n]⟩ := by
  rw [decode_eq_ok_iff, hread]
  refine ⟨r, rfl, hsound.inventory, ?_⟩
  rw [accepted, VariableTable.write_of_read hsound.reserved, if_pos hsound.reserved]
  rfl

theorem kept_isSound {r : Record} (h : r.IsSound) (version : UInt32) :
    (r.kept version).IsSound := by
  rw [kept]
  split <;> exact ⟨h.reserved, h.inventory⟩

theorem decode_encode_append {f : Format} {r : Record} (hsound : r.IsSound)
    (hversion : f.version ≤ newest) (hlimit : f.limit < UInt32.size) (h : r.Fits f)
    (tail : Bytes) :
    decode f.limit ((r.encode f).bytes ++ tail) =
      .ok ⟨r.kept f.version, [.recordDecoded f.version (r.encode f).bytes.length]⟩ := by
  have hdecode :=
    decode_of_read (read_encode hversion hlimit h tail) (kept_isSound hsound f.version)
  have hkept : (r.kept f.version).version = f.version := by
    rw [kept]
    split <;> rfl
  rwa [hkept] at hdecode

/-- A sound record survives being saved and loaded: saving it succeeds at every version, and loading
the save gives the record again, as far as a save at that version keeps it. -/
theorem decode_encode_kept (r : Record) (version : UInt32) (limit : Nat)
    (hreserved : r.table.read 0 = 0) (hinventory : r.inventory.validate = .ok ())
    (hversion : version ≤ newest) (hlimit : limit < UInt32.size)
    (hdescription : version < stampVersion ∨ r.description.utf8ByteSize ≤ limit) :
    (r.encode ⟨version, limit⟩).stop = none ∧
      decode limit (r.encode ⟨version, limit⟩).bytes =
        .ok ⟨r.kept version,
          [.recordDecoded version (r.encode ⟨version, limit⟩).bytes.length]⟩ := by
  have hsound : r.IsSound := ⟨hreserved, (Inventory.validate_eq_ok_iff r.inventory).mp hinventory⟩
  have hfits : r.Fits ⟨version, limit⟩ := by
    intro hstamp
    rcases hdescription with hold | hshort
    · exact absurd hstamp (UInt32.not_le.mpr hold)
    · exact hshort
  have hdecode := decode_encode_append hsound hversion hlimit hfits []
  rw [List.append_nil] at hdecode
  exact ⟨congrArg Emission.stop (encode_eq hversion (stop_putStamp hfits)), hdecode⟩

theorem decode_encode_kept_temple :
    let r : Record := { newGame with
      view := { pitch := ⟨0x3DCCCCCD⟩ }
      inventory := ⟨2, #v[7, 65535, 0, 9, 0, 0, 0]⟩
      description := "Temple" }
    (r.table.read 0 = 0 ∧ r.inventory.validate = .ok () ∧ r.description.utf8ByteSize ≤ 256) ∧
      (r.encode ⟨149, 256⟩).stop = none ∧
      decode 256 (r.encode ⟨149, 256⟩).bytes =
        .ok ⟨r.kept 149, [.recordDecoded 149 (r.encode ⟨149, 256⟩).bytes.length]⟩ := by
  intro r
  have hreserved : r.table.read 0 = 0 := by decide
  have hinventory : r.inventory.validate = .ok () := by decide
  have hshort : r.description.utf8ByteSize ≤ 256 := by decide
  exact ⟨⟨hreserved, hinventory, hshort⟩,
    decode_encode_kept r 149 256 hreserved hinventory (by decide) (by decide) (.inr hshort)⟩

end Record

end Savegame
