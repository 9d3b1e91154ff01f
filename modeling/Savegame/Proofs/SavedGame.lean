import Savegame.Proofs.Checksum
import Savegame.Proofs.Reachable

/-!
# The bytes of a saved game

A game under valid settings is saved as bytes that a game under the same settings can load, and as
few enough of them for their number to be noted in a sidecar.
-/

namespace Savegame

theorem Bytes.ofUInt32_toUInt32_byte (b : UInt8) : ofUInt32 b.toUInt32 = b :: [0, 0, 0] := by
  have hrest : b.toNat / 256 = 0 := Nat.div_eq_of_lt b.toNat_lt
  simp [ofUInt32, ofNat, hrest]

namespace Record

theorem length_put_stamp {f : Format} {r : Record} (h : r.description.utf8ByteSize ≤ f.limit) :
    (stampLayout.put f r.stamp).bytes.length = 129610 + r.description.utf8ByteSize := by
  have hpicture : r.thumbnail.bytes.length = 129600 := r.thumbnail.length_eq
  simp [stampLayout, stamp, Layout.put, Kind.put, Kind.put_text h, Emission.andThen, hpicture]
  omega

theorem length_encode_le {f : Format} {r : Record} (hversion : f.version ≤ newest)
    (h : r.Fits f) :
    (r.encode f).bytes.length ≤ bodySize + 129610 + f.limit := by
  have hbody : (layout.put f r.values).bytes.length = 8572 :=
    Layout.length_put isFixed_layout _
  have hstamp : (r.putStamp f).bytes.length ≤ 129610 + f.limit := by
    rw [putStamp]
    split
    case isTrue hstamp =>
      rw [length_put_stamp (h hstamp)]
      exact Nat.add_le_add_left (h hstamp) _
    case isFalse => exact Nat.zero_le _
  rw [encode_eq hversion (stop_putStamp h), List.length_append, List.length_append, hbody,
    Bytes.length_ofUInt32, bodySize]
  omega

/-- The node type is put out from the same place on. -/
theorem bytes_put_nodeType (f : Format) (r : Record) :
    ∃ front back : Bytes, ∀ nodeType,
      (layout.put f ({ r with nodeType } : Record).values).bytes =
        front ++ (Bytes.ofUInt32 nodeType ++ back) := by
  -- the node type is the field after the first five
  obtain ⟨front, back, -, hput⟩ :=
    Layout.bytes_put_set (f := f) isFixed_layout (5 : Fin 21) r.values
  exact ⟨front, back, hput⟩

end Record

namespace Game

/-- What a save keeps of a game. -/
def keptRecord (g : Game) (date : Date) : Record :=
  ({ (g.stamp date).record with running := false } : Record).kept g.settings.writeVersion

theorem nodeType_keptRecord (g : Game) (date : Date) :
    (g.keptRecord date).nodeType = g.record.nodeType := by
  rw [keptRecord, Record.kept]
  split <;> rfl

end Game

namespace Reachable

variable {settings : Settings} {g : Game}

/-- What every game that was reached under valid settings is saved as. -/
theorem saved (hsettings : settings.validate = .ok ()) (h : Reachable settings g) (date : Date) :
    ∃ bytes d, (g.saveToBytes date).answer = .ok bytes ∧
      Record.decode settings.maxDescriptionLength bytes = .ok d ∧
      d.record = g.keptRecord date ∧ bytes.length < 2 ^ 64 := by
  obtain ⟨rfl, hsavable⟩ := h.isSavable
  obtain ⟨hversion, hlimit⟩ := Settings.bounds_of_validate hsettings
  have hstamped := (g.keeps_stamp date).savable hsavable
  let r : Record := { (g.stamp date).record with running := false }
  let f := (g.stamp date).format g.settings.writeVersion
  have hsound : r.IsSound := ⟨hstamped.reserved, hstamped.inventory⟩
  have hfits : r.Fits f := fun _ => hstamped.description
  have hdecode := Record.decode_encode_append hsound hversion hlimit hfits []
  rw [List.append_nil] at hdecode
  refine ⟨_, _, g.answer_saveToBytes hversion hsavable date, hdecode, rfl, ?_⟩
  calc
    _ ≤ Record.bodySize + 129610 + g.settings.maxDescriptionLength :=
      Record.length_encode_le hversion hfits
    _ < Record.bodySize + 129610 + UInt32.size := Nat.add_lt_add_left hlimit _
    _ < 2 ^ 64 := by decide

theorem saved_of_ok (hsettings : settings.validate = .ok ()) (h : Reachable settings g)
    {date : Date} {bytes : Bytes} (hbytes : (g.saveToBytes date).answer = .ok bytes) :
    bytes.length < 2 ^ 64 ∧
      ∃ d, Record.decode settings.maxDescriptionLength bytes = .ok d ∧
        d.record = g.keptRecord date := by
  obtain ⟨found, d, hfound, hdecode, hrecord, hlength⟩ := h.saved hsettings date
  rw [hbytes, Except.ok.injEq] at hfound
  subst hfound
  exact ⟨hlength, d, hdecode, hrecord⟩

/-- Games that differ in one byte of a field are saved with different checksums. -/
theorem checksum_ne_of_nodeType (hsettings : settings.validate = .ok ())
    (h : Reachable settings g) (date : Date) {m n : UInt8} (hne : m ≠ n) {a b : Bytes}
    (ha : ((g.setNodeType m.toUInt32).saveToBytes date).answer = .ok a)
    (hb : ((g.setNodeType n.toUInt32).saveToBytes date).answer = .ok b) :
    a.checksum ≠ b.checksum := by
  obtain ⟨hversion, -⟩ := Settings.bounds_of_validate hsettings
  obtain ⟨rfl, -⟩ := h.isSavable
  let r : Record := { (g.stamp date).record with running := false }
  let f := g.format g.settings.writeVersion
  obtain ⟨front, back, hput⟩ := Record.bytes_put_nodeType f r
  have hsaved : ∀ k : UInt8, ((g.setNodeType k.toUInt32).saveToBytes date).answer =
      .ok ((Bytes.ofUInt32 f.version ++ front) ++
        k :: ([0, 0, 0] ++ back ++ (r.putStamp f).bytes)) := by
    intro k
    have hsavable := (Reachable.after (.setNodeType k.toUInt32) h).isSavable.2
    have hstamped := ((g.setNodeType k.toUInt32).keeps_stamp date).savable hsavable
    have hfits : ({ r with nodeType := k.toUInt32 } : Record).Fits f :=
      fun _ => hstamped.description
    have hbytes := congrArg Emission.bytes
      (Record.encode_eq hversion (Record.stop_putStamp hfits))
    rw [hput, Bytes.ofUInt32_toUInt32_byte] at hbytes
    rw [(g.setNodeType k.toUInt32).answer_saveToBytes hversion hsavable date]
    refine congrArg Except.ok (hbytes.trans ?_)
    simp only [List.append_assoc, List.cons_append]
    rfl
  rw [hsaved, Except.ok.injEq] at ha hb
  rw [← ha, ← hb]
  exact Bytes.checksum_ne_of_byte _ _ hne

end Reachable

end Savegame
