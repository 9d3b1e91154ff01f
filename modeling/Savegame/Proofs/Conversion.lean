import Savegame.Proofs.Limits
import Savegame.Proofs.Reachable

/-!
# Conversions

A save is converted by loading it and writing it at another version. Every save that can be loaded
can be converted. Among versions without a stamp a conversion loses nothing, so a chain of them
comes to the same as its last step alone.
-/

namespace Savegame

namespace Record

variable {version : UInt32} {limit : Nat}

/-- What of a record is written is not running. -/
def stopped (r : Record) : Record :=
  { r with running := false }

theorem IsSavable.stopped {r : Record} (h : r.IsSavable limit) : r.stopped.IsSavable limit :=
  ⟨⟨h.reserved, h.inventory⟩, h.description⟩

theorem fits_of_lt {f : Format} (h : f.version < stampVersion) (r : Record) : r.Fits f :=
  fun hstamp => absurd hstamp (UInt32.not_le.mpr h)

/-- Versions without a stamp put out the fields of all versions, and nothing else. -/
theorem encode_of_lt (h : version < stampVersion) (r : Record) (limit : Nat) :
    r.encode ⟨version, limit⟩ =
      ⟨Bytes.ofUInt32 version ++ (layout.put ⟨version, 0⟩ r.values).bytes, none⟩ := by
  have hstamp : ¬ stampVersion ≤ version := UInt32.not_le.mpr h
  have hnewest : version ≤ newest := UInt32.le_of_lt h
  have hfits : r.Fits ⟨version, limit⟩ := fits_of_lt h r
  rw [encode_eq hnewest (stop_putStamp hfits), putStamp, if_neg hstamp, List.append_nil,
    Layout.put_of_isFixed isFixed_layout version limit 0]

/-- The save of a record at a version without a stamp. -/
def legacySave (r : Record) (version : UInt32) : Bytes :=
  Bytes.ofUInt32 version ++ (layout.put ⟨version, 0⟩ r.stopped.values).bytes

theorem decode_legacySave {r : Record} (hsound : r.stopped.IsSound) (h : version < stampVersion)
    (limit : Nat) :
    ∃ d, decode limit (r.legacySave version) = .ok d ∧ d.record = r.stopped.kept version := by
  have hencode := encode_of_lt h r.stopped 0
  have hlimit : 0 < UInt32.size := by decide
  have hdecode := decode_encode_append hsound (UInt32.le_of_lt h) hlimit
    (fits_of_lt (f := ⟨version, 0⟩) h r.stopped) []
  rw [List.append_nil, hencode] at hdecode
  exact ⟨_, ((decode_iff_of_le (Nat.zero_le limit)).mp hdecode).1, rfl⟩

theorem values_stopped_kept (r : Record) (h : version < stampVersion) :
    (r.stopped.kept version).stopped.values = r.stopped.values := by
  rw [kept, if_neg (UInt32.not_le.mpr h)]
  rfl

end Record

namespace Game

variable {g : Game} {bytes : Bytes} {version : UInt32} {d : Record.Decoded}

/-- Loads a save and writes it at a version. -/
def convert (g : Game) (bytes : Bytes) (version : UInt32) : Except SaveError Bytes := do
  let loaded := g.load bytes
  let () ← loaded.answer
  let written := loaded.state.write version none
  let _ ← written.outcome.answer
  return written.sink

/-- The game after a load. -/
def loaded (g : Game) (r : Record) : Game :=
  { g with record := { r with running := true } }

theorem loaded_isSavable (h : Record.decode g.settings.maxDescriptionLength bytes = .ok d) :
    (g.loaded d.record).IsSavable := by
  obtain ⟨hsound, hdescription⟩ := Record.isSavable_of_decode h
  exact ⟨⟨hsound.reserved, hsound.inventory⟩, hdescription⟩

/-- Whatever was loaded can be written at every version. -/
theorem write_loaded (h : Record.decode g.settings.maxDescriptionLength bytes = .ok d)
    (hversion : version ≤ Record.newest) :
    let written := (g.loaded d.record).write version none
    let out := (d.record.stopped.encode (g.format version)).bytes
    written.outcome.answer = .ok out.length ∧ written.sink = out := by
  have hstop := (g.loaded d.record).stop_emission hversion (loaded_isSavable h)
  rw [write_of_le _ hversion]
  exact ⟨Emission.answer_of_none hstop _, rfl⟩

theorem convert_of_decode (h : Record.decode g.settings.maxDescriptionLength bytes = .ok d)
    (hversion : version ≤ Record.newest) :
    g.convert bytes version = .ok (d.record.stopped.encode (g.format version)).bytes := by
  have hload : g.load bytes = ⟨.ok (), g.loaded d.record, d.events⟩ := load_of_decode h
  obtain ⟨hanswer, hsink⟩ := write_loaded h hversion
  simp only [convert, hload, bind, Except.bind, hanswer, hsink]
  rfl

theorem convert_legacy (h : Record.decode g.settings.maxDescriptionLength bytes = .ok d)
    (hversion : version < Record.stampVersion) :
    g.convert bytes version = .ok (d.record.legacySave version) := by
  rw [convert_of_decode h (UInt32.le_of_lt hversion), format, Record.encode_of_lt hversion,
    Record.legacySave]

/-- A conversion of an old save is an old save of the same record. -/
theorem convert_legacySave {r : Record} (hsound : r.stopped.IsSound) {old new : UInt32}
    (hold : old < Record.stampVersion) (hnew : new < Record.stampVersion) (g : Game) :
    g.convert (r.legacySave old) new = .ok (r.legacySave new) := by
  obtain ⟨d, hdecode, hrecord⟩ :=
    Record.decode_legacySave hsound hold g.settings.maxDescriptionLength
  rw [convert_legacy hdecode hnew, hrecord, Record.legacySave, Record.values_stopped_kept r hold,
    Record.legacySave]

/-- Conversions one after the other, each by a game of its own. -/
def convertAll (bytes : Bytes) (hops : List (Game × UInt32)) : Except SaveError Bytes :=
  hops.foldlM (fun bytes hop => hop.1.convert bytes hop.2) bytes

theorem convertAll_legacySave {r : Record} (hsound : r.stopped.IsSound) {old : UInt32}
    (hold : old < Record.stampVersion) {hops : List (Game × UInt32)}
    (hhops : ∀ hop ∈ hops, hop.2 < Record.stampVersion) :
    convertAll (r.legacySave old) hops =
      .ok (r.legacySave ((hops.map (·.2)).getLastD old)) := by
  induction hops generalizing old with
  | nil => rfl
  | cons hop hops ih =>
    obtain ⟨hhop, hrest⟩ := List.forall_mem_cons.mp hhops
    rw [convertAll, List.foldlM_cons, convert_legacySave hsound hold hhop]
    exact (ih hhop hrest).trans (by rw [List.map_cons, List.getLastD_cons])

theorem lt_stampVersion (h : version ≤ 148) : version < Record.stampVersion := by
  rw [UInt32.le_iff_toNat_le] at h
  rw [UInt32.lt_iff_toNat_lt]
  exact Nat.lt_succ_of_le h

/-- Conversions from one old version to the next, by whatever games, come to the same as the last of
them alone: the save at its version of the record that the first one loads. The first starts from
any save that can be loaded. -/
theorem convertAll_eq_convert (h : Record.decode g.settings.maxDescriptionLength bytes = .ok d)
    (hversion : version ≤ 148) (hops : List (Game × UInt32)) (hhops : ∀ hop ∈ hops, hop.2 ≤ 148) :
    let last := (hops.map (·.2)).getLastD version
    convertAll bytes ((g, version) :: hops) = .ok (d.record.legacySave last) ∧
      g.convert bytes last = .ok (d.record.legacySave last) := by
  intro last
  have hsound : d.record.stopped.IsSound := (Record.isSavable_of_decode h).stopped.toIsSound
  have hfirst := lt_stampVersion hversion
  have hrest : ∀ hop ∈ hops, hop.2 < Record.stampVersion :=
    fun hop hmem => lt_stampVersion (hhops hop hmem)
  have hlast : last < Record.stampVersion := by
    rcases List.eq_nil_or_concat hops with rfl | ⟨front, hop, rfl⟩
    · exact hfirst
    · simpa [last] using hrest hop (by simp)
  refine ⟨?_, convert_legacy h hlast⟩
  rw [convertAll, List.foldlM_cons, convert_legacy h hfirst]
  exact convertAll_legacySave hsound hfirst hrest

/-- A save with a payload in a NaN and with a negative zero, on its way through two other
versions. -/
theorem convertAll_eq_convert_payload :
    let r : Record :=
      { Record.newGame with view := { pitch := ⟨0x7FC12345⟩, heading := ⟨0x80000000⟩ } }
    let bytes := (r.encode ⟨148, 256⟩).bytes
    let g : Game := start {}
    let other : Game := start { maxDescriptionLength := 1000 }
    ∃ d, Record.decode 256 bytes = .ok d ∧ d.record = r.kept 148 ∧
      convertAll bytes [(g, 3), (other, 0), (g, 148)] = .ok (d.record.legacySave 148) ∧
        g.convert bytes 148 = .ok (d.record.legacySave 148) := by
  intro r bytes g other
  have hsound : r.IsSound :=
    ⟨(Record.newGame_isSavable 0).reserved, (Record.newGame_isSavable 0).inventory⟩
  have hdecode := Record.decode_encode_append (f := ⟨148, 256⟩) hsound (by decide) (by decide)
    (Record.fits_of_lt (by decide) r) []
  rw [List.append_nil] at hdecode
  have hold : ∀ hop ∈ [(other, (0 : UInt32)), (g, 148)], hop.2 ≤ 148 := by
    simp only [List.forall_mem_cons, List.not_mem_nil, false_implies, implies_true, and_true]
    exact ⟨by decide, by decide⟩
  exact ⟨_, hdecode, rfl, convertAll_eq_convert (g := g) hdecode (by decide) _ hold⟩

end Game

end Savegame
