import Savegame.Proofs.Conversion
import Savegame.Proofs.FixedPoint

/-!
# Saves saved again and again

The words of the numbers in a save, found in its layout. A number that was loaded from fixed point
is put out as the word that its own word settles to, and words settle once.
-/

namespace Savegame

namespace Layout

variable {f : Format}

/-- Where the numbers among the fields stand. Numbers in rows are not looked for. -/
def realOffsets : Layout → List Nat
  | [] => []
  | .real :: rest => 0 :: (realOffsets rest).map (4 + ·)
  | k :: rest => (realOffsets rest).map (k.size + ·)

/-- The numbers among the fields. -/
def reals : (layout : Layout) → Values layout → List Binary32
  | [], _ => []
  | .real :: rest, (x, xs) => x :: reals rest xs
  | _ :: rest, (_, xs) => reals rest xs

/-- Numbers are put out where they stand in the layout. -/
theorem words_put {layout : Layout} (hlayout : layout.isFixed = true) (xs : layout.Values) :
    (realOffsets layout).map (layout.put f xs).bytes.word =
      (layout.reals xs).map (Kind.realWord f) := by
  induction layout with
  | nil => rfl
  | cons k rest ih =>
    obtain ⟨hk, hrest⟩ := isFixed_cons hlayout
    obtain ⟨x, xs⟩ := xs
    have hlength := Kind.length_put (f := f) hk x
    have hbytes : (put f (k :: rest) (x, xs)).bytes = (k.put f x).bytes ++ (put f rest xs).bytes :=
      bytes_put_cons (Kind.fits_of_isFixed hk x)
    have htail : ((realOffsets rest).map (k.size + ·)).map
        (put f (k :: rest) (x, xs)).bytes.word = (reals rest xs).map (Kind.realWord f) := by
      rw [← ih hrest xs, List.map_map, hbytes, ← hlength]
      exact List.map_congr_left fun offset _ => Bytes.word_append_right _ _ offset
    cases k with
    | real =>
      have hhead : (put f (.real :: rest) (x, xs)).bytes.word 0 = Kind.realWord f x :=
        (congrArg (Bytes.word · 0) hbytes).trans (Bytes.word_ofUInt32_append _ _)
      exact List.cons_eq_cons.mpr ⟨hhead, htail⟩
    | _ => exact htail

/-- Numbers are looked up where they stand in the layout. -/
theorem reals_ofBytes (layout : Layout) (bytes : Bytes) :
    layout.reals (layout.ofBytes f bytes) =
      (realOffsets layout).map fun offset => Kind.ofRealWord f (bytes.word offset) := by
  induction layout generalizing bytes with
  | nil => rfl
  | cons k rest ih =>
    have htail : reals rest (ofBytes f rest (bytes.drop k.size)) =
        ((realOffsets rest).map (k.size + ·)).map fun offset =>
          Kind.ofRealWord f (bytes.word offset) := by
      rw [ih, List.map_map]
      simp only [Bytes.word, List.drop_drop]
      rfl
    cases k with
    | real => exact List.cons_eq_cons.mpr ⟨rfl, htail⟩
    | _ => exact htail

end Layout

namespace Record

/-- Where the numbers stand in a save. -/
def realOffsets : List Nat :=
  layout.realOffsets.map (4 + ·)

example : realOffsets = [52, 56, 60, 64, 68, 76, 80, 84, 88] := rfl

/-- The numbers of a record: where the camera looks, and its limits. -/
def reals (r : Record) : List Binary32 :=
  layout.reals r.values

theorem reals_eq (r : Record) :
    r.reals =
      [r.view.pitch, r.view.heading, r.view.fieldOfView, r.view.pitchOffset, r.view.headingOffset,
        r.limits.minPitch, r.limits.maxPitch, r.limits.minHeading, r.limits.maxHeading] := rfl

theorem values_ofValues (version : UInt32) (xs : layout.Values) :
    (ofValues version xs).values = xs := rfl

theorem realOffsets_within : ∀ offset ∈ layout.realOffsets, offset + 4 ≤ layout.size := by
  decide

/-- The words of the numbers behind a version and the fields of all versions, whatever follows. -/
theorem words_body (f : Format) (r : Record) (rest : Bytes) :
    realOffsets.map
        (Bytes.ofUInt32 f.version ++ ((layout.put f r.values).bytes ++ rest)).word =
      r.reals.map (Kind.realWord f) := by
  have hlength := Layout.length_put (f := f) isFixed_layout r.values
  rw [reals, ← Layout.words_put isFixed_layout, realOffsets, List.map_map]
  apply List.map_congr_left
  intro offset hoffset
  have hinside := realOffsets_within offset hoffset
  have hright := Bytes.word_append_right (Bytes.ofUInt32 f.version)
    ((layout.put f r.values).bytes ++ rest) offset
  rw [Bytes.length_ofUInt32] at hright
  exact hright.trans (Bytes.word_append_left (by omega))

theorem words_encode {f : Format} {r : Record} (hversion : f.version ≤ newest)
    (h : (r.putStamp f).stop = none) :
    realOffsets.map (r.encode f).bytes.word = r.reals.map (Kind.realWord f) := by
  rw [encode_eq hversion h]
  exact words_body f r (r.putStamp f).bytes

theorem reals_of_decode {limit : Nat} {bytes : Bytes} {d : Decoded}
    (h : decode limit bytes = .ok d) :
    d.record.reals =
      realOffsets.map fun offset =>
        Kind.ofRealWord ⟨bytes.word 0, limit⟩ (bytes.word offset) := by
  obtain ⟨r, hanswer, -, rfl⟩ := decode_eq_ok_iff.mp h
  obtain ⟨-, -, moved, -, hstamp⟩ := readStamp_of_read hanswer
  obtain ⟨-, hvalues, -⟩ := putStamp_of_read hstamp
  have hreals : r.reals = (ofBytes limit bytes).reals := congrArg layout.reals hvalues
  have hsame : (r.accepted (read limit bytes).moved).record.reals = r.reals := by
    rw [reals_eq, reals_eq]
    rfl
  rw [hsame, hreals, reals, ofBytes, values_ofValues, Layout.reals_ofBytes, realOffsets,
    List.map_map]
  apply List.map_congr_left
  intro offset _
  simp only [Function.comp_apply, Bytes.word, List.drop_drop]

/-- The save of a record at the newest version, under any limit that its description keeps to. -/
def newestSave (r : Record) : Bytes :=
  (r.encode ⟨newest, r.description.utf8ByteSize⟩).bytes

variable {r : Record} {limit : Nat}

theorem encode_newest (h : r.description.utf8ByteSize ≤ limit) :
    (r.encode ⟨newest, limit⟩).bytes = r.newestSave :=
  congrArg Emission.bytes (encode_of_fits UInt32.le_rfl h (Nat.le_refl _))

theorem words_newestSave (r : Record) :
    realOffsets.map r.newestSave.word = r.reals.map fun x => x.toFixedPoint.toUInt32 := by
  have hfits : r.Fits ⟨newest, r.description.utf8ByteSize⟩ := fun _ => Nat.le_refl _
  exact words_encode UInt32.le_rfl (stop_putStamp hfits)

theorem word_newestSave_zero (r : Record) : r.newestSave.word 0 = newest := by
  have hfits : r.Fits ⟨newest, r.description.utf8ByteSize⟩ := fun _ => Nat.le_refl _
  rw [newestSave, encode_eq UInt32.le_rfl (stop_putStamp hfits)]
  exact Bytes.word_ofUInt32_append newest _

theorem decode_newestSave (hsound : r.IsSound) (hlength : r.description.utf8ByteSize < UInt32.size)
    (hlimit : r.description.utf8ByteSize ≤ limit) :
    ∃ d, decode limit r.newestSave = .ok d ∧ d.record = r.kept newest := by
  rw [← encode_newest hlimit]
  exact exists_decode_encode hsound hlength UInt32.le_rfl hlimit

theorem reals_kept (r : Record) (version : UInt32) :
    (r.kept version).reals = r.reals.map (Binary32.kept version) := by
  have hrounded : (r.rounded version).reals = r.reals.map (Binary32.kept version) := rfl
  rw [kept, ← hrounded]
  split
  case isTrue => rfl
  case isFalse hold =>
    rw [rounded_of_lt (UInt32.not_le.mp hold)]
    rfl

/-- What is written of a loaded record, with a new date if there is one. -/
def redated (r : Record) (date : Option Date) : Record :=
  { r.stopped with date := date.getD r.date }

theorem reals_redated (r : Record) (date : Option Date) : (r.redated date).reals = r.reals := rfl

/-- A record whose numbers come from fixed point, and that can be saved. -/
structure IsSettled (limit : Nat) (r : Record) : Prop extends r.IsSavable limit where
  length : r.description.utf8ByteSize < UInt32.size
  numbers : ∀ x ∈ r.reals, ∃ n, Binary32.ofFixedPoint n = x

theorem isSettled_of_decode {bytes : Bytes} {d : Decoded} (h : decode limit bytes = .ok d)
    (hversion : bytes.word 0 = newest) : d.record.IsSettled limit := by
  refine ⟨isSavable_of_decode h, description_lt_of_decode h, ?_⟩
  rw [reals_of_decode h, hversion]
  intro x hx
  obtain ⟨offset, -, rfl⟩ := List.mem_map.mp hx
  exact ⟨_, rfl⟩

theorem IsSettled.redated (h : r.IsSettled limit) (date : Option Date) :
    (r.redated date).IsSettled limit :=
  ⟨⟨⟨h.reserved, h.inventory⟩, h.description⟩, h.length, h.numbers⟩

theorem IsSettled.kept (h : r.IsSettled limit) : (r.kept newest).IsSettled limit := by
  refine ⟨⟨kept_isSound h.toIsSound newest, h.description⟩, h.length, ?_⟩
  rw [reals_kept]
  intro x hx
  obtain ⟨y, -, rfl⟩ := List.mem_map.mp hx
  exact ⟨_, rfl⟩

/-- Words of a settled record are the same in all its saves. -/
theorem IsSettled.words_kept (h : r.IsSettled limit) :
    realOffsets.map (r.kept newest).newestSave.word = realOffsets.map r.newestSave.word := by
  rw [words_newestSave, words_newestSave, reals_kept, List.map_map]
  apply List.map_congr_left
  intro x hx
  obtain ⟨n, rfl⟩ := h.numbers x hx
  exact congrArg Int32.toUInt32 (Binary32.toFixedPoint_idempotent n)

end Record

namespace Game

open Record (realOffsets newest)

variable {g : Game} {bytes : Bytes} {d : Record.Decoded} {r : Record} {limit : Nat}

/-- Loads a save and saves the game again: with a new date, or converted, with the old one. -/
def resave (g : Game) (bytes : Bytes) : Option Date → Except SaveError Bytes
  | none => g.convert bytes newest
  | some date => do
    let loaded := g.load bytes
    let () ← loaded.answer
    (loaded.state.saveToBytes date).answer

theorem resave_of_decode (h : Record.decode g.settings.maxDescriptionLength bytes = .ok d)
    (hversion : g.settings.writeVersion = newest) (date : Option Date) :
    g.resave bytes date = .ok (d.record.redated date).newestSave := by
  have hfits : d.record.description.utf8ByteSize ≤ g.settings.maxDescriptionLength :=
    (Record.isSavable_of_decode h).description
  cases date with
  | none =>
    rw [resave, convert_of_decode h UInt32.le_rfl]
    exact congrArg Except.ok (Record.encode_newest (r := d.record.stopped) hfits)
  | some date =>
    have hload : g.load bytes = ⟨.ok (), g.loaded d.record, d.events⟩ := load_of_decode h
    have hsave : ((g.loaded d.record).saveToBytes date).answer =
        .ok (((g.loaded d.record).stamp date).emission newest).bytes :=
      hversion ▸ answer_saveToBytes (g.loaded d.record) (UInt32.le_of_eq hversion)
        (loaded_isSavable h) date
    simp only [resave, hload, bind, Except.bind, hsave]
    exact congrArg Except.ok (Record.encode_newest (r := d.record.redated (some date)) hfits)

/-- Saving again a settled record puts out a settled record, with the same words. -/
theorem resave_newestSave (h : r.IsSettled limit) (hversion : g.settings.writeVersion = newest)
    (hlimit : limit ≤ g.settings.maxDescriptionLength) (date : Option Date) :
    ∃ s : Record, g.resave r.newestSave date = .ok s.newestSave ∧ s.IsSettled limit ∧
      realOffsets.map s.newestSave.word = realOffsets.map r.newestSave.word := by
  obtain ⟨d, hdecode, hrecord⟩ :=
    Record.decode_newestSave h.toIsSound h.length (h.description.trans hlimit)
  refine ⟨_, resave_of_decode hdecode hversion date, ?_, ?_⟩
  · rw [hrecord]
    exact h.kept.redated date
  · rw [hrecord, Record.words_newestSave, Record.reals_redated, ← Record.words_newestSave,
      h.words_kept]

/-- Saves one after the other of what was loaded from the save before, each by a game of its own. -/
def resaveAll (bytes : Bytes) (hops : List (Game × Option Date)) : Except SaveError Bytes :=
  hops.foldlM (fun bytes hop => hop.1.resave bytes hop.2) bytes

theorem resaveAll_newestSave (h : r.IsSettled limit) {hops : List (Game × Option Date)}
    (hhops : ∀ hop ∈ hops, hop.1.settings.writeVersion = newest ∧
      limit ≤ hop.1.settings.maxDescriptionLength) :
    ∃ last, resaveAll r.newestSave hops = .ok last ∧
      realOffsets.map last.word = realOffsets.map r.newestSave.word := by
  induction hops generalizing r with
  | nil => exact ⟨_, rfl, rfl⟩
  | cons hop hops ih =>
    obtain ⟨⟨hversion, hlimit⟩, hrest⟩ := List.forall_mem_cons.mp hhops
    obtain ⟨s, hresave, hsettled, hwords⟩ := resave_newestSave h hversion hlimit hop.2
    obtain ⟨last, hlast, hsame⟩ := ih hsettled hrest
    refine ⟨last, ?_, hsame.trans hwords⟩
    rw [resaveAll, List.foldlM_cons, hresave]
    exact hlast

/-- Words in fixed point settle. Those of numbers up to 512 come back from binary32 as they were,
all others settle the first time, and so saving a save again any number of times changes no number
in it after the first. -/
theorem fixed_point_settles :
    (∀ n : Int32, |n.toInt| ≤ 5120000 → (Binary32.ofFixedPoint n).toFixedPoint = n) ∧
    (∀ n : Int32, (Binary32.ofFixedPoint (Binary32.ofFixedPoint n).toFixedPoint).toFixedPoint =
      (Binary32.ofFixedPoint n).toFixedPoint) ∧
    ∀ (g : Game) (bytes : Bytes), (g.load bytes).answer = .ok () → bytes.word 0 = 149 →
      g.settings.writeVersion = 149 → ∀ date, ∃ once, g.resave bytes date = .ok once ∧
        (∀ offset ∈ realOffsets,
          once.word offset = Kind.fixedPointWord (bytes.word offset)) ∧
        ∀ hops : List (Game × Option Date),
          (∀ hop ∈ hops, hop.1.settings.writeVersion = 149 ∧
            g.settings.maxDescriptionLength ≤ hop.1.settings.maxDescriptionLength) →
          ∃ last, resaveAll once hops = .ok last ∧
            ∀ offset ∈ realOffsets, last.word offset = once.word offset := by
  refine ⟨Binary32.toFixedPoint_ofFixedPoint_of_le, Binary32.toFixedPoint_idempotent, ?_⟩
  intro g bytes hload hstart hversion date
  obtain ⟨d, hdecode⟩ : ∃ d, Record.decode g.settings.maxDescriptionLength bytes = .ok d := by
    cases hdecode : Record.decode g.settings.maxDescriptionLength bytes with
    | ok d => exact ⟨d, rfl⟩
    | error e =>
      rw [load_of_error hdecode] at hload
      cases hload
  have hsettled := (Record.isSettled_of_decode hdecode hstart).redated date
  refine ⟨_, resave_of_decode hdecode hversion date, ?_, ?_⟩
  · have hwords := Record.words_newestSave (d.record.redated date)
    rw [Record.reals_redated, Record.reals_of_decode hdecode, hstart, List.map_map] at hwords
    exact List.map_inj_left.mp hwords
  · intro hops hhops
    obtain ⟨last, hlast, hwords⟩ := resaveAll_newestSave hsettled hhops
    exact ⟨last, hlast, List.map_inj_left.mp hwords⟩

/-- A save with the least of the numbers that come back and with one whose word moves once more,
saved again, converted and saved a third time. -/
theorem fixed_point_settles_beyond :
    let r : Record :=
      { Record.newGame with view := { pitch := ⟨0xC4000000⟩, heading := ⟨0x44000006⟩ } }
    let g : Game := start {}
    let other : Game := start { maxDescriptionLength := 1000 }
    (|(-5120000 : Int32).toInt| ≤ 5120000 ∧
      (Binary32.ofFixedPoint (-5120000)).toFixedPoint = -5120000) ∧
    (Binary32.ofFixedPoint (Binary32.ofFixedPoint 5120004).toFixedPoint).toFixedPoint =
      (Binary32.ofFixedPoint 5120004).toFixedPoint ∧
    ((g.load r.newestSave).answer = .ok () ∧ r.newestSave.word 0 = 149) ∧
      ∃ once, g.resave r.newestSave (some {}) = .ok once ∧
        (∀ offset ∈ realOffsets,
          once.word offset = Kind.fixedPointWord (r.newestSave.word offset)) ∧
        ∃ last, resaveAll once [(other, none), (g, some {})] = .ok last ∧
          ∀ offset ∈ realOffsets, last.word offset = once.word offset := by
  intro r g other
  have hsound : r.IsSound :=
    ⟨(Record.newGame_isSavable 0).reserved, (Record.newGame_isSavable 0).inventory⟩
  obtain ⟨d, hdecode, -⟩ :
      ∃ d, Record.decode 256 r.newestSave = .ok d ∧ d.record = r.kept newest :=
    Record.decode_newestSave hsound (by decide) (by decide)
  have hload : (g.load r.newestSave).answer = .ok () :=
    congrArg Outcome.answer (load_of_decode (g := g) hdecode)
  have hstart := r.word_newestSave_zero
  have hsmall : |(-5120000 : Int32).toInt| ≤ 5120000 := by decide
  obtain ⟨hback, htwice, hgames⟩ := fixed_point_settles
  obtain ⟨once, hresave, hwords, hagain⟩ := hgames g r.newestSave hload hstart rfl (some {})
  have hhops : ∀ hop ∈ [(other, none), (g, some ({} : Date))],
      hop.1.settings.writeVersion = 149 ∧
        g.settings.maxDescriptionLength ≤ hop.1.settings.maxDescriptionLength := by
    simp only [List.forall_mem_cons, List.not_mem_nil, false_implies, implies_true, and_true]
    exact ⟨⟨rfl, by decide⟩, rfl, by decide⟩
  exact ⟨⟨hsmall, hback _ hsmall⟩, htwice _, ⟨hload, hstart⟩, once, hresave, hwords,
    hagain _ hhops⟩

end Game

end Savegame
