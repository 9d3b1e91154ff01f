import Savegame.Proofs.Saving
import Savegame.Proofs.Walk

/-!
# The copy that is written

A write walks over a copy of the record. The walk overwrites every field that it visits by what
reading the field back gives, so that in newer versions the numbers of the copy are rounded. The
copy is given up afterwards: the live record is left as it was, but it runs. What is put out depends
neither on the running flag of the live record nor on the version that it was read with.
-/

namespace Savegame

namespace WriteCursor

variable {α β : Type}

/-- Goes on from where a step has left the cursor, unless the step was refused. -/
def andThen (step : Except SaveError α × WriteCursor)
    (next : α → WriteCursor → Except SaveError β × WriteCursor) :
    Except SaveError β × WriteCursor :=
  match step with
  | (.ok x, c) => next x c
  | (.error e, c) => (.error e, c)

/-- Writes the fields of a layout one by one. Each is overwritten by what reading it back gives. -/
def visit (c : WriteCursor) : (layout : Layout) → layout.Values →
    Except SaveError layout.Values × WriteCursor
  | [], _ => (.ok (), c)
  | k :: rest, (x, xs) =>
    andThen (c.field k x) fun y c => andThen (c.visit rest xs) fun ys c => (.ok (y, ys), c)

theorem past_nil (c : WriteCursor) : c.past ⟨[], none⟩ = c := by
  unfold past
  simp only [List.append_nil, List.length_nil, Nat.add_zero]

theorem past_past (c : WriteCursor) {first : Emission} (h : first.stop = none)
    (second : Emission) : (c.past first).past second = c.past (first.andThen second) := by
  rw [Emission.andThen_of_none h]
  simp only [past, List.append_assoc, List.length_append, Nat.add_assoc]

theorem andThen_answer (e : Emission) (x : α) (c : WriteCursor) (f : α → β) :
    andThen (e.answer x, c) (fun x c => (.ok (f x), c)) = (e.answer (f x), c) := by
  cases hstop : e.stop with
  | none =>
    rw [Emission.answer_of_none hstop, Emission.answer_of_none hstop]
    rfl
  | some error =>
    rw [Emission.answer_of_some hstop, Emission.answer_of_some hstop]
    rfl

/-- Two steps one after the other put out what two emissions one after the other are. -/
theorem andThen_past {c : WriteCursor} {first second : Emission} {x : α} {y : β}
    {next : α → WriteCursor → Except SaveError β × WriteCursor}
    (h : next x (c.past first) = (second.answer y, (c.past first).past second)) :
    andThen (first.answer x, c.past first) next =
      ((first.andThen second).answer y, c.past (first.andThen second)) := by
  cases hstop : first.stop with
  | none =>
    have hanswer : (first.andThen second).answer y = second.answer y := by
      unfold Emission.answer Emission.andThen
      rw [hstop]
    rw [Emission.answer_of_none hstop, andThen, h, past_past c hstop, hanswer]
  | some error =>
    rw [Emission.andThen_of_some hstop, Emission.answer_of_some hstop,
      Emission.answer_of_some hstop, andThen]

/-- A walk over the fields puts out what the layout does, and settles what it visits. -/
theorem visit_eq (c : WriteCursor) (layout : Layout) (xs : layout.Values) :
    c.visit layout xs =
      ((layout.put c.format xs).answer (layout.settle c.format xs),
        c.past (layout.put c.format xs)) := by
  induction layout generalizing c with
  | nil =>
    unfold visit Layout.put
    rw [past_nil]
    rfl
  | cons k rest ih =>
    obtain ⟨x, xs⟩ := xs
    apply andThen_past
    rw [ih]
    exact andThen_answer _ _ _ _

end WriteCursor

namespace Record

/-- Writes a copy of a record, field by field. The answer is the copy as the walk leaves it. -/
def visit (f : Format) (copy : Record) : Except SaveError Record × WriteCursor :=
  WriteCursor.andThen (WriteCursor.version { format := f } newest) fun _ c =>
    WriteCursor.andThen (c.visit layout copy.values) fun values c =>
      let body : Record := { ofValues copy.version values with
        date := copy.date, description := copy.description, thumbnail := copy.thumbnail }
      if stampVersion ≤ f.version then
        WriteCursor.andThen (c.visit stampLayout copy.stamp) fun stamp c =>
          (.ok (body.withStamp stamp), c)
      else (.ok body, c)

theorem rounded_of_settle (f : Format) (r : Record) :
    ({ ofValues r.version (layout.settle f r.values) with
      date := r.date, description := r.description, thumbnail := r.thumbnail } : Record) =
      r.rounded f.version :=
  congrArg (fun back : Record => { back with
    version := r.version, date := r.date, description := r.description, thumbnail := r.thumbnail })
    (ofValues_settle f r)

/-- The walk puts out the encoding of the record that was copied. Of the copy it rounds the numbers
and leaves the rest as it was. -/
theorem visit_eq {f : Format} (h : f.version ≤ newest) (r : Record) :
    r.visit f = ((r.encode f).answer (r.rounded f.version),
      WriteCursor.past { format := f } (r.encode f)) := by
  have hnewer : ¬ newest < f.version := UInt32.not_lt.mpr h
  unfold encode
  rw [if_neg hnewer]
  apply WriteCursor.andThen_past
  rw [WriteCursor.visit_eq]
  apply WriteCursor.andThen_past
  rw [rounded_of_settle]
  split
  case isTrue hstamp =>
    rw [WriteCursor.visit_eq]
    exact WriteCursor.andThen_answer _ _ _ _
  case isFalse hstamp =>
    rw [WriteCursor.past_nil]
    rfl

end Record

namespace Game

/-- The same game, running or paused, with a record that was made or read with another version. -/
def relabelled (g : Game) (running : Bool) (tag : UInt32) : Game :=
  { g with record := { g.record with running, version := tag } }

/-- What a write that succeeded has put into its sink, and what it has left of the game. -/
structure WritesCopy (g : Game) (version : UInt32) (w : Written) (count : Nat) : Prop where
  encoded : ({ g.record with running := false } : Record).encode (g.format version) =
    ⟨w.sink, none⟩
  counted : count = w.sink.length
  left : w.outcome.state = { g with record := { g.record with running := true } }
  /-- The copy was walked over and its numbers were rounded. -/
  visited : ∃ c, ({ g.record with running := false } : Record).visit (g.format version) =
      (.ok (({ g.record with running := false } : Record).rounded version), c) ∧
    c.sink = w.sink ∧ c.moved = count
  alike : ∀ running tag, ((g.relabelled running tag).write version none).sink = w.sink ∧
    ((g.relabelled running tag).write version none).outcome.answer = .ok count

variable {g : Game} {version : UInt32} {count : Nat}

theorem emission_relabelled (g : Game) (running : Bool) (tag version : UInt32) :
    (g.relabelled running tag).emission version = g.emission version := rfl

theorem le_newest_of_written (h : (g.write version none).outcome.answer = .ok count) :
    version ≤ Record.newest := by
  apply UInt32.not_lt.mp
  intro hnewer
  unfold write at h
  rw [if_pos hnewer] at h
  cases h

theorem written_of_isSavable (hversion : version ≤ Record.newest) (h : g.IsSavable) :
    (g.write version none).outcome.answer = .ok (g.emission version).bytes.length := by
  rw [g.write_of_le hversion]
  exact Emission.answer_of_none (g.stop_emission hversion h) _

theorem writesCopy_of_written (h : (g.write version none).outcome.answer = .ok count) :
    WritesCopy g version (g.write version none) count := by
  have hversion := le_newest_of_written h
  have hwrite := fun g : Game => g.write_of_le hversion
  rw [hwrite] at h
  obtain ⟨hstop, rfl⟩ := Emission.answer_eq_ok_iff.mp h
  have hencode : ({ g.record with running := false } : Record).encode (g.format version) =
      ⟨(g.emission version).bytes, none⟩ := by
    rw [← hstop]
    rfl
  have hvisit := Record.visit_eq (f := g.format version) hversion
    { g.record with running := false }
  rw [hencode] at hvisit
  constructor
  · rw [hwrite]
    exact hencode
  · rw [hwrite]
  · rw [hwrite]
    rfl
  · rw [hwrite]
    exact ⟨_, hvisit, List.nil_append _, Nat.zero_add _⟩
  · intro running tag
    rw [hwrite, hwrite, emission_relabelled]
    exact ⟨rfl, h⟩

/-- A write that succeeds puts out the record as it is while the game is paused, and says how many
bytes that took. Of the live record it changes nothing, but the game runs: the walk rounds the
numbers of a copy only. The bytes are the same if the game runs or not, whichever version its record
was read with. A save does the same at the version that is set, and before it replaces the date. -/
theorem writes_paused_copy (g : Game) (version : UInt32) (date : Date) :
    (∀ count, (g.write version none).outcome.answer = .ok count →
      WritesCopy g version (g.write version none) count) ∧
    (∀ count, (g.save date none).outcome.answer = .ok count →
      WritesCopy { g with record := { g.record with date } } g.settings.writeVersion
        (g.save date none) count) ∧
    (∀ bytes, (g.saveToBytes date).answer = .ok bytes →
      (g.save date none).outcome.answer = .ok bytes.length ∧ (g.save date none).sink = bytes ∧
        (g.saveToBytes date).state = (g.save date none).outcome.state) := by
  refine ⟨fun count h => writesCopy_of_written h, fun count h => ?_, fun bytes h => ?_⟩
  · exact writesCopy_of_written (g := g.stamp date) h
  · have hsave : (g.save date none).outcome.answer.map (fun _ => (g.save date none).sink) =
        .ok bytes := h
    cases hanswer : (g.save date none).outcome.answer with
    | error e =>
      rw [hanswer] at hsave
      cases hsave
    | ok count =>
      rw [hanswer] at hsave
      cases hsave
      have hcopy := writesCopy_of_written (g := g.stamp date) hanswer
      exact ⟨congrArg Except.ok hcopy.counted, rfl, rfl⟩

/-- A game that looks up a little and nowhere at all. The copy looks ahead, the game does not. -/
theorem writes_paused_copy_nowhere :
    let g := (start {}).lookAt ⟨0x3DCCCCCD⟩ ⟨0x7FC00001⟩
    ∃ count, (g.write 149 none).outcome.answer = .ok count ∧
      WritesCopy g 149 (g.write 149 none) count ∧
      (g.record.rounded 149).view.heading = .zero ∧
      (g.write 149 none).outcome.state.record.view.heading = ⟨0x7FC00001⟩ ∧
      ∃ saved, (g.save { day := 1 } none).outcome.answer = .ok saved ∧
        WritesCopy { g with record := { g.record with date := { day := 1 } } } 149
          (g.save { day := 1 } none) saved := by
  intro g
  have hsavable : g.IsSavable :=
    (Reachable.after (.lookAt ⟨0x3DCCCCCD⟩ ⟨0x7FC00001⟩) .start).isSavable.2
  have hversion : (149 : UInt32) ≤ Record.newest := by decide
  have hwritten := written_of_isSavable hversion hsavable
  have hsaved : (g.save { day := 1 } none).outcome.answer = .ok _ :=
    written_of_isSavable hversion ((g.keeps_stamp { day := 1 }).savable hsavable)
  obtain ⟨hwrite, hsave, -⟩ := writes_paused_copy g 149 { day := 1 }
  have hcopy := hwrite _ hwritten
  refine ⟨_, hwritten, hcopy, by decide +kernel, ?_, _, hsaved, hsave _ hsaved⟩
  rw [hcopy.left]
  rfl

end Game

end Savegame
