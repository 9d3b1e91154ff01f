import Savegame.Proofs.Serializer
import Savegame.Proofs.Torn
import Savegame.Proofs.Walk

/-!
# Where a serializer stands

Bytes move in one place and are counted there, so that a serializer has counted what it has moved
after any calls, whichever of them were refused. Where a refused call leaves it depends on the call
and the direction: behind a version word, behind the length of a text or before it, behind a text
that is none. The next call goes on from there. Only a failure of the stream itself leaves bytes
that moved uncounted.
-/

namespace Savegame

/-- The bytes that pass between two states of a direction: those missing from what was ahead, or
those added to the sink. -/
inductive Direction.Passes (moved : Bytes) : Direction → Direction → Prop where
  | loading (rest : Bytes) : Passes moved (.loading (moved ++ rest)) (.loading rest)
  | saving (sink : Bytes) (room : Option Nat) (h : HasRoom room moved.length) :
    Passes moved (.saving sink room)
      (.saving (sink ++ moved) (room.map (· - moved.length)))

namespace Direction.Passes

variable {d d' d'' : Direction} {first second : Bytes}

theorem refl (d : Direction) : Passes [] d d := by
  cases d with
  | loading rest => exact .loading rest
  | saving sink room =>
    have h : Passes [] (.saving sink room) (.saving (sink ++ []) (room.map fun n => n)) :=
      .saving sink room fun n _ => Nat.zero_le n
    rwa [List.append_nil, Option.map_id'] at h

theorem trans (h : Passes first d d') (hnext : Passes second d' d'') :
    Passes (first ++ second) d d'' := by
  cases h with
  | loading rest =>
    cases hnext with
    | loading rest =>
      rw [← List.append_assoc]
      exact .loading rest
  | saving sink room hroom =>
    cases hnext with
    | saving _ _ hback =>
      have hboth : HasRoom room (first ++ second).length := by
        rw [List.length_append, hasRoom_add]
        exact ⟨hroom, hback⟩
      have h := Passes.saving sink room hboth
      rw [← List.append_assoc, List.length_append] at h
      rw [Option.map_map]
      simp only [Function.comp_def, Nat.sub_sub]
      exact h

end Direction.Passes

namespace Serializer

/-- The serializer has moved these bytes and no others, and counted them. -/
structure Advances (s : Serializer) (moved : Bytes) (t : Serializer) : Prop where
  direction : Direction.Passes moved s.direction t.direction
  synced : t.synced = s.synced + moved.length
  limit : t.format.limit = s.format.limit

namespace Advances

variable {s t u : Serializer} {first second : Bytes}

theorem refl (s : Serializer) : s.Advances [] s :=
  ⟨.refl s.direction, rfl, rfl⟩

theorem trans (h : s.Advances first t) (hnext : t.Advances second u) :
    s.Advances (first ++ second) u where
  direction := h.direction.trans hnext.direction
  synced := by rw [hnext.synced, h.synced, List.length_append, Nat.add_assoc]
  limit := hnext.limit.trans h.limit

end Advances

end Serializer

namespace Sync

open Serializer

variable {α β : Type} {m : Sync α} {next : α → Sync β}

/-- A program that counts the bytes it moves, whether or not it succeeds. -/
def Counts (m : Sync α) : Prop :=
  ∀ s : Serializer, ¬ StreamFails (s.run m).1 → ∃ moved, s.Advances moved (s.run m).2

/-- A program that moves nothing. -/
theorem Counts.of_still (h : ∀ s : Serializer, s.Advances [] (s.run m).2) : Counts m :=
  fun s _ => ⟨[], h s⟩

theorem Counts.lift (answer : Except SaveError α) : Counts (liftExcept answer) :=
  .of_still fun s => by rw [run_liftExcept]; exact .refl s

theorem Counts.bind (hm : Counts m) (hnext : ∀ x, Counts (next x)) : Counts (m >>= next) := by
  intro s h
  rcases hrun : s.run m with ⟨answer, t⟩
  have hfirst : ¬ StreamFails (s.run m).1 := fun hfails => h (streamFails_bind hfails next)
  obtain ⟨first, hadvance⟩ := hm s hfirst
  rw [hrun] at hadvance
  cases answer with
  | ok x =>
    rw [run_bind_of_ok hrun] at h ⊢
    obtain ⟨second, hrest⟩ := hnext x t h
    exact ⟨first ++ second, hadvance.trans hrest⟩
  | error e =>
    rw [run_bind_of_error hrun]
    exact ⟨first, hadvance⟩

theorem Counts.map (hm : Counts m) (g : α → β) : Counts (do return g (← m)) :=
  hm.bind fun x => .lift (.ok (g x))

theorem Counts.get {next : Serializer → Sync β} (hnext : ∀ s, Counts (next s)) :
    Counts (get >>= next) :=
  bind (of_still .refl) hnext

/-- The one place where bytes move, and where they are counted. -/
theorem Counts.block {size : Nat} (contents : Block size) : Counts (block contents) := by
  rintro ⟨direction, f, n⟩ h
  cases direction with
  | loading rest =>
    have hrun := Reads.block contents ⟨f, rest, n⟩
    dsimp only [ReadCursor.serializer] at hrun
    rw [hrun] at h ⊢
    by_cases hle : size ≤ rest.length
    · have hfront : (rest.take size).length = size := List.length_take_of_le hle
      have hpasses : Direction.Passes (rest.take size)
          (.loading (rest.take size ++ rest.drop size)) (.loading (rest.drop size)) := .loading _
      rw [List.take_append_drop] at hpasses
      rw [Reading.take_of_le hle]
      refine ⟨rest.take size, hpasses, ?_, rfl⟩
      rw [hfront]
      rfl
    · rw [Reading.take_of_lt (not_le.mp hle)] at h
      exact absurd ⟨.endOfInput, rfl⟩ h
  | saving sink room =>
    have hwrites := Writes.block (f := f) contents
    by_cases hroom : HasRoom room contents.bytes.length
    · have hrun := hwrites.fits ⟨f, sink, n⟩ room rfl hroom
      dsimp only [WriteCursor.serializer] at hrun
      rw [hrun]
      exact ⟨contents.bytes, .saving sink room hroom, rfl, rfl⟩
    · exact absurd (hwrites.full ⟨f, sink, n⟩ room rfl hroom) h

-- From here on the rules follow the programs; none looks at the serializer again.

theorem Counts.number (width n : Nat) : Counts (number width n) :=
  (Counts.block _).map fun contents => contents.bytes.toNat

theorem Counts.checkLength (length : Nat) : Counts (checkLength length) :=
  .get fun s => .lift (Kind.checkLength s.format length)

theorem Counts.textLength (length : Nat) : Counts (textLength length) :=
  (Counts.number 4 length).bind fun length =>
    (Counts.checkLength length).map fun _ => length

theorem Counts.loadText (old : String) : Counts (loadText old) := by
  apply (Counts.textLength old.utf8ByteSize).bind
  intro length
  apply (Counts.block (Block.zero length)).bind
  intro loaded
  cases Utf8.decode loaded.bytes with
  | ok contents => exact .lift (.ok contents)
  | error fault => exact .lift (.error (.corrupt (.description fault)))

theorem Counts.saveText (contents : String) : Counts (saveText contents) := by
  apply (Counts.checkLength contents.utf8ByteSize).bind
  intro _
  apply (Counts.textLength contents.utf8ByteSize).bind
  intro _
  exact (Counts.block _).map fun _ => contents

theorem Counts.text (contents : String) : Counts (text contents) := by
  apply Counts.get
  intro s
  cases s.direction with
  | loading rest => exact .loadText contents
  | saving sink room => exact .saveText contents

theorem Counts.version (highest : UInt32) : Counts (version highest) := by
  apply Counts.get
  intro s
  apply (Counts.number 4 s.format.version.toNat).bind
  intro n
  dsimp only
  split_ifs with h
  · exact .lift (.error (.versionTooRecent (UInt32.ofNat n) highest))
  · exact .of_still fun t => ⟨.refl t.direction, rfl, rfl⟩

theorem Counts.real (x : Binary32) : Counts (real x) := by
  apply Counts.get
  intro s
  exact (Counts.number 4 _).map fun word => Kind.ofRealWord s.format (UInt32.ofNat word)

theorem Counts.row {item : α → Sync α} (h : ∀ x, Counts (item x)) {count : Nat}
    (xs : Vector α count) : Counts (row item xs) := by
  induction count with
  | zero => exact .lift (.ok xs)
  | succ count ih =>
    exact (ih xs.pop).bind fun done =>
      (h (xs.get (Fin.last count))).map fun last => done.push last

theorem Counts.field (k : Kind) (x : k.Value) : Counts (field k x) := by
  induction k with
  | word8 => exact (Counts.number 1 _).map _
  | word16 => exact (Counts.number 2 _).map _
  | word32 => exact (Counts.number 4 _).map _
  | integer => exact (Counts.number 4 _).map _
  | flag => exact (Counts.number 4 _).map _
  | real => exact Counts.real x
  | text => exact Counts.text x
  | block size => exact Counts.block x
  | row count item ih => exact Counts.row ih x

end Sync

theorem ReadCursor.moved_version (c : ReadCursor) (highest : UInt32) :
    (c.version highest).2.moved = c.moved + (readVersion highest c.rest).moved := by
  unfold version
  rcases readVersion highest c.rest with ⟨answer, moved, rest⟩
  cases answer with
  | ok version => rfl
  | error e => rfl

/-- The field with the value that syncing it has answered, or as it was. -/
def Field.overwrite (x : Field) : Except SaveError x.kind.Value → Field
  | .ok value => ⟨x.kind, value⟩
  | .error _ => x

namespace Serializer

/-- A call on a serializer. A field is synced in place. -/
inductive Call where
  | version (highest : UInt32)
  | field (x : Field)

/-- Makes a call. It is answered with the field as it is left. -/
def step (s : Serializer) : Call → (Except SaveError Unit × Call) × Serializer
  | .version highest =>
    let r := s.run (.version highest)
    ((r.1, .version highest), r.2)
  | .field x =>
    let r := s.run (.field x.kind x.value)
    ((r.1.map fun _ => (), .field (x.overwrite r.1)), r.2)

/-- What a call on a serializer that loads comes to, by the bytes ahead: the answer, the number of
bytes that it uses up, and the format after it. -/
inductive Loads (f : Format) (ahead : Bytes) :
    Call → Except SaveError Unit × Call → Nat → Format → Prop where
  | version {highest : UInt32} (h : ahead.word 0 ≤ highest) :
    Loads f ahead (.version highest) (.ok (), .version highest) 4
      { f with version := ahead.word 0 }
  | versionTooRecent {highest : UInt32} (h : highest < ahead.word 0) :
    Loads f ahead (.version highest)
      (.error (.versionTooRecent (ahead.word 0) highest), .version highest) 4 f
  | fixed {k : Kind} {old : k.Value} (h : k.isFixed = true) :
    Loads f ahead (.field ⟨k, old⟩) (.ok (), .field ⟨k, k.ofBytes f ahead⟩) k.size f
  | text {old contents : String} {length : Nat} (hlength : (ahead.word 0).toNat = length)
    (hlimit : length ≤ f.limit)
    (h : Utf8.decode ((ahead.drop 4).take length) = .ok contents) :
    Loads f ahead (.field ⟨.text, old⟩) (.ok (), .field ⟨.text, contents⟩) (4 + length) f
  | textTooLong {old : String} {length : Nat} (hlength : (ahead.word 0).toNat = length)
    (hlimit : f.limit < length) :
    Loads f ahead (.field ⟨.text, old⟩)
      (.error (.descriptionTooLong length f.limit), .field ⟨.text, old⟩) 4 f
  | notText {old : String} {length : Nat} {fault : Utf8.Fault}
    (hlength : (ahead.word 0).toNat = length) (hlimit : length ≤ f.limit)
    (h : Utf8.decode ((ahead.drop 4).take length) = .error fault) :
    Loads f ahead (.field ⟨.text, old⟩)
      (.error (.corrupt (.description fault)), .field ⟨.text, old⟩) (4 + length) f

/-- What a call on a serializer that saves comes to: the answer, and the bytes put out. -/
inductive Saves (f : Format) : Call → Except SaveError Unit × Call → Bytes → Prop where
  | version {highest : UInt32} (h : f.version ≤ highest) :
    Saves f (.version highest) (.ok (), .version highest) (Bytes.ofUInt32 f.version)
  | versionTooRecent {highest : UInt32} (h : highest < f.version) :
    Saves f (.version highest) (.error (.versionTooRecent f.version highest), .version highest)
      (Bytes.ofUInt32 f.version)
  | fixed {k : Kind} {x : k.Value} (h : k.isFixed = true) :
    Saves f (.field ⟨k, x⟩) (.ok (), .field ⟨k, k.settle f x⟩) (k.put f x).bytes
  | text {contents : String} (h : contents.utf8ByteSize ≤ f.limit) :
    Saves f (.field ⟨.text, contents⟩) (.ok (), .field ⟨.text, contents⟩)
      (Bytes.ofNat 4 contents.utf8ByteSize ++ Utf8.encode contents)
  | textTooLong {contents : String} (h : f.limit < contents.utf8ByteSize) :
    Saves f (.field ⟨.text, contents⟩)
      (.error (.descriptionTooLong contents.utf8ByteSize f.limit), .field ⟨.text, contents⟩) []

/-- A call is met where the serializer stands: it moves the bytes that it is said to move, from
there on, and counts them. -/
inductive Conducts (s : Serializer) (call : Call)
    (stage : (Except SaveError Unit × Call) × Serializer) : Prop where
  | loading {ahead moved : Bytes} (hahead : s.direction = .loading ahead)
    (hcall : Loads s.format ahead call stage.1 moved.length stage.2.format)
    (hmoved : s.Advances moved stage.2)
  | saving {sink moved : Bytes} {room : Option Nat} (hsink : s.direction = .saving sink room)
    (hcall : Saves s.format call stage.1 moved) (hformat : stage.2.format = s.format)
    (hmoved : s.Advances moved stage.2)

/-- Every call but one on a row of texts, which no record has. -/
def Call.IsPlain : Call → Prop
  | .version _ => True
  | .field x => x.kind.IsPlain

variable {f : Format} {ahead : Bytes} {highest : UInt32} {k : Kind}

theorem loads_text (old : String) (h : ¬ StreamFails (Kind.readText f ahead).answer) :
    Loads f ahead (.field ⟨.text, old⟩)
      ((Kind.readText f ahead).answer.map fun _ => (),
        .field (Field.overwrite ⟨.text, old⟩ (Kind.readText f ahead).answer))
      (Kind.readText f ahead).moved f := by
  by_cases hword : 4 ≤ ahead.length
  · rw [Kind.readText_of_le hword rfl] at h ⊢
    split_ifs at h ⊢ with hlong hshort
    · exact .textTooLong rfl hlong
    · exact absurd ⟨.endOfInput, rfl⟩ h
    · cases hdecode : Utf8.decode ((ahead.drop 4).take (ahead.word 0).toNat) with
      | ok contents => exact .text rfl (not_lt.mp hlong) hdecode
      | error fault => exact .notText rfl (not_lt.mp hlong) hdecode
  · rw [Kind.readText_of_lt (not_le.mp hword)] at h
    exact absurd ⟨.endOfInput, rfl⟩ h

theorem loads_field (hk : k.IsPlain) (old : k.Value) (h : ¬ StreamFails (k.read f ahead).answer) :
    Loads f ahead (.field ⟨k, old⟩)
      ((k.read f ahead).answer.map fun _ => (),
        .field (Field.overwrite ⟨k, old⟩ (k.read f ahead).answer))
      (k.read f ahead).moved f := by
  rcases hk with rfl | hfixed
  · exact loads_text old h
  · by_cases hle : k.size ≤ ahead.length
    · rw [Kind.read_of_le hfixed hle]
      exact .fixed hfixed
    · exact absurd ⟨.endOfInput, Kind.answer_of_lt hfixed (not_le.mp hle)⟩ h

theorem saves_text (contents : String) :
    Saves f (.field ⟨.text, contents⟩)
      (((Kind.putText f contents).answer contents).map fun _ => (),
        .field (Field.overwrite ⟨.text, contents⟩ ((Kind.putText f contents).answer contents)))
      (Kind.putText f contents).bytes := by
  by_cases h : contents.utf8ByteSize ≤ f.limit
  · rw [Kind.put_text h]
    exact .text h
  · have hlong : f.limit < contents.utf8ByteSize := not_le.mp h
    rw [Kind.put_text_of_lt hlong]
    exact .textTooLong hlong

theorem saves_field (hk : k.IsPlain) (x : k.Value) :
    Saves f (.field ⟨k, x⟩)
      (((k.put f x).answer (k.settle f x)).map fun _ => (),
        .field (Field.overwrite ⟨k, x⟩ ((k.put f x).answer (k.settle f x))))
      (k.put f x).bytes := by
  rcases hk with rfl | hfixed
  · exact saves_text x
  · rw [Emission.answer_of_none (Kind.stop_put (Kind.fits_of_isFixed hfixed x))]
    exact .fixed hfixed

theorem loads_version (c : ReadCursor) (h : ¬ StreamFails (c.version highest).1) :
    Loads c.format c.rest (.version highest)
      ((c.version highest).1.map fun _ => (), .version highest)
      (readVersion highest c.rest).moved (c.version highest).2.format := by
  unfold ReadCursor.version at h ⊢
  by_cases hword : 4 ≤ c.rest.length
  · rw [readVersion_of_le highest hword] at h ⊢
    by_cases hnewer : highest < c.rest.word 0
    · rw [if_pos hnewer]
      exact .versionTooRecent hnewer
    · rw [if_neg hnewer]
      exact .version (UInt32.not_lt.mp hnewer)
  · rw [readVersion_of_lt (not_le.mp hword)] at h
    exact absurd ⟨.endOfInput, rfl⟩ h

theorem saves_version (f : Format) (highest : UInt32) :
    Saves f (.version highest) ((putVersion f.version highest).answer (), .version highest)
      (putVersion f.version highest).bytes := by
  unfold putVersion
  by_cases hnewer : highest < f.version
  · rw [if_pos hnewer]
    exact .versionTooRecent hnewer
  · rw [if_neg hnewer]
    exact .version (UInt32.not_lt.mp hnewer)

theorem not_streamFails_of_map {α : Type} {answer : Except SaveError α}
    (h : ¬ StreamFails (answer.map fun _ => ())) : ¬ StreamFails answer := by
  rintro ⟨fault, rfl⟩
  exact h ⟨fault, rfl⟩

/-- Every call counts the bytes it moves. -/
theorem advances_step (s : Serializer) (call : Call) (h : ¬ StreamFails (s.step call).1.1) :
    ∃ moved, s.Advances moved (s.step call).2 := by
  cases call with
  | version highest => exact Sync.Counts.version highest s h
  | field x => exact Sync.Counts.field x.kind x.value s (not_streamFails_of_map h)

theorem Advances.length_of_synced {s t : Serializer} {moved : Bytes} {n : Nat}
    (h : s.Advances moved t) (ht : t.synced = s.synced + n) : moved.length = n :=
  Nat.add_left_cancel (h.synced.symm.trans ht)

theorem step_version {s t : Serializer} {answer : Except SaveError Unit}
    (h : s.run (.version highest) = (answer, t)) :
    s.step (.version highest) = ((answer, .version highest), t) := by
  rw [step, h]

theorem step_field {s t : Serializer} {x : Field} {answer : Except SaveError x.kind.Value}
    (h : s.run (.field x.kind x.value) = (answer, t)) :
    s.step (.field x) = ((answer.map fun _ => (), .field (x.overwrite answer)), t) := by
  rw [step, h]

theorem conducts_loading (c : ReadCursor) {call : Call} (hcall : call.IsPlain)
    (h : ¬ StreamFails (c.serializer.step call).1.1) :
    c.serializer.Conducts call (c.serializer.step call) := by
  obtain ⟨moved, hmoved⟩ := advances_step _ _ h
  cases call with
  | version highest =>
    have hstep := step_version (c.run_version highest)
    rw [hstep] at h hmoved ⊢
    have hlength : moved.length = (readVersion highest c.rest).moved :=
      hmoved.length_of_synced (c.moved_version highest)
    refine .loading rfl ?_ hmoved
    rw [hlength]
    exact loads_version c (not_streamFails_of_map h)
  | field x =>
    have hstep := step_field (x := x) (c.run_field x.kind x.value)
    rw [hstep] at h hmoved ⊢
    have hlength : moved.length = (x.kind.read c.format c.rest).moved :=
      hmoved.length_of_synced rfl
    refine .loading rfl ?_ hmoved
    rw [hlength]
    exact loads_field hcall x.value (not_streamFails_of_map h)

theorem conducts_saving (c : WriteCursor) (room : Option Nat) {call : Call} (hcall : call.IsPlain)
    (h : ¬ StreamFails ((c.serializer room).step call).1.1) :
    (c.serializer room).Conducts call ((c.serializer room).step call) := by
  cases call with
  | version highest =>
    have hwrites := Sync.Writes.version (f := c.format) highest
    by_cases hroom : HasRoom room (putVersion c.format.version highest).bytes.length
    · rw [step_version (hwrites.fits c room rfl hroom)]
      exact .saving rfl (saves_version c.format highest) rfl ⟨.saving c.sink room hroom, rfl, rfl⟩
    · exact absurd (hwrites.full c room rfl hroom) h
  | field x =>
    have hwrites := Sync.Writes.field (f := c.format) x.kind x.value
    by_cases hroom : HasRoom room (x.kind.put c.format x.value).bytes.length
    · rw [step_field (hwrites.fits c room rfl hroom)]
      exact .saving rfl (saves_field hcall x.value) rfl ⟨.saving c.sink room hroom, rfl, rfl⟩
    · exact absurd (hwrites.full c room rfl hroom) (not_streamFails_of_map h)

theorem conducts_step (s : Serializer) {call : Call} (hcall : call.IsPlain)
    (h : ¬ StreamFails (s.step call).1.1) : s.Conducts call (s.step call) := by
  rcases s with ⟨direction, f, n⟩
  cases direction with
  | loading rest => exact conducts_loading ⟨f, rest, n⟩ hcall h
  | saving sink room => exact conducts_saving ⟨f, sink, n⟩ room hcall h

/-- A run counts the bytes it moves. -/
theorem advances_after {calls : List Call} {s : Serializer}
    (h : ∀ stage ∈ trace step s calls, ¬ StreamFails stage.1.1) :
    ∃ moved, s.Advances moved (after step s calls) := by
  induction calls generalizing s with
  | nil => exact ⟨[], .refl s⟩
  | cons call rest ih =>
    obtain ⟨first, hfirst⟩ := advances_step s call (h _ List.mem_cons_self)
    obtain ⟨second, hsecond⟩ := ih fun stage hstage => h stage (List.mem_cons_of_mem _ hstage)
    exact ⟨first ++ second, hfirst.trans hsecond⟩

/-- Any calls on one serializer, none of which fails for the stream. Wherever the run is cut, the
serializer has counted just the bytes it has moved up to there, and the next call is met by what is
there, whichever calls before it were refused. -/
theorem synced_along (s : Serializer) (calls : List Call)
    (h : ∀ stage ∈ trace step s calls, ¬ StreamFails stage.1.1) :
    (∀ front rest, calls = front ++ rest → ∃ moved, s.Advances moved (after step s front)) ∧
      ∀ front call rest, calls = front ++ call :: rest → call.IsPlain →
        let here := after step s front
        here.Conducts call (here.step call) := by
  constructor
  · rintro front rest rfl
    rw [trace_append] at h
    exact advances_after fun stage hstage => h stage (List.mem_append_left _ hstage)
  · rintro front call rest rfl hcall here
    rw [trace_append] at h
    exact conducts_step here hcall (h _ (List.mem_append_right _ List.mem_cons_self))

theorem not_streamFails_of_answers {s : Serializer} {calls : List Call}
    {answers : List (Except SaveError Unit)}
    (hanswers : (trace step s calls).map (·.1.1) = answers)
    (h : ∀ answer ∈ answers, ¬ StreamFails answer) :
    ∀ stage ∈ trace step s calls, ¬ StreamFails stage.1.1 := by
  subst hanswers
  exact fun stage hstage => h stage.1.1 (List.mem_map_of_mem hstage)

/-- A version that is too new, a text that is too long and one that is none, with a word behind
them; and a word that is put out behind a version and a text that are refused. -/
theorem synced_along_refusals :
    let word : Call := .field ⟨.word32, (7 : UInt32)⟩
    let reads : List Call := [.version 149, .field ⟨.text, "old"⟩, .field ⟨.text, "old"⟩, word]
    let reader := loading [255, 0, 0, 0, 9, 0, 0, 0, 2, 0, 0, 0, 104, 255, 1, 0, 0, 0] 4
    let writes : List Call := [.version 149, .field ⟨.text, "Temple"⟩, word]
    let writer := saving 255 4
    ((∀ stage ∈ trace step reader reads, ¬ StreamFails stage.1.1) ∧
        (trace step reader reads).map (·.2.synced) = [4, 8, 14, 18] ∧
        (∃ moved, reader.Advances moved (after step reader reads)) ∧
        let here := after step reader (reads.take 3)
        here.Conducts word (here.step word)) ∧
      (∀ stage ∈ trace step writer writes, ¬ StreamFails stage.1.1) ∧
        (trace step writer writes).map (·.2.synced) = [4, 4, 8] ∧
        (∃ moved, writer.Advances moved (after step writer writes)) ∧
        let here := after step writer (writes.take 2)
        here.Conducts word (here.step word) := by
  intro word reads reader writes writer
  have hread : (trace step reader reads).map (·.1.1) =
      [.error (.versionTooRecent 255 149), .error (.descriptionTooLong 9 4),
        .error (.corrupt (.description (.invalid 1 1))), .ok ()] := by
    decide +kernel
  have hwritten : (trace step writer writes).map (·.1.1) =
      [.error (.versionTooRecent 255 149), .error (.descriptionTooLong 6 4), .ok ()] := by
    decide +kernel
  have hreader := not_streamFails_of_answers hread (by simp [StreamFails])
  have hwriter := not_streamFails_of_answers hwritten (by simp [StreamFails])
  obtain ⟨hcounted, hmet⟩ := synced_along reader reads hreader
  obtain ⟨hcounted', hmet'⟩ := synced_along writer writes hwriter
  have hword : word.IsPlain := .inr rfl
  exact ⟨⟨hreader, by decide +kernel, hcounted reads [] rfl,
      hmet (reads.take 3) word [] rfl hword⟩,
    hwriter, by decide +kernel, hcounted' writes [] rfl,
      hmet' (writes.take 2) word [] rfl hword⟩

end Serializer

end Savegame
