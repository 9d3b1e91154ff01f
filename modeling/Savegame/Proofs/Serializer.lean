import Savegame.Proofs.Field
import Savegame.Record.Cursor
import Savegame.Record.Serializer

/-!
# Serializers and cursors

In each direction a serializer is a cursor: one that loads does what a reading cursor does, and one
that saves what a writing cursor does, as long as its sink has room. Both are shown along the
programs, with one rule for each way to put programs together, so that a program that changes needs
its own rule only.
-/

namespace Savegame

/-- Whether it was the stream itself that failed. -/
def StreamFails {α : Type} (answer : Except SaveError α) : Prop :=
  ∃ fault, answer = .error (.stream fault)

namespace Serializer

variable {α β : Type} {s t : Serializer} {m : Sync α} {x : α} {e : SaveError}

@[simp] theorem run_get (s : Serializer) : s.run get = (.ok s, s) := rfl

@[simp] theorem run_modify (s : Serializer) (g : Serializer → Serializer) :
    s.run (modify g) = (.ok ⟨⟩, g s) := rfl

@[simp] theorem run_liftExcept (s : Serializer) (answer : Except SaveError α) :
    s.run (liftExcept answer) = (answer, s) := by
  cases answer <;> rfl

/-- A program goes on where its first part has left the serializer, unless that part has failed. -/
theorem run_bind (s : Serializer) (m : Sync α) (next : α → Sync β) :
    s.run (m >>= next) =
      match s.run m with
      | (.ok x, t) => t.run (next x)
      | (.error e, t) => (.error e, t) := by
  unfold run ExceptT.run StateT.run
  simp only [bind, ExceptT.bind, ExceptT.mk, StateT.bind, ExceptT.bindCont]
  rcases m s with ⟨answer, t⟩
  cases answer <;> rfl

theorem run_bind_of_ok (h : s.run m = (.ok x, t)) (next : α → Sync β) :
    s.run (m >>= next) = t.run (next x) := by
  rw [run_bind, h]

theorem run_bind_of_error (h : s.run m = (.error e, t)) (next : α → Sync β) :
    s.run (m >>= next) = (.error e, t) := by
  rw [run_bind, h]

theorem streamFails_bind (h : StreamFails (s.run m).1) (next : α → Sync β) :
    StreamFails (s.run (m >>= next)).1 := by
  obtain ⟨fault, hfault⟩ := h
  refine ⟨fault, ?_⟩
  rw [run_bind_of_error (t := (s.run m).2) (by rw [← hfault])]

/-- Blocks are counted where they move. -/
theorem run_block {size : Nat} (s : Serializer) (block : Block size) :
    s.run (Sync.block block) =
      match s.direction.move block with
      | (.ok moved, direction) =>
        (.ok moved, { s with direction, synced := s.synced + size })
      | (.error e, direction) => (.error e, { s with direction }) := by
  unfold Sync.block
  rw [run_bind_of_ok (run_get s)]
  rcases s.direction.move block with ⟨answer, direction⟩
  cases answer with
  | ok moved => rfl
  | error e => rfl

end Serializer

/-- The serializer in the place of a reading cursor. -/
def ReadCursor.serializer (c : ReadCursor) : Serializer :=
  ⟨.loading c.rest, c.format, c.moved⟩

/-- The serializer in the place of a writing cursor, with a sink that may end. -/
def WriteCursor.serializer (c : WriteCursor) (room : Option Nat := none) : Serializer :=
  ⟨.saving c.sink room, c.format, c.moved⟩

/-- Whether a sink takes so many bytes more. -/
def HasRoom (room : Option Nat) (count : Nat) : Prop :=
  ∀ n ∈ room, count ≤ n

/-- What is put out in two parts needs room for the first, and what is left of it for the second. -/
theorem hasRoom_add (room : Option Nat) (first second : Nat) :
    HasRoom room (first + second) ↔
      HasRoom room first ∧ HasRoom (room.map (· - first)) second := by
  unfold HasRoom
  cases room with
  | none => simp
  | some n =>
    simp only [Option.mem_some_iff, Option.map_some, forall_eq']
    omega

namespace Direction

variable {size : Nat} {contents : Block size} {sink : Bytes} {room : Option Nat}

theorem move_of_hasRoom (h : HasRoom room contents.bytes.length) :
    (saving sink room).move contents =
      (.ok contents,
        saving (sink ++ contents.bytes) (room.map (· - contents.bytes.length))) := by
  cases room with
  | none => rfl
  | some n =>
    have hinto : (⟨contents.bytes, none⟩ : Emission).into n = ⟨contents.bytes, none⟩ :=
      if_pos (h n rfl)
    simp only [move, Option.elim_some, hinto, Emission.answer]

theorem streamFails_move (h : ¬ HasRoom room contents.bytes.length) :
    StreamFails ((saving sink room).move contents).1 := by
  cases room with
  | none => exact absurd nofun h
  | some n =>
    have hshort : ¬ contents.bytes.length ≤ n := fun hle =>
      h fun room hroom => Option.mem_some_iff.mp hroom ▸ hle
    have hinto : (⟨contents.bytes, none⟩ : Emission).into n =
        ⟨contents.bytes.take n, some (.stream .sinkFull)⟩ := if_neg hshort
    refine ⟨.sinkFull, ?_⟩
    simp only [move, Option.elim_some, hinto, Emission.answer]

end Direction

namespace Sync

open Serializer

variable {α β : Type} {m : Sync α} {next : α → Sync β}

/-- A program that on a serializer that loads is a way of reading the bytes ahead. -/
def Reads (m : Sync α) (read : Format → Bytes → Reading α) : Prop :=
  ∀ c : ReadCursor, c.serializer.run m =
    ((read c.format c.rest).answer, (c.past (read c.format c.rest)).serializer)

variable {read : Format → Bytes → Reading α} {readNext : α → Format → Bytes → Reading β}

theorem Reads.done (answer : Except SaveError α) :
    Reads (liftExcept answer) fun _ rest => ⟨answer, 0, rest⟩ :=
  fun c => run_liftExcept c.serializer answer

theorem Reads.bind (hm : Reads m read) (hnext : ∀ x, Reads (next x) (readNext x)) :
    Reads (m >>= next) fun f bytes => (read f bytes).andThen fun x => readNext x f := by
  intro c
  have hfirst := hm c
  dsimp only
  rcases hr : read c.format c.rest with ⟨answer, moved, rest⟩
  rw [hr] at hfirst
  cases answer with
  | ok x =>
    rw [run_bind_of_ok hfirst, hnext x]
    simp only [ReadCursor.past, Reading.andThen, Nat.add_assoc]
  | error e => exact run_bind_of_error hfirst next

/-- What was read may still be refused. -/
theorem Reads.check (hm : Reads m read) {judge : Format → α → Except SaveError β}
    (hnext : ∀ x, Reads (next x) fun f rest => ⟨judge f x, 0, rest⟩) :
    Reads (m >>= next) fun f bytes => (read f bytes).check (judge f) := by
  simp only [Reading.check_eq_andThen]
  exact hm.bind hnext

theorem Reads.map (hm : Reads m read) (g : α → β) :
    Reads (do return g (← m)) fun f bytes => (read f bytes).map g := by
  simp only [Reading.map_eq_check]
  exact hm.check fun x => .done (.ok (g x))

theorem Reads.block {size : Nat} (old : Block size) :
    Reads (block old) fun _ rest => Reading.take size rest := by
  intro c
  rw [run_block]
  by_cases h : size ≤ c.rest.length
  · simp only [ReadCursor.serializer, ReadCursor.past, Direction.move, Reading.take_of_le h]
  · simp only [ReadCursor.serializer, ReadCursor.past, Direction.move,
      Reading.take_of_lt (Nat.not_le.mp h), Nat.add_zero]

theorem Reads.number (width old : Nat) :
    Reads (number width old) fun _ rest => Reading.number width rest :=
  (Reads.block _).map fun contents => contents.bytes.toNat

theorem Reads.checkLength (length : Nat) :
    Reads (checkLength length) fun f rest => ⟨Kind.checkLength f length, 0, rest⟩ :=
  fun c => Reads.done (Kind.checkLength c.format length) c

theorem Reads.textLength (old : Nat) :
    Reads (textLength old) fun f bytes =>
      (Reading.number 4 bytes).check fun length => do
        Kind.checkLength f length
        return length := by
  apply (Reads.number 4 old).check
  intro length
  exact (Reads.checkLength length).check fun _ => .done (.ok length)

theorem Reads.loadText (old : String) : Reads (loadText old) Kind.readText := by
  apply (Reads.textLength old.utf8ByteSize).bind
  intro length
  apply (Reads.block (Block.zero length)).check
  intro loaded
  cases Utf8.decode loaded.bytes with
  | ok contents => exact .done (.ok contents)
  | error fault => exact .done (.error (.corrupt (.description fault)))

theorem Reads.real (old : Binary32) : Reads (real old) (Kind.read · .real) := by
  intro c
  unfold Sync.real
  rw [run_bind_of_ok (run_get c.serializer)]
  have hword := Reads.number 4 (Kind.realWord c.format old).toNat
  exact hword.map (fun word => Kind.ofRealWord c.format (UInt32.ofNat word)) c

theorem Reads.row {item : α → Sync α} {read : Format → Bytes → Reading α}
    (h : ∀ x, Reads (item x) read) {count : Nat} (xs : Vector α count) :
    Reads (row item xs) fun f => Kind.readRow (read f) count := by
  induction count with
  | zero =>
    obtain rfl : xs = #v[] := Vector.eq_empty
    exact .done (.ok #v[])
  | succ count ih =>
    exact (ih xs.pop).bind fun done =>
      (h (xs.get (Fin.last count))).map fun last => done.push last

theorem Reads.field (k : Kind) (old : k.Value) : Reads (field k old) (Kind.read · k) := by
  induction k with
  | word8 => exact (Reads.number 1 _).map _
  | word16 => exact (Reads.number 2 _).map _
  | word32 => exact (Reads.number 4 _).map _
  | integer => exact (Reads.number 4 _).map _
  | flag => exact (Reads.number 4 _).map _
  | real => exact Reads.real old
  | text => exact Reads.loadText old
  | block size => exact Reads.block old
  | row count item ih => exact Reads.row ih old

/-- A program that on a serializer that saves puts out an emission and answers `x`, unless the sink
has too little room and fails. -/
structure Writes (f : Format) (m : Sync α) (e : Emission) (x : α) : Prop where
  fits : ∀ (c : WriteCursor) (room : Option Nat), c.format = f → HasRoom room e.bytes.length →
    (c.serializer room).run m =
      (e.answer x, (c.past e).serializer (room.map (· - e.bytes.length)))
  full : ∀ (c : WriteCursor) (room : Option Nat), c.format = f → ¬ HasRoom room e.bytes.length →
    StreamFails ((c.serializer room).run m).1

variable {f : Format} {e first second : Emission} {x : α} {y : β}

/-- A program that leaves the serializer as it is puts nothing out. -/
theorem Writes.still {stop : Option SaveError}
    (h : ∀ (c : WriteCursor) (room : Option Nat), c.format = f →
      (c.serializer room).run m = (Emission.answer ⟨[], stop⟩ x, c.serializer room)) :
    Writes f m ⟨[], stop⟩ x where
  fits c room hc _ := by
    have hroom : room.map (· - ([] : Bytes).length) = room := Option.map_id'
    rw [h c room hc, hroom]
    simp only [WriteCursor.serializer, WriteCursor.past, List.append_nil, List.length_nil,
      Nat.add_zero]
  full c room _ hroom := absurd (fun n _ => Nat.zero_le n) hroom

theorem Writes.pure (x : α) : Writes f (pure x) ⟨[], none⟩ x :=
  .still fun _ _ _ => rfl

theorem Writes.get {next : Serializer → Sync β}
    (h : ∀ (c : WriteCursor) (room : Option Nat), c.format = f →
      Writes f (next (c.serializer room)) e y) : Writes f (get >>= next) e y where
  fits c room hc hroom := by
    rw [run_bind_of_ok (run_get _)]
    exact (h c room hc).fits c room hc hroom
  full c room hc hroom := by
    rw [run_bind_of_ok (run_get _)]
    exact (h c room hc).full c room hc hroom

/-- Nothing follows what was stopped. -/
theorem Writes.bind_of_stop {error : SaveError} (hm : Writes f m e x) (hstop : e.stop = some error)
    (next : α → Sync β) (y : β) : Writes f (m >>= next) e y := by
  constructor
  · intro c room hc hroom
    have hfirst := hm.fits c room hc hroom
    rw [Emission.answer_of_some hstop] at hfirst ⊢
    exact run_bind_of_error hfirst next
  · exact fun c room hc hroom => streamFails_bind (hm.full c room hc hroom) next

theorem Writes.bind (hm : Writes f m first x) (hnext : Writes f (next x) second y) :
    Writes f (m >>= next) (first.andThen second) y := by
  cases hstop : first.stop with
  | some error =>
    rw [Emission.andThen_of_some hstop]
    exact hm.bind_of_stop hstop next y
  | none =>
    rw [Emission.andThen_of_none hstop]
    constructor
    · intro c room hc hroom
      rw [List.length_append] at hroom
      obtain ⟨hfront, hback⟩ := (hasRoom_add room _ _).mp hroom
      have hfirst := hm.fits c room hc hfront
      rw [Emission.answer_of_none hstop] at hfirst
      rw [run_bind_of_ok hfirst, hnext.fits (c.past first) _ hc hback]
      simp only [WriteCursor.serializer, WriteCursor.past, List.append_assoc, List.length_append,
        Nat.add_assoc, Option.map_map, Function.comp_def, Nat.sub_sub]
      rfl
    · intro c room hc hroom
      rw [List.length_append, hasRoom_add] at hroom
      by_cases hfront : HasRoom room first.bytes.length
      · have hfirst := hm.fits c room hc hfront
        rw [Emission.answer_of_none hstop] at hfirst
        rw [run_bind_of_ok hfirst]
        exact hnext.full (c.past first) _ hc fun hback => hroom ⟨hfront, hback⟩
      · exact streamFails_bind (hm.full c room hc hfront) next

theorem Writes.map (hm : Writes f m e x) (g : α → β) :
    Writes f (do return g (← m)) e (g x) := by
  rw [← Emission.andThen_nil e]
  exact hm.bind (.pure (g x))

theorem Writes.block {size : Nat} (contents : Block size) :
    Writes f (block contents) ⟨contents.bytes, none⟩ contents := by
  constructor
  · intro c room _ hroom
    rw [run_block, WriteCursor.serializer, Direction.move_of_hasRoom hroom]
    simp only [WriteCursor.serializer, WriteCursor.past, contents.length_eq]
    rfl
  · intro c room _ hroom
    have hfails : StreamFails ((Direction.saving c.sink room).move contents).1 :=
      Direction.streamFails_move hroom
    rw [run_block, WriteCursor.serializer]
    revert hfails
    rcases (Direction.saving c.sink room).move contents with ⟨answer, direction⟩
    rintro ⟨fault, rfl⟩
    exact ⟨fault, rfl⟩

theorem Writes.number (width n : Nat) :
    Writes f (number width n) ⟨Bytes.ofNat width n, none⟩ (n % 256 ^ width) := by
  rw [← Bytes.toNat_ofNat]
  exact (Writes.block _).map fun contents => contents.bytes.toNat

theorem Writes.word (g : Nat → β) (word : UInt32) :
    Writes f (do return g (← Sync.number 4 word.toNat)) ⟨Bytes.ofUInt32 word, none⟩
      (g word.toNat) := by
  have hlt := word.toNat_lt
  have h := (Writes.number (f := f) 4 word.toNat).map g
  rwa [Nat.mod_eq_of_lt (by omega)] at h

theorem Writes.checkLength {length : Nat} {stop : Option SaveError}
    (h : Kind.checkLength f length = Emission.answer ⟨[], stop⟩ ()) :
    Writes f (checkLength length) ⟨[], stop⟩ () := by
  apply Writes.get
  intro c room hc
  subst hc
  apply Writes.still
  intro c' room' _
  rw [run_liftExcept]
  exact congrArg (·, c'.serializer room') h

theorem Writes.textLength {length : Nat} (h : length ≤ f.limit) :
    Writes f (textLength length) ⟨Bytes.ofNat 4 length, none⟩ (length % 256 ^ 4) := by
  have hmod : length % 256 ^ 4 ≤ f.limit := (Nat.mod_le _ _).trans h
  have hcheck : Writes f (Sync.checkLength (length % 256 ^ 4)) ⟨[], none⟩ () :=
    .checkLength (if_neg (Nat.not_lt.mpr hmod))
  rw [← Emission.andThen_nil ⟨Bytes.ofNat 4 length, none⟩]
  exact (Writes.number 4 length).bind (hcheck.map fun _ => length % 256 ^ 4)

theorem Writes.saveText (contents : String) :
    Writes f (saveText contents) (Kind.putText f contents) contents := by
  by_cases h : contents.utf8ByteSize ≤ f.limit
  · have hcheck : Writes f (Sync.checkLength contents.utf8ByteSize) ⟨[], none⟩ () :=
      .checkLength (if_neg (Nat.not_lt.mpr h))
    have hlength := Writes.textLength h
    have hblock := Writes.block (f := f) ⟨Utf8.encode contents, rfl⟩
    have hparts : Kind.putText f contents =
        (⟨[], none⟩ : Emission).andThen
          ((⟨Bytes.ofNat 4 contents.utf8ByteSize, none⟩ : Emission).andThen
            ⟨Utf8.encode contents, none⟩) := Kind.put_text h
    rw [hparts]
    exact hcheck.bind (hlength.bind (hblock.map fun _ => contents))
  · have hlong : f.limit < contents.utf8ByteSize := Nat.lt_of_not_le h
    have hcheck : Writes f (Sync.checkLength contents.utf8ByteSize)
        ⟨[], some (.descriptionTooLong contents.utf8ByteSize f.limit)⟩ () :=
      .checkLength (if_pos hlong)
    rw [Kind.put_text_of_lt hlong]
    exact hcheck.bind_of_stop rfl _ contents

theorem Writes.row {item : α → Sync α} {put : α → Emission} {settle : α → α}
    (h : ∀ x, Writes f (item x) (put x) (settle x)) {count : Nat} (xs : Vector α count) :
    Writes f (row item xs) (xs.toList.foldr (fun x rest => (put x).andThen rest) ⟨[], none⟩)
      (xs.map settle) := by
  induction count with
  | zero =>
    obtain rfl : xs = #v[] := Vector.eq_empty
    rw [Vector.map_empty]
    exact .pure #v[]
  | succ count ih =>
    obtain ⟨ys, y, rfl⟩ : ∃ ys y, xs = Vector.push ys y := Vector.exists_push
    have hlastItem : (ys.push y).get (Fin.last count) = y := Vector.getElem_push_eq
    have hlast := (h y).map fun last => (ys.map settle).push last
    rw [Vector.map_push, Vector.toList_push, List.foldr_append, List.foldr_cons, List.foldr_nil,
      Emission.andThen_nil, Emission.foldr_andThen_append, Sync.row, Vector.pop_push, hlastItem]
    exact (ih ys).bind hlast

theorem Writes.word8 (x : UInt8) : Writes f (field .word8 x) ⟨[x], none⟩ x := by
  have hlt := x.toNat_lt
  have h := (Writes.number (f := f) 1 x.toNat).map UInt8.ofNat
  rwa [Nat.mod_eq_of_lt (by omega), Bytes.ofNat, UInt8.ofNat_toNat] at h

theorem Writes.word16 (x : UInt16) : Writes f (field .word16 x) ⟨Bytes.ofNat 2 x.toNat, none⟩ x := by
  have hlt := x.toNat_lt
  have h := (Writes.number (f := f) 2 x.toNat).map UInt16.ofNat
  rwa [Nat.mod_eq_of_lt (by omega), UInt16.ofNat_toNat] at h

theorem Writes.word32 (x : UInt32) : Writes f (field .word32 x) ⟨Bytes.ofUInt32 x, none⟩ x := by
  have h := Writes.word (f := f) UInt32.ofNat x
  rwa [UInt32.ofNat_toNat] at h

theorem Writes.integer (x : Int32) :
    Writes f (field .integer x) ⟨Bytes.ofUInt32 x.toUInt32, none⟩ x := by
  have h := Writes.word (f := f) (fun n => (UInt32.ofNat n).toInt32) x.toUInt32
  rwa [UInt32.ofNat_toNat, Int32.toInt32_toUInt32] at h

theorem Writes.flag (x : Bool) :
    Writes f (field .flag x) ⟨Bytes.ofUInt32 (if x then 1 else 0), none⟩ x := by
  have h := Writes.word (f := f) (fun n => decide (n ≠ 0)) (if x then 1 else 0)
  cases x with
  | false => exact h
  | true => exact h

theorem Writes.real (x : Binary32) :
    Writes f (real x) ⟨Bytes.ofUInt32 (Kind.realWord f x), none⟩
      (Kind.ofRealWord f (Kind.realWord f x)) := by
  apply Writes.get
  intro c room hc
  subst hc
  have h := Writes.word (f := c.format) (fun n => Kind.ofRealWord c.format (UInt32.ofNat n))
    (Kind.realWord c.format x)
  rwa [UInt32.ofNat_toNat] at h

theorem Writes.text (x : String) : Writes f (text x) (Kind.putText f x) x := by
  apply Writes.get
  intro c room _
  exact Writes.saveText x

theorem Writes.field (k : Kind) (x : k.Value) :
    Writes f (field k x) (k.put f x) (k.settle f x) := by
  induction k with
  | word8 => exact Writes.word8 x
  | word16 => exact Writes.word16 x
  | word32 => exact Writes.word32 x
  | integer => exact Writes.integer x
  | flag => exact Writes.flag x
  | real => exact Writes.real x
  | text => exact Writes.text x
  | block size => exact Writes.block x
  | row count item ih => exact Writes.row ih x

/-- A version that is refused has been put out by then. -/
theorem Writes.version (highest : UInt32) :
    Writes f (version highest) (putVersion f.version highest) () := by
  apply Writes.get
  intro c room hc
  subst hc
  have hword := Writes.number (f := c.format) 4 c.format.version.toNat
  have hlt := c.format.version.toNat_lt
  rw [Nat.mod_eq_of_lt (by omega)] at hword
  by_cases h : highest < c.format.version
  · have hparts : putVersion c.format.version highest =
        (⟨Bytes.ofUInt32 c.format.version, none⟩ : Emission).andThen
          ⟨[], some (.versionTooRecent c.format.version highest)⟩ := by
      rw [putVersion, if_pos h, Emission.andThen_eq, List.append_nil]
    rw [hparts]
    apply hword.bind
    dsimp only
    rw [UInt32.ofNat_toNat, if_pos h]
    exact .still fun _ _ _ => rfl
  · have hparts : putVersion c.format.version highest =
        (⟨Bytes.ofUInt32 c.format.version, none⟩ : Emission).andThen ⟨[], none⟩ := by
      rw [putVersion, if_neg h, Emission.andThen_eq, List.append_nil]
    rw [hparts]
    apply hword.bind
    dsimp only
    rw [UInt32.ofNat_toNat, if_neg h]
    apply Writes.still
    intro c' room' hsame
    rw [run_modify, ← hsame]
    rfl

end Sync

namespace ReadCursor

open Serializer

theorem run_field (c : ReadCursor) (k : Kind) (old : k.Value) :
    c.serializer.run (.field k old) = ((c.field k).1, (c.field k).2.serializer) :=
  Sync.Reads.field k old c

theorem run_version (c : ReadCursor) (highest : UInt32) :
    c.serializer.run (.version highest) =
      ((c.version highest).1.map fun _ => (), (c.version highest).2.serializer) := by
  have hword : c.serializer.run (Sync.number 4 c.serializer.format.version.toNat) =
      ((Reading.number 4 c.rest).answer, (c.past (Reading.number 4 c.rest)).serializer) :=
    Sync.Reads.number 4 _ c
  unfold Sync.version ReadCursor.version readVersion
  rw [run_bind_of_ok (run_get _)]
  rcases hr : Reading.number 4 c.rest with ⟨answer, moved, rest⟩
  rw [hr] at hword
  cases answer with
  | error e =>
    rw [run_bind_of_error hword]
    rfl
  | ok n =>
    rw [run_bind_of_ok hword]
    by_cases h : highest < UInt32.ofNat n
    · simp only [Reading.map, Reading.check, Except.map, Except.bind, if_pos h]
      rfl
    · simp only [Reading.map, Reading.check, Except.map, Except.bind, if_neg h]
      rfl

end ReadCursor

namespace WriteCursor

open Serializer

theorem run_field (c : WriteCursor) (k : Kind) (x : k.Value) :
    c.serializer.run (.field k x) = ((c.field k x).1, (c.field k x).2.serializer) :=
  (Sync.Writes.field k x).fits c none rfl nofun

theorem run_version (c : WriteCursor) (highest : UInt32) :
    c.serializer.run (.version highest) =
      ((c.version highest).1.map fun _ => (), (c.version highest).2.serializer) := by
  have hput := (Sync.Writes.version highest).fits c none rfl nofun
  rw [hput]
  unfold WriteCursor.version
  rcases putVersion c.format.version highest with ⟨bytes, stop⟩
  cases stop with
  | none => rfl
  | some e => rfl

end WriteCursor

end Savegame
