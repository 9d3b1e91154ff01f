import Savegame.Proofs.RoundTrip
import Savegame.Proofs.Run
import Savegame.Record.Cursor

/-!
# Walks over fields

A walk that writes a version word and then any fields, and a walk over the bytes that it wrote. The
second learns the version from the word and finds the end of a text from the length in front of it;
otherwise it is told nothing but the kinds of the fields.
-/

namespace Savegame

structure Field where
  kind : Kind
  value : kind.Value

inductive WriteStep where
  | version (highest : UInt32)
  | field (x : Field)

inductive ReadStep where
  | version (highest : UInt32)
  | field (k : Kind)

inductive Item where
  | version (version : UInt32)
  | field (x : Field)

def WriteCursor.step (c : WriteCursor) : WriteStep → Except SaveError Item × WriteCursor
  | .version highest => ((c.version highest).1.map .version, (c.version highest).2)
  | .field x =>
    ((c.field x.kind x.value).1.map fun value => .field ⟨x.kind, value⟩, (c.field x.kind x.value).2)

def ReadCursor.step (c : ReadCursor) : ReadStep → Except SaveError Item × ReadCursor
  | .version highest => ((c.version highest).1.map .version, (c.version highest).2)
  | .field k => ((c.field k).1.map fun value => .field ⟨k, value⟩, (c.field k).2)

/-- What comes back of a value: all of it, but numbers are rounded from `fixedPointVersion` on. -/
def Kind.returned (version : UInt32) : (k : Kind) → k.Value → k.Value
  | real, x => x.kept version
  | row _ item, xs => xs.map (item.returned version)
  | word8, x => x
  | word16, x => x
  | word32, x => x
  | integer, x => x
  | flag, x => x
  | text, x => x
  | block _, x => x

theorem Kind.settle_eq_returned (f : Format) (k : Kind) (x : k.Value) :
    k.settle f x = k.returned f.version x := by
  induction k with
  | real => exact ofRealWord_realWord f x
  | row count item ih =>
    have hitem : item.settle f = item.returned f.version := funext ih
    exact congrArg (fun g => Vector.map g x) hitem
  | _ => rfl

namespace Field

def Fits (f : Format) (x : Field) : Prop :=
  x.kind.Fits f x.value

def bytes (f : Format) (x : Field) : Bytes :=
  (x.kind.put f x.value).bytes

def returned (version : UInt32) (x : Field) : Field :=
  ⟨x.kind, x.kind.returned version x.value⟩

end Field

def WriteStep.bytes (f : Format) : WriteStep → Bytes
  | .version _ => Bytes.ofUInt32 f.version
  | .field x => x.bytes f

theorem WriteCursor.sink_after (w : WriteCursor) (moves : List WriteStep) :
    (after step w moves).sink = w.sink ++ moves.flatMap (·.bytes w.format) := by
  induction moves generalizing w with
  | nil => exact (List.append_nil _).symm
  | cons move rest ih =>
    have hformat : (w.step move).2.format = w.format := by cases move <;> rfl
    have hsink : (w.step move).2.sink = w.sink ++ move.bytes w.format := by cases move <;> rfl
    have hrest := ih (w.step move).2
    rw [hformat, hsink, List.append_assoc] at hrest
    exact hrest

/-- A reading cursor that has come as far as a writing one, with the given bytes before it. -/
structure InStep (ahead : Bytes) (w : WriteCursor) (r : ReadCursor) : Prop where
  format : r.format = w.format
  moved : r.moved = w.moved
  counted : w.moved = w.sink.length
  rest : r.rest = ahead

/-- Two walks that answer with the same items and count the same bytes at every step. -/
structure Agree (items : List Item) (w : WriteCursor) (r : ReadCursor) (moves : List WriteStep)
    (reads : List ReadStep) (left : Bytes) : Prop where
  written : (trace WriteCursor.step w moves).map (·.1) = items.map .ok
  read : (trace ReadCursor.step r reads).map (·.1) = items.map .ok
  moved : (trace ReadCursor.step r reads).map (·.2.moved) =
    (trace WriteCursor.step w moves).map (·.2.moved)
  counted : ∀ stage ∈ trace WriteCursor.step w moves, stage.2.moved = stage.2.sink.length
  rest : (after ReadCursor.step r reads).rest = left

variable {w w' : WriteCursor} {r r' : ReadCursor} {left : Bytes}

theorem Agree.nil (h : InStep left w r) : Agree [] w r [] [] left :=
  ⟨rfl, rfl, rfl, nofun, h.rest⟩

theorem Agree.cons {item : Item} {items : List Item} {move : WriteStep} {moves : List WriteStep}
    {read : ReadStep} {reads : List ReadStep} {ahead : Bytes}
    (hwrite : w.step move = (.ok item, w')) (hread : r.step read = (.ok item, r'))
    (hstep : InStep ahead w' r') (h : Agree items w' r' moves reads left) :
    Agree (item :: items) w r (move :: moves) (read :: reads) left := by
  constructor
  · rw [trace, hwrite, List.map_cons, h.written, List.map_cons]
  · rw [trace, hread, List.map_cons, h.read, List.map_cons]
  · rw [trace, trace, hwrite, hread, List.map_cons, List.map_cons, h.moved, hstep.moved]
  · intro stage hstage
    rw [trace, hwrite] at hstage
    rcases List.mem_cons.mp hstage with rfl | hlater
    · exact hstep.counted
    · exact h.counted stage hlater
  · rw [after, List.foldl_cons, hread]
    exact h.rest

theorem InStep.field {x : Field} (hlimit : w.format.limit < UInt32.size) (hfits : x.Fits w.format)
    (h : InStep (x.bytes w.format ++ left) w r) :
    w.step (.field x) = (.ok (.field (x.returned w.format.version)),
        w.past ⟨x.bytes w.format, none⟩) ∧
      ∃ r', r.step (.field x.kind) = (.ok (.field (x.returned w.format.version)), r') ∧
        InStep left (w.past ⟨x.bytes w.format, none⟩) r' := by
  have hput : x.kind.put w.format x.value = ⟨x.bytes w.format, none⟩ := by
    rw [Field.bytes, ← Kind.stop_put hfits]
  have hsettle := Kind.settle_eq_returned w.format x.kind x.value
  have hread : x.kind.read r.format r.rest =
      ⟨.ok (x.kind.returned w.format.version x.value), (x.bytes w.format).length, left⟩ := by
    rw [h.format, h.rest, ← hsettle]
    exact Kind.read_put hlimit hfits left
  constructor
  · simp only [WriteCursor.step, WriteCursor.field, hput, hsettle, Emission.answer, Except.map]
    rfl
  · refine ⟨r.past (x.kind.read r.format r.rest), ?_, h.format, ?_, ?_, ?_⟩
    · simp only [ReadCursor.step, ReadCursor.field, hread, Except.map]
      rfl
    · rw [hread]
      exact congrArg (· + _) h.moved
    · simp only [WriteCursor.past, List.length_append, h.counted]
    · rw [hread]
      rfl

/-- Walks that are in step agree on any fields that fit. -/
theorem InStep.fields {fields : List Field} (hlimit : w.format.limit < UInt32.size)
    (hfits : ∀ x ∈ fields, x.Fits w.format)
    (h : InStep (fields.flatMap (·.bytes w.format) ++ left) w r) :
    Agree (fields.map fun x => .field (x.returned w.format.version)) w r
      (fields.map .field) (fields.map fun x => .field x.kind) left := by
  induction fields generalizing w r with
  | nil => exact .nil h
  | cons x rest ih =>
    rw [List.flatMap_cons, List.append_assoc] at h
    obtain ⟨hwrite, r', hread, hnext⟩ := h.field hlimit (hfits x List.mem_cons_self)
    have hrest := ih (w := w.past ⟨x.bytes w.format, none⟩) hlimit
      (fun y hy => hfits y (List.mem_cons_of_mem x hy)) hnext
    exact .cons hwrite hread hnext hrest

/-- A version word brings the cursor that reads it into step: it learns the version. -/
theorem InStep.of_version {version highest accepted : UInt32} (hwritten : version ≤ highest)
    (hread : version ≤ accepted) (limit : Nat) (left : Bytes) :
    let w : WriteCursor := { format := ⟨version, limit⟩ }
    let r := ReadCursor.start limit (Bytes.ofUInt32 version ++ left)
    w.step (.version highest) = (.ok (.version version), w.past ⟨Bytes.ofUInt32 version, none⟩) ∧
      ∃ r', r.step (.version accepted) = (.ok (.version version), r') ∧
        InStep left (w.past ⟨Bytes.ofUInt32 version, none⟩) r' := by
  intro w r
  have hcheck : ¬ highest < version := UInt32.not_lt.mpr hwritten
  have hword : readVersion accepted r.rest = ⟨.ok version, 4, left⟩ :=
    Record.readVersion_append hread left
  constructor
  · simp only [WriteCursor.step, WriteCursor.version, w, putVersion, if_neg hcheck,
      Emission.answer, Except.map]
  · refine ⟨⟨⟨version, limit⟩, left, 4⟩, ?_, rfl, ?_, ?_, rfl⟩
    · simp only [ReadCursor.step, ReadCursor.version, hword, ReadCursor.past, Except.map]
      rfl
    · exact (Bytes.length_ofUInt32 version).symm
    · exact Nat.zero_add _

/-- A version word and any fields that keep to the limit can be written, and what was written can be
read through the same kinds of fields: it gives the values back, raw or rounded as the version has
it, counts the same bytes at every step and ends where the bytes end. -/
theorem read_walk_of_written (version highest accepted : UInt32) (limit : Nat)
    (fields : List Field) (hlimit : limit < UInt32.size) (hwritten : version ≤ highest)
    (hread : version ≤ accepted) (hfits : ∀ x ∈ fields, x.Fits ⟨version, limit⟩) :
    let w : WriteCursor := { format := ⟨version, limit⟩ }
    let moves := WriteStep.version highest :: fields.map .field
    let r := ReadCursor.start limit (after WriteCursor.step w moves).sink
    let reads := ReadStep.version accepted :: fields.map fun x => .field x.kind
    let items := Item.version version :: fields.map fun x => .field (x.returned version)
    Agree items w r moves reads [] := by
  intro w moves r reads items
  have hsink : (after WriteCursor.step w moves).sink =
      Bytes.ofUInt32 version ++ (fields.flatMap (·.bytes ⟨version, limit⟩) ++ []) := by
    rw [WriteCursor.sink_after, List.flatMap_cons, List.flatMap_map, List.append_nil]
    rfl
  obtain ⟨hversion, r', hlearnt, hstep⟩ :=
    InStep.of_version hwritten hread limit (fields.flatMap (·.bytes ⟨version, limit⟩) ++ [])
  have hrest := InStep.fields (w := w.past ⟨Bytes.ofUInt32 version, none⟩) hlimit hfits hstep
  rw [← hsink] at hlearnt
  exact .cons hversion hlearnt hstep hrest

theorem read_walk_of_written_mixed :
    let fields : List Field :=
      [⟨.text, "Tür"⟩, ⟨.real, (⟨0x3DCCCCCD⟩ : Binary32)⟩, ⟨.block 2, ⟨[7, 9], rfl⟩⟩, ⟨.flag, true⟩]
    let w : WriteCursor := { format := ⟨149, 4⟩ }
    let moves := WriteStep.version 149 :: fields.map .field
    (4 < UInt32.size ∧ ∀ x ∈ fields, x.Fits ⟨149, 4⟩) ∧
      Agree (.version 149 :: fields.map fun x => .field (x.returned 149)) w
        (.start 4 (after WriteCursor.step w moves).sink) moves
        (.version 200 :: fields.map fun x => .field x.kind) [] := by
  intro fields w moves
  have hshort : "Tür".utf8ByteSize ≤ 4 := by decide
  have hfits : ∀ x ∈ fields, x.Fits ⟨149, 4⟩ := by
    simp only [fields, List.forall_mem_cons]
    exact ⟨hshort, trivial, trivial, trivial, List.forall_mem_nil _⟩
  exact ⟨⟨by decide, hfits⟩,
    read_walk_of_written 149 149 200 4 fields (by decide) (by decide) (by decide) hfits⟩

end Savegame
