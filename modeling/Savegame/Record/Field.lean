import Savegame.Binary32.FixedPoint
import Savegame.Record.Basic
import Savegame.Text.Utf8

/-!
# Fields

A record is a sequence of fields. Each kind of field has a type of values, a way to be put out as
bytes and a way to be read from the front of a byte string; both depend on the format, that is on
the version of the record and the longest text allowed. `Emission` and `Reading` say what putting
out and reading leave behind, also where they stop early.
-/

namespace Savegame

/-- What the encoding of a field depends on besides its value. -/
structure Format where
  version : UInt32
  /-- The longest text allowed, in bytes. -/
  limit : Nat := 256

namespace Format

/-- From this version on numbers are fixed-point words and no longer raw bits. -/
def fixedPointVersion : UInt32 := 149

def isFixedPoint (f : Format) : Bool :=
  fixedPointVersion ≤ f.version

end Format

/-- The bytes put out, and why no more came. -/
structure Emission where
  bytes : Bytes
  stop : Option SaveError := none

namespace Emission

/-- Goes on unless stopped. -/
def andThen (first second : Emission) : Emission :=
  match first.stop with
  | none => ⟨first.bytes ++ second.bytes, second.stop⟩
  | some _ => first

/-- What whoever asked for an emission is told: `x`, or why it stopped. -/
def answer {α : Type} (e : Emission) (x : α) : Except SaveError α :=
  match e.stop with
  | none => .ok x
  | some error => .error error

/-- What a sink with room for `room` bytes makes of an emission: it takes what fits, and fails
only if something did not. -/
def into (e : Emission) (room : Nat) : Emission :=
  if e.bytes.length ≤ room then e else ⟨e.bytes.take room, some (.stream .sinkFull)⟩

end Emission

/-- What was read, or why nothing was; how many bytes were used up for it, and those left. -/
structure Reading (α : Type) where
  answer : Except SaveError α
  moved : Nat
  rest : Bytes

namespace Reading

def andThen {α β : Type} (r : Reading α) (next : α → Bytes → Reading β) : Reading β :=
  match r.answer with
  | .ok x =>
    let after := next x r.rest
    ⟨after.answer, r.moved + after.moved, after.rest⟩
  | .error e => ⟨.error e, r.moved, r.rest⟩

def map {α β : Type} (r : Reading α) (f : α → β) : Reading β :=
  ⟨r.answer.map f, r.moved, r.rest⟩

/-- Looks at what was read and may still refuse it. -/
def check {α β : Type} (r : Reading α) (f : α → Except SaveError β) : Reading β :=
  ⟨r.answer.bind f, r.moved, r.rest⟩

/-- The first `count` bytes. If there are fewer, none is used up. -/
def take (count : Nat) (bytes : Bytes) : Reading (Block count) :=
  let front := bytes.take count
  if h : front.length = count then ⟨.ok ⟨front, h⟩, count, bytes.drop count⟩
  else ⟨.error (.stream .endOfInput), 0, bytes⟩

def number (width : Nat) (bytes : Bytes) : Reading Nat :=
  (take width bytes).map fun block => Bytes.toNat block.bytes

end Reading

inductive Kind where
  | word8
  | word16
  | word32
  | integer
  | flag
  | real
  | text
  | block (size : Nat)
  /-- A fixed number of fields of one kind. -/
  | row (count : Nat) (item : Kind)
  deriving DecidableEq, Repr

namespace Kind

def Value : Kind → Type
  | word8 => UInt8
  | word16 => UInt16
  | word32 => UInt32
  | integer => Int32
  | flag => Bool
  | real => Binary32
  | text => String
  | block size => Block size
  | row count item => Vector item.Value count

def checkLength (f : Format) (length : Nat) : Except SaveError Unit :=
  if f.limit < length then .error (.descriptionTooLong length f.limit) else .ok ()

/-- The bytes of a number: its bits, or a fixed-point word. -/
def realWord (f : Format) (x : Binary32) : UInt32 :=
  if f.isFixedPoint then x.toFixedPoint.toUInt32 else x.bits

def ofRealWord (f : Format) (word : UInt32) : Binary32 :=
  if f.isFixedPoint then .ofFixedPoint word.toInt32 else ⟨word⟩

/-- A text is its length in bytes and the bytes; one that is too long is held back entirely. -/
def putText (f : Format) (contents : String) : Emission :=
  match checkLength f contents.utf8ByteSize with
  | .error e => ⟨[], some e⟩
  | .ok () => ⟨Bytes.ofNat 4 contents.utf8ByteSize ++ Utf8.encode contents, none⟩

def readText (f : Format) (bytes : Bytes) : Reading String :=
  ((Reading.number 4 bytes).check fun length => do
      checkLength f length
      return length).andThen fun length rest =>
    (Reading.take length rest).check fun block =>
      match Utf8.decode block.bytes with
      | .ok contents => .ok contents
      | .error fault => .error (.corrupt (.description fault))

def readRow {α : Type} (item : Bytes → Reading α) : (count : Nat) → Bytes → Reading (Vector α count)
  | 0, bytes => ⟨.ok #v[], 0, bytes⟩
  | count + 1, bytes =>
    (readRow item count bytes).andThen fun done rest =>
      (item rest).map fun x => done.push x

def put (f : Format) : (k : Kind) → k.Value → Emission
  | word8, x => ⟨[x], none⟩
  | word16, x => ⟨Bytes.ofNat 2 x.toNat, none⟩
  | word32, x => ⟨Bytes.ofUInt32 x, none⟩
  | integer, x => ⟨Bytes.ofUInt32 x.toUInt32, none⟩
  | flag, (x : Bool) => ⟨Bytes.ofUInt32 (if x then 1 else 0), none⟩
  | real, x => ⟨Bytes.ofUInt32 (realWord f x), none⟩
  | text, x => putText f x
  | block _, x => ⟨x.bytes, none⟩
  | row _ item, xs => xs.toList.foldr (fun x rest => (item.put f x).andThen rest) ⟨[], none⟩

def read (f : Format) : (k : Kind) → Bytes → Reading k.Value
  | word8, bytes => (Reading.number 1 bytes).map fun n => UInt8.ofNat n
  | word16, bytes => (Reading.number 2 bytes).map fun n => UInt16.ofNat n
  | word32, bytes => (Reading.number 4 bytes).map fun n => UInt32.ofNat n
  | integer, bytes => (Reading.number 4 bytes).map fun n => (UInt32.ofNat n).toInt32
  | flag, bytes => (Reading.number 4 bytes).map fun n => decide (n ≠ 0)
  | real, bytes => (Reading.number 4 bytes).map fun n => ofRealWord f (UInt32.ofNat n)
  | text, bytes => readText f bytes
  | block size, bytes => Reading.take size bytes
  | row count item, bytes => readRow (item.read f) count bytes

/-- The value that reading back a field gives: numbers are rounded where they travel in fixed
point. -/
def settle (f : Format) : (k : Kind) → k.Value → k.Value
  | real, x => ofRealWord f (realWord f x)
  | row _ item, xs => xs.map (item.settle f)
  | word8, x => x
  | word16, x => x
  | word32, x => x
  | integer, x => x
  | flag, x => x
  | text, x => x
  | block _, x => x

end Kind

abbrev Layout := List Kind

namespace Layout

def Values : Layout → Type
  | [] => Unit
  | k :: rest => k.Value × Values rest

def put (f : Format) : (layout : Layout) → Values layout → Emission
  | [], _ => ⟨[], none⟩
  | k :: rest, (x, xs) => (k.put f x).andThen (put f rest xs)

def read (f : Format) : (layout : Layout) → Bytes → Reading (Values layout)
  | [], bytes => ⟨.ok (), 0, bytes⟩
  | k :: rest, bytes =>
    (k.read f bytes).andThen fun x bytes =>
      (read f rest bytes).map fun xs => (x, xs)

end Layout

/-- The word in front of a record. A version above `highest` is put out and then refused. -/
def putVersion (version highest : UInt32) : Emission where
  bytes := Bytes.ofUInt32 version
  stop := if highest < version then some (.versionTooRecent version highest) else none

def readVersion (highest : UInt32) (bytes : Bytes) : Reading UInt32 :=
  ((Reading.number 4 bytes).map UInt32.ofNat).check fun version =>
    if highest < version then .error (.versionTooRecent version highest) else .ok version

end Savegame
