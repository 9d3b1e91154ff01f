import Savegame.Record.Field

/-!
# Cursors

Walks over fields one at a time, with a version word wherever one stands. A cursor counts the bytes
that moved. A field that is refused leaves the cursor after the bytes it used up, and the walk may
go on from there.
-/

namespace Savegame

/-- A walk through a byte string that is read. Its format has the version of the last version word
that was accepted, and zero before the first. -/
structure ReadCursor where
  format : Format
  rest : Bytes
  moved : Nat := 0

namespace ReadCursor

def start (limit : Nat) (bytes : Bytes) : ReadCursor :=
  ⟨⟨0, limit⟩, bytes, 0⟩

def past {α : Type} (c : ReadCursor) (r : Reading α) : ReadCursor :=
  { c with rest := r.rest, moved := c.moved + r.moved }

def field (c : ReadCursor) (k : Kind) : Except SaveError k.Value × ReadCursor :=
  let r := k.read c.format c.rest
  (r.answer, c.past r)

/-- Reads a version word. One above `highest` is used up, but the format stays as it is. -/
def version (c : ReadCursor) (highest : UInt32) : Except SaveError UInt32 × ReadCursor :=
  let r := readVersion highest c.rest
  match r.answer with
  | .ok version => (.ok version, { c.past r with format := { c.format with version } })
  | .error e => (.error e, c.past r)

end ReadCursor

/-- A walk that appends fields to a sink, in one format throughout. -/
structure WriteCursor where
  format : Format
  sink : Bytes := []
  moved : Nat := 0

namespace WriteCursor

def past (c : WriteCursor) (e : Emission) : WriteCursor :=
  { c with sink := c.sink ++ e.bytes, moved := c.moved + e.bytes.length }

/-- Writes a field. The answer is the value that reading it back gives. -/
def field (c : WriteCursor) (k : Kind) (x : k.Value) : Except SaveError k.Value × WriteCursor :=
  let e := k.put c.format x
  (e.answer (k.settle c.format x), c.past e)

/-- Writes the version word. One above `highest` is refused, but only after it was written. -/
def version (c : WriteCursor) (highest : UInt32) : Except SaveError UInt32 × WriteCursor :=
  let e := putVersion c.format.version highest
  (e.answer c.format.version, c.past e)

end WriteCursor

end Savegame
