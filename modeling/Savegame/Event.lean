import Savegame.Error

/-!
# Events

What operations report besides their answers, oldest first.
-/

namespace Savegame

inductive Event where
  | unimplementedWrite (index : UInt16) (name : String) (value : Int32)
  | inventoryFull (dropped : Nat)
  | variableZeroReset (value : Int32)
  | recordDecoded (version : UInt32) (bytes : Nat)
  | recordEncoded (version : UInt32) (bytes : Nat)
  | backupLoaded (slot : UInt16) (cause : SaveError)
  /-- The checksum of a slot could not be looked up. -/
  | sidecarIgnored (slot : UInt16)
  /-- A sidecar was left out of a listing. -/
  | sidecarSkipped
  deriving DecidableEq, Repr

namespace Event

inductive Level where
  | warning
  | detail
  deriving DecidableEq, Repr

def level : Event → Level
  | recordDecoded _ _ | recordEncoded _ _ => .detail
  | _ => .warning

def message : Event → String
  | unimplementedWrite _ _ _ => "a script is writing to the unimplemented engine-mapped var"
  | inventoryFull _ => "inventory is full, extra items were not stored"
  | variableZeroReset _ => "save carries a non-zero var 0, resetting"
  | recordDecoded _ _ => "decoded save record"
  | recordEncoded _ _ => "encoded save record"
  | backupLoaded _ _ => "primary save is unreadable, loaded the backup copy"
  | sidecarIgnored _ => "ignoring unreadable slot metadata"
  | sidecarSkipped => "skipping unreadable slot metadata"

end Event

/-- What an operation leaves behind: its answer, the state after it, and its events. -/
structure Outcome (σ α : Type) where
  answer : Except SaveError α
  state : σ
  events : List Event := []

namespace Outcome

/-- Goes on with the state left behind if the answer is good. -/
def andThen {σ α β : Type} (o : Outcome σ α) (next : α → σ → Outcome σ β) : Outcome σ β :=
  match o.answer with
  | .ok x =>
    let after := next x o.state
    { after with events := o.events ++ after.events }
  | .error e => ⟨.error e, o.state, o.events⟩

end Outcome

end Savegame
