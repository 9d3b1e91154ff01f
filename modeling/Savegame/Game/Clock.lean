import Savegame.Game.Basic

/-!
# Frames and seconds

Each update counts a frame. A running game also counts down the frame countdown, and once its
deadline has passed, or is more than two seconds off, a second; the next deadline is then one
second after the clock's reading. All counters are 32-bit words and wrap.
-/

namespace Savegame.Game

/-- The time from one second to the next, in milliseconds. -/
def secondLength : UInt32 := 1000

/-- How far off a deadline may be, in milliseconds. -/
def driftAllowed : Nat := 2000

def countDown (table : VariableTable) (index : UInt16) : VariableTable :=
  let value := table.read index
  if 0 < value then table.write index (value - 1) else table

/-- The distance of two readings, the shorter way round. -/
def drift (deadline now : UInt32) : Nat :=
  (deadline - now).toInt32.toInt.natAbs

def secondIsDue (deadline now : UInt32) : Bool :=
  deadline < now || driftAllowed < drift deadline now

def countSecond (r : Record) (now : UInt32) : Record :=
  { r with
    secondsPlayed := r.secondsPlayed + 1
    nextSecond := now + secondLength
    table := countDown r.table Variable.secondsCountdown }

def tick (g : Game) (now : UInt32) : Game :=
  let r := { g.record with frame := g.record.frame + 1 }
  if r.running then
    let r := { r with table := countDown r.table Variable.frameCountdown }
    { g with record := if secondIsDue r.nextSecond now then countSecond r now else r }
  else { g with record := r }

end Savegame.Game
