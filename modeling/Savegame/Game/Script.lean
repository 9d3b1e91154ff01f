import Savegame.Condition
import Savegame.Game.Basic

/-!
# Scripts

Conditions on the live game. A condition on one of the four key variables first brings that
variable up to date.
-/

namespace Savegame

structure Keys where
  mouse : Bool := false
  escape : Bool := false
  tilde : Bool := false
  space : Bool := false
  deriving DecidableEq, Repr

namespace Keys

/-- Whether the key behind a variable is down, if there is a key behind it. -/
def pressed? (keys : Keys) (index : UInt16) : Option Bool :=
  if index = Variable.mousePressed then some keys.mouse
  else if index = Variable.escapePressed then some keys.escape
  else if index = Variable.tildePressed then some keys.tilde
  else if index = Variable.spacePressed then some keys.space
  else none

end Keys

namespace Game

def refresh (g : Game) (keys : Keys) (index : UInt16) : Game :=
  match keys.pressed? index with
  | some pressed => g.withTable (g.record.table.write index (if pressed then 1 else 0))
  | none => g

/-- Whether a packed condition holds, and the game after looking. -/
def evaluate (g : Game) (keys : Keys) (word : Int16) : Bool × Game :=
  let c := Condition.decode word
  let g := g.refresh keys c.index
  (c.holds (g.record.table.read c.index), g)

/-- A negative operand stands for the value of a variable, any other for itself. -/
def operand (g : Game) (word : Int16) : Except SaveError Int32 :=
  if word < 0 then g.get (UInt16.ofNat (Condition.magnitude word))
  else .ok word.toInt32

/-- The text of a packed condition. A test of truth is shown as a comparison with zero. -/
def describeCondition (word : Int16) : String :=
  let name := describe (Condition.packedIndex word)
  let target := Condition.packedTarget word
  let equal := decide (0 ≤ word) == decide (0 < target)
  "c[" ++ name ++ (if equal then " == " else " != ") ++ Numeral.decimal 1 (target - 1) ++ "]"

end Game

end Savegame
