/-!
# Packed conditions

A condition is a signed 16-bit word. The low eleven bits of its absolute value are a variable, the
bits above them one more than the value it is compared with, or zero for a test of truth. A
negative word stands for the opposite test.
-/

namespace Savegame

/-- What a condition asks of a variable's value. -/
inductive Test where
  | truthy
  | equals (target : Int32)
  deriving DecidableEq, Repr

structure Condition where
  index : UInt16
  test : Test
  negated : Bool
  deriving DecidableEq, Repr

namespace Condition

/-- The absolute value of a packed word; the lowest word has one too. -/
def magnitude (word : Int16) : Nat :=
  word.toInt.natAbs

def packedIndex (word : Int16) : UInt16 :=
  UInt16.ofNat (magnitude word % 2048)

/-- The stored target of a packed word: zero for a test of truth, one more than the value
compared with otherwise. -/
def packedTarget (word : Int16) : Nat :=
  magnitude word / 2048

def decode (word : Int16) : Condition where
  index := packedIndex word
  test :=
    match packedTarget word with
    | 0 => .truthy
    | target + 1 => .equals (Int32.ofNat target)
  negated := word < 0

/-- The stored form of a test, or nothing if it takes more than five bits. -/
def Test.stored? : Test → Option Nat
  | .truthy => some 0
  | .equals target =>
    if 0 ≤ target ∧ target.toInt + 1 < 32 then some (target.toInt.toNat + 1) else none

/-- The word for a condition. There is none for a variable above 2047 or a target that does not
fit, and none for the opposite of a test of variable 0 for truth, since minus zero is zero. -/
def encode (c : Condition) : Option Int16 := do
  let stored ← Test.stored? c.test
  let magnitude := stored * 2048 + c.index.toNat
  if 2047 < c.index then none
  else if c.negated then
    if 0 < magnitude ∧ magnitude ≤ 32768 then some (Int16.ofInt (-(magnitude : Int))) else none
  else if magnitude < 32768 then some (Int16.ofInt magnitude)
  else none

def holds (c : Condition) (value : Int32) : Bool :=
  let matched :=
    match c.test with
    | .truthy => value != 0
    | .equals target => value == target
  matched != c.negated

end Condition

end Savegame
