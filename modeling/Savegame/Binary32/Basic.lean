/-!
# Binary32 numbers

A number is its 32 bits, so that what only travels (the payload of a NaN, the sign of a zero)
arrives unchanged. Arithmetic is exact up to one rounding: a magnitude is counted in units of
`2 ^ -149`, the least positive number, and `nearest` rounds a quotient of such counts to the
nearest pattern, ties to the even one, with everything too large going to infinity.
-/

namespace Savegame

/-- A number of the interchange format binary32, by its bits. -/
structure Binary32 where
  bits : UInt32
  deriving DecidableEq, Repr, Inhabited

namespace Binary32

def zero : Binary32 := ⟨0⟩

def signBit : Nat := 0x80000000

def isNegative (x : Binary32) : Bool :=
  signBit ≤ x.bits.toNat

/-- The bits without the sign. On these the order of numbers is the order of patterns. -/
def pattern (x : Binary32) : Nat :=
  x.bits.toNat % signBit

/-- The pattern of infinity; the patterns above it are NaNs. -/
def infinityPattern : Nat := 0x7F800000

def isNaN (x : Binary32) : Bool :=
  infinityPattern < x.pattern

def isFinite (x : Binary32) : Bool :=
  x.pattern < infinityPattern

/-- Significands of full width start at this bit, which their patterns leave out. -/
def hiddenBit : Nat := 0x800000

/-- The significand of a pattern and the power of two, above `2 ^ -149`, that it is scaled by. -/
def parts (pattern : Nat) : Nat × Nat :=
  if pattern < hiddenBit then (pattern, 0)
  else (hiddenBit + pattern % hiddenBit, pattern / hiddenBit - 1)

/-- The magnitude that a pattern denotes, in units of `2 ^ -149`. Infinity counts as `2 ^ 128`. -/
def units (pattern : Nat) : Nat :=
  (parts pattern).1 <<< (parts pattern).2

def one : Nat := 1 <<< 149

/-- The quotient rounded to the nearest integer, a tie to the even one. -/
def divNearestEven (num den : Nat) : Nat :=
  let low := num / den
  let rest := num % den
  if 2 * rest < den then low
  else if den < 2 * rest then low + 1
  else low + low % 2

/-- The pattern nearest to `num / den` units. The significand takes 24 bits, or fewer at the
bottom of the range; a carry out of them moves on to the next power of two by itself. -/
def nearest (num den : Nat) : Nat :=
  let scale := Nat.log2 (num / den) - 23
  min infinityPattern (scale * hiddenBit + divNearestEven num (den <<< scale))

def ofPattern (negative : Bool) (pattern : Nat) : Binary32 :=
  ⟨UInt32.ofNat (if negative then signBit + pattern else pattern)⟩

def ofInt (n : Int) : Binary32 :=
  ofPattern (decide (n < 0)) (nearest (n.natAbs * one) 1)

/-- The product with a positive integer. A NaN is left alone. -/
def scale (x : Binary32) (factor : Nat) : Binary32 :=
  if x.isNaN then x else ofPattern x.isNegative (nearest (units x.pattern * factor) 1)

/-- The quotient by a positive integer. A NaN is left alone. -/
def divide (x : Binary32) (divisor : Nat) : Binary32 :=
  if x.isNaN then x
  else if x.isFinite then ofPattern x.isNegative (nearest (units x.pattern) divisor)
  else x

/-- The nearest integer, halves away from zero, held within 32 bits. A NaN gives zero. -/
def round (x : Binary32) : Int32 :=
  if x.isNaN then 0
  else
    let magnitude : Int := ((2 * units x.pattern + one) / (2 * one) : Nat)
    if x.isNegative then Int32.ofInt (max (-magnitude) Int32.minValue.toInt)
    else Int32.ofInt (min magnitude Int32.maxValue.toInt)

end Binary32

end Savegame
