import Savegame.Binary32.Basic
import Savegame.Text.Numeral

/-!
# The shortest decimal of a binary32 number

Of the decimals that read back as the number, those with the fewest digits, and of these the
nearest one, an exact tie going to the even digit. All comparisons are between integers: a decimal
`d * 10 ^ e` and a magnitude in units of `2 ^ -149` are brought over one denominator.
-/

namespace Savegame.Binary32

/-- A decimal magnitude `digits * 10 ^ exponent`. -/
structure Decimal where
  digits : Nat
  exponent : Int
  deriving DecidableEq, Repr

namespace Shortest

/-- The magnitudes that round to a pattern, counted in quarters of `2 ^ -149`: they reach half way
to the patterns on either side, with the ends themselves where the pattern is even. -/
structure Interval where
  low : Nat
  middle : Nat
  high : Nat
  closed : Bool

/-- The interval of a positive finite pattern. -/
def Interval.of (pattern : Nat) : Interval where
  low := 2 * (units pattern + units (pattern - 1))
  middle := 4 * units pattern
  high := 2 * (units pattern + units (pattern + 1))
  closed := pattern % 2 = 0

/-- The grid of decimals with one exponent: `quarter` is a quarter of `2 ^ -149`, and `step` one unit
of the last digit, over a common denominator. -/
structure Grid where
  quarter : Nat
  step : Nat

def Grid.of (exponent : Int) : Grid where
  quarter := Nat.pow 10 (-exponent).toNat
  step := Nat.pow 10 exponent.toNat * (4 * one)

def Interval.contains (i : Interval) (g : Grid) (digits : Nat) : Bool :=
  if i.closed then i.low * g.quarter ≤ digits * g.step && digits * g.step ≤ i.high * g.quarter
  else i.low * g.quarter < digits * g.step && digits * g.step < i.high * g.quarter

/-- The point of the grid to write for an interval: of the two neighbours of its middle that lie
inside, the nearer, an exact tie going to the even one. -/
def pick (i : Interval) (g : Grid) : Option Nat :=
  let middle := i.middle * g.quarter
  let below := middle / g.step
  let above := below + 1
  let nearer := divNearestEven middle g.step
  match i.contains g below, i.contains g above with
  | true, true => some nearer
  | true, false => some below
  | false, true => some above
  | false, false => none

/-- Tries grids from `exponent` down. -/
def search (i : Interval) (exponent : Int) : Nat → Option Decimal
  | 0 => none
  | fuel + 1 =>
    match pick i (Grid.of exponent) with
    | some digits => some ⟨digits, exponent⟩
    | none => search i (exponent - 1) fuel

end Shortest

/-- The digits without zeros at the end. -/
def Decimal.trim (d : Decimal) : (fuel : Nat) → Decimal
  | 0 => d
  | fuel + 1 =>
    if d.digits ≠ 0 ∧ d.digits % 10 = 0 then Decimal.trim ⟨d.digits / 10, d.exponent + 1⟩ fuel
    else d

/-- The shortest decimal of a positive finite pattern. The coarsest grid tried has one point below
`2 ^ 128`; the finest, of step `10 ^ -53`, has points in every interval. -/
def shortest (pattern : Nat) : Decimal :=
  match Shortest.search (Shortest.Interval.of pattern) 39 93 with
  | some d => d.trim 12
  | none => ⟨0, 0⟩

/-- How a decimal is laid out: positionally for the exponents of its first digit from `least` to
`greatest`, with an exponent otherwise. -/
structure Layout where
  least : Int
  greatest : Int

/-- Positional digits, with at least one after the point. -/
def positional (d : Decimal) : String :=
  let digits := Numeral.decimal 1 d.digits
  if 0 ≤ d.exponent then digits ++ String.ofList (List.replicate d.exponent.toNat '0') ++ ".0"
  else
    let places := (-d.exponent).toNat
    let padded := (Numeral.decimal (places + 1) d.digits).toList
    String.ofList (padded.take (padded.length - places)) ++ "." ++
      String.ofList (padded.drop (padded.length - places))

/-- One digit, a point if more follow, and a signed exponent. -/
def scientific (d : Decimal) : String :=
  let digits := (Numeral.decimal 1 d.digits).toList
  let exponent : Int := d.exponent + (digits.length - 1 : Nat)
  String.ofList (digits.take 1) ++ (if digits.length = 1 then "" else ".") ++
    String.ofList (digits.drop 1) ++ "e" ++ (if exponent < 0 then "-" else "+") ++
    Numeral.decimal 1 exponent.natAbs

/-- The text of a finite number, or nothing for infinities and NaNs. -/
def toText? (layout : Layout) (x : Binary32) : Option String :=
  if x.isFinite then
    let sign := if x.isNegative then "-" else ""
    if x.pattern = 0 then some (sign ++ "0.0")
    else
      let d := shortest x.pattern
      let leading : Int := d.exponent + ((Numeral.decimal 1 d.digits).length - 1 : Nat)
      some (sign ++
        (if layout.least ≤ leading ∧ leading ≤ layout.greatest then positional d else scientific d))
  else none

end Savegame.Binary32
