import Savegame.Toml.Basic
import Savegame.Toml.Text

/-!
# TOML numbers, dates and times

A date is a date of the calendar, an integer fits 64 bits, and a positive float is below the
greatest that a double holds.
-/

namespace Savegame.Toml.Scalar

open Toml.Text (Reader)

def fixedDigits (count : Nat) : Reader Nat := fun cs => do
  let run := cs.take count
  if run.length ≠ count then none
  else return (← Numeral.ofDigits? 10 run, cs.drop count)

def ranged (count least greatest : Nat) : Reader Nat := fun cs => do
  let (n, rest) ← fixedDigits count cs
  if least ≤ n ∧ n ≤ greatest then some (n, rest) else none

def char (c : Char) : Reader Unit
  | d :: rest => if d = c then some ((), rest) else none
  | [] => none

def daysIn (year month : Nat) : Nat :=
  if month = 2 then
    if year % 4 = 0 ∧ (year % 100 ≠ 0 ∨ year % 400 = 0) then 29 else 28
  else if month = 4 ∨ month = 6 ∨ month = 9 ∨ month = 11 then 30
  else 31

def date : Reader Unit := fun cs => do
  let (year, cs) ← fixedDigits 4 cs
  let (_, cs) ← char '-' cs
  let (month, cs) ← ranged 2 1 12 cs
  let (_, cs) ← char '-' cs
  let (_, cs) ← ranged 2 1 (daysIn year month) cs
  return ((), cs)

def fraction : Reader Unit
  | '.' :: rest =>
    let after := rest.dropWhile Char.isDigit
    if after.length = rest.length then none else some ((), after)
  | cs => some ((), cs)

def time : Reader Unit := fun cs => do
  let (_, cs) ← ranged 2 0 23 cs
  let (_, cs) ← char ':' cs
  let (_, cs) ← ranged 2 0 59 cs
  let (_, cs) ← char ':' cs
  let (_, cs) ← ranged 2 0 60 cs
  fraction cs

def offset : Reader Unit
  | c :: rest =>
    if c = 'Z' ∨ c = 'z' then some ((), rest)
    else if c = '+' ∨ c = '-' then do
      let (_, cs) ← ranged 2 0 23 rest
      let (_, cs) ← char ':' cs
      let (_, cs) ← ranged 2 0 59 cs
      return ((), cs)
    else some ((), c :: rest)
  | [] => some ((), [])

/-- Whether a separator of date and time with an hour after it comes next. -/
def startsTime : List Char → Bool
  | c :: rest => (c = 'T' || c = 't' || c = ' ') && (ranged 2 0 23 rest).isSome
  | [] => false

/-- A date, a time, or both, with an offset only where there are both. -/
def moment : Reader Unit := fun cs =>
  match date cs with
  | some (_, rest) =>
    if startsTime rest then do
      let (_, rest) ← time (rest.drop 1)
      offset rest
    else some ((), rest)
  | none => time cs

/-- Digits of a base with single underscores between them; the digits alone are given. -/
def digits (base : Nat) : Reader (List Char) := fun cs =>
  let isDigit c := match Numeral.digitValue c with
    | some d => decide (d < base)
    | none => false
  let run := cs.takeWhile fun c => isDigit c || c = '_'
  let wellPlaced := (run.zip (run.drop 1 ++ ['_'])).all fun p => p.1 ≠ '_' ∨ isDigit p.2
  if run.head?.any isDigit ∧ wellPlaced then some (run.filter isDigit, cs.drop run.length) else none

def sign : List Char → Bool × List Char
  | '-' :: rest => (true, rest)
  | '+' :: rest => (false, rest)
  | cs => (false, cs)

/-- The digits before a point: none after a zero in front. -/
def whole : Reader (List Char)
  | '0' :: rest => some (['0'], rest)
  | cs => digits 10 cs

/-- The first magnitude that rounds to no finite double, half way between the last and `2 ^ 1024`. -/
def overflowLimit : Nat :=
  (1 <<< 1024) - (1 <<< 970)

/-- Whether digits, scaled by a power of ten, denote a number that rounds to no finite double. Only
the digits before the point matter, since the limit is an integer. -/
def overflows (digits : List Char) (exponent : Int) : Bool :=
  let digits := digits.dropWhile (· = '0')
  let places : Int := digits.length + exponent
  if digits = [] ∨ places ≤ 0 then false
  else if 320 < places then true
  else
    let whole := (Numeral.ofDigits? 10 (digits.take places.toNat)).getD 0
    overflowLimit ≤ whole * Nat.pow 10 (places.toNat - digits.length)

/-- The number that the digits of an exponent denote. Digits past the one that brings it to 65536 or
above are dropped. -/
def exponentOf (digits : List Char) : Nat :=
  digits.foldl (fun n c =>
    if n < 65536 then n * 10 + (Numeral.digitValue c).getD 0 else n) 0

def power : Reader (Option Int)
  | c :: rest =>
    if c = 'e' ∨ c = 'E' then do
      let (negative, rest) := sign rest
      let (run, rest) ← digits 10 rest
      let n := exponentOf run
      return (some (if negative then -(n : Int) else n), rest)
    else some (none, c :: rest)
  | [] => some (none, [])

def places : Reader (Option (List Char))
  | '.' :: rest => (digits 10 rest).map fun r => (some r.1, r.2)
  | cs => some (none, cs)

/-- An integer in decimal, or a float that is a number. -/
def decimal : Reader Item := fun cs => do
  let (negative, rest) := sign cs
  let (run, rest) ← whole rest
  let (fractional, rest) ← places rest
  let (exponent, rest) ← power rest
  if fractional.isNone ∧ exponent.isNone then
    let n ← Numeral.ofDigits? 10 run
    let n : Int := if negative then -n else n
    if Int64.minValue.toInt ≤ n ∧ n ≤ Int64.maxValue.toInt then some (.integer n, rest) else none
  else
    let fractional := fractional.getD []
    if ¬negative ∧ overflows (run ++ fractional) (exponent.getD 0 - fractional.length) then none
    else some (.float (String.ofList (cs.take (cs.length - rest.length))), rest)

/-- An integer in another base, after its mark. -/
def based (base : Nat) : Reader Item := fun cs => do
  let (run, rest) ← digits base cs
  let n ← Numeral.ofDigits? base run
  if n ≤ Int64.maxValue.toInt then some (.integer n, rest) else none

def special : Reader Item := fun cs =>
  let (_, rest) := sign cs
  match rest with
  | 'i' :: 'n' :: 'f' :: after | 'n' :: 'a' :: 'n' :: after =>
    some (.float (String.ofList (cs.take (cs.length - after.length))), after)
  | _ => none

def number : Reader Item
  | '0' :: 'x' :: rest => based 16 rest
  | '0' :: 'o' :: rest => based 8 rest
  | '0' :: 'b' :: rest => based 2 rest
  | cs => (special cs).orElse fun _ => decimal cs

def numeric : Reader Item := fun cs =>
  match moment cs with
  | some (_, rest) => some (.moment (String.ofList (cs.take (cs.length - rest.length))), rest)
  | none => number cs

def boolean : Reader Item
  | 't' :: 'r' :: 'u' :: 'e' :: rest => some (.boolean true, rest)
  | 'f' :: 'a' :: 'l' :: 's' :: 'e' :: rest => some (.boolean false, rest)
  | _ => none

end Savegame.Toml.Scalar
