/-!
# Numerals

Decimal and hexadecimal numerals of a least width, filled with zeros on the left.
-/

namespace Savegame.Numeral

/-- Fills `text` with zeros on the left up to `width` characters. -/
def pad (width : Nat) (text : String) : String :=
  String.ofList (List.replicate (width - text.length) '0') ++ text

/-- The decimal numeral of `n`, at least `width` digits long. -/
def decimal (width n : Nat) : String :=
  pad width (String.ofList (Nat.toDigits 10 n))

/-- The lower-case hexadecimal numeral of `n`, at least `width` digits long. -/
def hex (width n : Nat) : String :=
  pad width (String.ofList (Nat.toDigits 16 n))

/-- The decimal numeral of an integer, with a minus sign where it is negative. -/
def integer (n : Int) : String :=
  if n < 0 then "-" ++ decimal 1 n.natAbs else decimal 1 n.natAbs

def digitValue (c : Char) : Option Nat :=
  if '0' ≤ c ∧ c ≤ '9' then some (c.toNat - '0'.toNat)
  else if 'a' ≤ c ∧ c ≤ 'f' then some (c.toNat - 'a'.toNat + 10)
  else if 'A' ≤ c ∧ c ≤ 'F' then some (c.toNat - 'A'.toNat + 10)
  else none

/-- The number a non-empty run of digits of `base` denotes. -/
def ofDigits? (base : Nat) : List Char → Option Nat
  | [] => none
  | digits => digits.foldlM (fun n c => do
      let d ← digitValue c
      if d < base then some (n * base + d) else none) 0

/-- The integer a decimal numeral with an optional sign denotes. -/
def integer? : List Char → Option Int
  | '+' :: digits => (ofDigits? 10 digits).map Int.ofNat
  | '-' :: digits => (ofDigits? 10 digits).map fun n => -(n : Int)
  | digits => (ofDigits? 10 digits).map Int.ofNat

end Savegame.Numeral
