import Savegame.Json.Basic
import Savegame.Text.Numeral

/-!
# Printing JSON

Every member and item stands on a line of its own, two blanks further in than what holds it; empty
objects and arrays stay closed. Only quotes, backslashes and control characters are escaped.
-/

namespace Savegame.Json

/-- The short escapes: a byte and the letter after the backslash. -/
def shortEscapes : List (UInt8 × UInt8) :=
  [(0x22, 0x22), (0x5C, 0x5C), (0x08, 0x62), (0x0C, 0x66), (0x0A, 0x6E), (0x0D, 0x72), (0x09, 0x74)]

def escape (b : UInt8) : Bytes :=
  match shortEscapes.lookup b with
  | some letter => [0x5C, letter]
  | none => if b < 0x20 then Utf8.encode ("\\u" ++ Numeral.hex 4 b.toNat) else [b]

def quote (contents : Bytes) : Bytes :=
  0x22 :: contents.flatMap escape ++ [0x22]

/-- A line feed and the blanks in front of what stands at a depth. -/
def newLine (depth : Nat) : Bytes :=
  0x0A :: List.replicate (2 * depth) 0x20

/-- Opening and closing brackets around something on lines of its own. -/
def enclosed (depth : Nat) (opening closing : UInt8) (inner : Bytes) : Bytes :=
  opening :: newLine (depth + 1) ++ inner ++ newLine depth ++ [closing]

mutual

def print (depth : Nat) : Json → Bytes
  | null => Utf8.encode "null"
  | bool true => Utf8.encode "true"
  | bool false => Utf8.encode "false"
  | integer n => Utf8.encode (Numeral.integer n)
  | decimal text => Utf8.encode text
  | string contents => quote contents
  | array [] => Utf8.encode "[]"
  | array (item :: items) =>
    enclosed depth 0x5B 0x5D (print (depth + 1) item ++ printItems (depth + 1) items)
  | object [] => [0x7B, 0x7D]
  | object ((name, value) :: members) =>
    enclosed depth 0x7B 0x7D
      (quote name ++ [0x3A, 0x20] ++ print (depth + 1) value ++ printMembers (depth + 1) members)

def printItems (depth : Nat) : List Json → Bytes
  | [] => []
  | item :: items => 0x2C :: newLine depth ++ print depth item ++ printItems depth items

def printMembers (depth : Nat) : List (Bytes × Json) → Bytes
  | [] => []
  | (name, value) :: members =>
    0x2C :: newLine depth ++ quote name ++ [0x3A, 0x20] ++ print depth value ++
      printMembers depth members

end

/-- The text of a value, without a line feed at the end. -/
def toBytes (value : Json) : Bytes :=
  print 0 value

end Savegame.Json
