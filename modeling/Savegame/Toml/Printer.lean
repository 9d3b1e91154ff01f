import Savegame.Text.Numeral

/-!
# Printing TOML strings

A string is written in the plainest of four styles that holds it without escapes; tabs are always
escaped between double quotes. Where no style does, the basic ones write escapes.
-/

namespace Savegame.Toml.Printer

inductive Style where
  | basic
  | literal
  | basicLines
  | literalLines
  deriving DecidableEq, Repr

/-- A control character that only an escape can stand for. -/
def isControl (c : Char) : Bool :=
  c ≠ '\t' && c ≠ '\n' && (c < ' ' || c = '\x7f')

def longestRun (c : Char) (cs : List Char) : Nat :=
  (cs.foldl (fun (longest, current) d =>
    if d = c then (max longest (current + 1), current + 1) else (longest, 0)) (0, 0)).1

/-- Whether a style holds a text without escapes other than those of tabs. -/
def fits (cs : List Char) : Style → Bool
  | .basic => !cs.any isControl && !cs.contains '\\' && !cs.contains '"' && !cs.contains '\n'
  | .literal => !cs.any isControl && !cs.contains '\'' && !cs.contains '\n'
  | .basicLines => !cs.any isControl && !cs.contains '\\' && longestRun '"' cs < 3
  | .literalLines => !cs.any isControl && longestRun '\'' cs < 3

def style (cs : List Char) : Style :=
  match [Style.basic, .literal, .basicLines, .literalLines].find? (fits cs) with
  | some style => style
  | none => if cs.contains '\n' then .basicLines else .basic

def letterOf : List (Char × Char) :=
  [('\x08', 'b'), ('\t', 't'), ('\n', 'n'), ('\x0c', 'f'), ('\r', 'r'), ('"', '"'), ('\\', '\\')]

def escape (c : Char) : List Char :=
  match letterOf.lookup c with
  | some letter => ['\\', letter]
  | none => "\\u".toList ++ (Numeral.hex 4 c.toNat).toList.map Char.toUpper

/-- Escapes what has to be, with `run` double quotes just before and up to `quotes` of them in a row
left as they are. -/
def escapeAll (several : Bool) (quotes run : Nat) : List Char → List Char
  | [] => []
  | c :: rest =>
    if c = '"' then
      if run < quotes then c :: escapeAll several quotes (run + 1) rest
      else escape c ++ escapeAll several quotes 0 rest
    else if c = '\n' ∧ several then c :: escapeAll several quotes 0 rest
    else if c < ' ' ∨ c = '\x7f' ∨ c = '\\' then escape c ++ escapeAll several quotes 0 rest
    else c :: escapeAll several quotes 0 rest

/-- A text as a string. Over several lines it starts on a line of its own. -/
def string (text : String) : String :=
  let cs := text.toList
  let lead := if cs.contains '\n' then "\n" else ""
  match style cs with
  | .basic => "\"" ++ String.ofList (escapeAll false 0 0 cs) ++ "\""
  | .literal => "'" ++ text ++ "'"
  | .basicLines => "\"\"\"" ++ lead ++ String.ofList (escapeAll true 2 0 cs) ++ "\"\"\""
  | .literalLines => "'''" ++ lead ++ text ++ "'''"

end Savegame.Toml.Printer
