import Savegame.Text.Numeral

/-!
# TOML strings

The four kinds of strings: basic ones with escapes and literal ones without, each on one line or
on several. A string over several lines drops a line feed right after its opening quotes and ends
at the last three of up to five quotes. Readers take the characters after the opening quotes.
-/

namespace Savegame.Toml.Text

/-- A reader of the characters in front. -/
abbrev Reader (α : Type) := List Char → Option (α × List Char)

def isBlank (c : Char) : Bool :=
  c = ' ' || c = '\t'

def skipBlanks (cs : List Char) : List Char :=
  cs.dropWhile isBlank

def newline? : List Char → Option (List Char)
  | '\n' :: rest => some rest
  | '\r' :: '\n' :: rest => some rest
  | _ => none

/-- A character that may stand in strings and comments: a tab, or anything but a control
character. -/
def isPlain (c : Char) : Bool :=
  c = '\t' || (' ' ≤ c && c ≠ '\x7f')

def skipSpace (fuel : Nat) (cs : List Char) : List Char :=
  match fuel with
  | 0 => cs
  | fuel + 1 =>
    match newline? (skipBlanks cs) with
    | some rest => skipSpace fuel rest
    | none => skipBlanks cs

def letterEscapes : List (Char × Char) :=
  [('b', '\x08'), ('t', '\t'), ('n', '\n'), ('f', '\x0c'), ('r', '\r'), ('"', '"'), ('\\', '\\')]

/-- The character with the number that so many hexadecimal digits denote. -/
def scalar? (digits : Nat) (cs : List Char) : Option (Char × List Char) := do
  let run := cs.take digits
  if run.length ≠ digits then none
  else
    let n ← Numeral.ofDigits? 16 run
    if n < 0xD800 ∨ (0xDFFF < n ∧ n < 0x110000) then some (Char.ofNat n, cs.drop digits) else none

/-- The character that the escape after a backslash denotes. -/
def escaped? : Reader Char
  | [] => none
  | letter :: rest =>
    if letter = 'u' then scalar? 4 rest
    else if letter = 'U' then scalar? 8 rest
    else (letterEscapes.lookup letter).map fun c => (c, rest)

def basic (fuel : Nat) (done : List Char) (cs : List Char) : Option (String × List Char) :=
  match fuel, cs with
  | 0, _ | _, [] => none
  | fuel + 1, c :: rest =>
    if c = '"' then some (String.ofList done.reverse, rest)
    else if c = '\\' then
      match escaped? rest with
      | some (c, rest) => basic fuel (c :: done) rest
      | none => none
    else if isPlain c then basic fuel (c :: done) rest
    else none

def literal : Reader String := fun cs =>
  let inner := cs.takeWhile fun c => c ≠ '\'' ∧ isPlain c
  match cs.drop inner.length with
  | '\'' :: rest => some (String.ofList inner, rest)
  | _ => none

/-- What a run of quotes in a string over several lines is: part of the text while there are less
than three, and the end with up to two that belong to the text otherwise. -/
def quotes? (quote : Char) (cs : List Char) : Nat × Option (List Char) :=
  let run := (cs.takeWhile (· = quote)).length
  if run < 3 then (run, none) else (min run 5 - 3, some (cs.drop (min run 5)))

/-- Reads a string over several lines; `escapes` tells whether a backslash is special. -/
def lines (quote : Char) (escapes : Bool) (fuel : Nat) (done : List Char) (cs : List Char) :
    Option (String × List Char) :=
  match fuel, cs with
  | 0, _ | _, [] => none
  | fuel + 1, c :: rest =>
    if c = quote then
      match quotes? quote (c :: rest) with
      | (count, some rest) =>
        some (String.ofList (List.replicate count quote ++ done).reverse, rest)
      | (count, none) =>
        lines quote escapes fuel (List.replicate count quote ++ done) ((c :: rest).drop count)
    else if escapes ∧ c = '\\' then
      match newline? (skipBlanks rest) with
      | some rest => lines quote escapes fuel done (skipSpace rest.length rest)
      | none =>
        match escaped? rest with
        | some (c, rest) => lines quote escapes fuel (c :: done) rest
        | none => none
    else
      match newline? (c :: rest) with
      | some rest => lines quote escapes fuel ('\n' :: done) rest
      | none => if isPlain c then lines quote escapes fuel (c :: done) rest else none

def line? : Reader String
  | '"' :: rest => basic (rest.length + 1) [] rest
  | '\'' :: rest => literal rest
  | _ => none

def read? : Reader String
  | '"' :: '"' :: '"' :: rest =>
    lines '"' true (rest.length + 1) [] ((newline? rest).getD rest)
  | '\'' :: '\'' :: '\'' :: rest =>
    lines '\'' false (rest.length + 1) [] ((newline? rest).getD rest)
  | cs => line? cs

end Savegame.Toml.Text
