import Savegame.Toml.Scalar

/-!
# Reading TOML

A document is read line by line: an entry of the open table, a header that opens one, or nothing.
-/

namespace Savegame.Toml

open Toml.Text (Reader skipBlanks newline?)

namespace Reader

/-- Keys and values may lie less than this deep. -/
def depthLimit : Nat := 80

def isKeyChar (c : Char) : Bool :=
  c.isAlphanum || c = '-' || c = '_'

def simpleKey : Reader String := fun cs =>
  match cs with
  | '"' :: _ | '\'' :: _ => Text.line? cs
  | _ =>
    let run := cs.takeWhile isKeyChar
    if run = [] then none else some (String.ofList run, cs.drop run.length)

/-- The parts of a key between dots, with blanks around each of them. -/
def keyParts : (fuel : Nat) → Reader (List String)
  | 0, _ => none
  | fuel + 1, cs => do
    let (part, rest) ← simpleKey (skipBlanks cs)
    match skipBlanks rest with
    | '.' :: rest => (keyParts fuel rest).map fun r => (part :: r.1, r.2)
    | rest => return ([part], rest)

def key : Reader (List String) := fun cs => do
  let (parts, rest) ← keyParts (cs.length + 1) cs
  if parts.length < depthLimit then some (parts, rest) else none

def skipComment : List Char → List Char
  | '#' :: rest => rest.dropWhile Text.isPlain
  | cs => cs

def skipLines : (fuel : Nat) → List Char → Option (List Char)
  | 0, _ => none
  | fuel + 1, cs =>
    let cs := skipBlanks cs
    match newline? (skipComment cs) with
    | some rest => skipLines fuel rest
    | none => if cs.head? = some '#' then none else some cs

/-- The items of an array after its bracket; `fuel` is above the number of characters. -/
def items (element : Reader Item) : (fuel : Nat) → Reader (List Item)
  | 0, _ => none
  | fuel + 1, cs => do
    match ← skipLines (fuel + 1) cs with
    | ']' :: rest => return ([], rest)
    | cs =>
      let (item, rest) ← element cs
      match ← skipLines (fuel + 1) rest with
      | ',' :: rest => (items element fuel rest).map fun r => (item :: r.1, r.2)
      | ']' :: rest => return ([item], rest)
      | _ => none

/-- A key, a sign of equality and a value. -/
def pair (element : Reader Item) : Reader (List String × Item) := fun cs => do
  let (path, rest) ← key cs
  let (_, rest) ← Scalar.char '=' rest
  let (item, rest) ← element (skipBlanks rest)
  return ((path, item), rest)

def pairs (element : Reader Item) : (fuel : Nat) → Reader (List (List String × Item))
  | 0, _ => none
  | fuel + 1, cs => do
    let (first, rest) ← pair element cs
    match skipBlanks rest with
    | ',' :: rest => (pairs element fuel rest).map fun r => (first :: r.1, r.2)
    | c :: rest => if c = '\x7d' then return ([first], rest) else none
    | [] => none

def braces (element : Reader Item) : Reader Item := fun cs =>
  match skipBlanks cs with
  | [] => none
  | c :: rest =>
    if c = '\x7d' then some (.table .braces [], rest)
    else do
      let (all, rest) ← pairs element (cs.length + 1) cs
      return (.table .braces (← Entries.ofPairs? all), rest)

/-- A value; arrays and tables in braces go one level down. -/
def value : (depth : Nat) → Reader Item
  | _, [] => none
  | depth, c :: rest =>
    if c = '"' ∨ c = '\'' then (Text.read? (c :: rest)).map fun r => (.text r.1, r.2)
    else if c = '[' then
      match depth with
      | 0 => none
      | depth + 1 => (items (value depth) (rest.length + 1) rest).map fun r => (.array r.1, r.2)
    else if c = '\x7b' then
      match depth with
      | 0 => none
      | depth + 1 => braces (value depth) rest
    else if c = 't' ∨ c = 'f' then Scalar.boolean (c :: rest)
    else Scalar.numeric (c :: rest)

/-- The characters after the end of a line with nothing else on it but a comment. -/
def lineEnd (cs : List Char) : Option (List Char) :=
  match skipComment (skipBlanks cs) with
  | [] => some []
  | cs => newline? cs

/-- The header of a table: whether it is one of a list, and its path. -/
def header : Reader (Bool × List String)
  | '[' :: '[' :: rest => do
    let (path, rest) ← key rest
    match rest with
    | ']' :: ']' :: rest => return ((true, path), rest)
    | _ => none
  | '[' :: rest => do
    let (path, rest) ← key rest
    match rest with
    | ']' :: rest => return ((false, path), rest)
    | _ => none
  | _ => none

/-- Reads lines into the document; `current` is the path of the open table. -/
def document : (fuel : Nat) → (current : List String) → Entries → List Char → Option Entries
  | 0, _, _, _ => none
  | fuel + 1, current, entries, cs =>
    match skipBlanks cs with
    | [] => some entries
    | c :: rest =>
      if c = '#' ∨ c = '\n' ∨ c = '\r' then do
        document fuel current entries (← lineEnd (c :: rest))
      else if c = '[' then do
        let ((several, path), rest) ← header (c :: rest)
        let entries ← if several then entries.appendTable path else entries.openTable path
        document fuel path entries (← lineEnd rest)
      else do
        let ((path, item), rest) ← pair (value (depthLimit - 1)) (c :: rest)
        let key ← path.getLast?
        let entries ← entries.defineIn current path.dropLast key item
        document fuel current entries (← lineEnd rest)

end Reader

/-- The entries of the document that a text is, if it is one. A byte order mark in front is no
part of it. -/
def ofText? (text : String) : Option Entries :=
  let cs := match text.toList with
    | '\uFEFF' :: rest => rest
    | cs => cs
  Reader.document (cs.length + 1) [] [] cs

end Savegame.Toml
