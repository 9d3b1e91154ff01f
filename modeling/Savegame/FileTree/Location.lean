/-!
# Locations

A location is a path as it was written: the segments between the slashes, empty ones and dots
included, since they decide whether a name may be that of a file.
-/

namespace Savegame

/-- The names from the root down to a file or directory. -/
abbrev Path := List String

structure Location where
  segments : List String
  deriving DecidableEq, Repr

namespace Location

/-- The pieces of a text between the slashes; there is always at least one. -/
def split : List Char → List (List Char)
  | [] => [[]]
  | c :: rest =>
    if c = '/' then [] :: split rest
    else
      match split rest with
      | [] => [[c]]
      | piece :: pieces => (c :: piece) :: pieces

def ofText (text : String) : Location :=
  ⟨(split text.toList).map String.ofList⟩

def toText (l : Location) : String :=
  "/".intercalate l.segments

/-- The location that a name has below another; an absolute name stands for itself. -/
def join (l : Location) (name : String) : Location :=
  if name.startsWith "/" then ofText name else ⟨l.segments ++ (ofText name).segments⟩

/-- The segments that name something, or go up. -/
def names (l : Location) : List String :=
  l.segments.filter fun s => s ≠ "" ∧ s ≠ "."

def parent (l : Location) : Location :=
  ⟨l.names.dropLast⟩

def isEmpty (l : Location) : Bool :=
  l.segments.all (· = "")

/-- The last name, unless the location ends by going up. -/
def fileName? (l : Location) : Option String :=
  match l.names.getLast? with
  | some name => if name = ".." then none else some name
  | none => none

/-- A name without and with what follows its last dot. A dot in front starts no extension. -/
def splitExtension (name : String) : String × Option String :=
  let reversed := name.toList.reverse
  let tail := reversed.takeWhile (· ≠ '.')
  match reversed.dropWhile (· ≠ '.') with
  | [] => (name, none)
  | [_] => (name, none)
  | _ :: stem => (String.ofList stem.reverse, some (String.ofList tail.reverse))

def extension? (name : String) : Option String :=
  (splitExtension name).2

/-- The location with another extension in its last name. The old one is cut off at the end first,
up to its dot; where two dots are left, as of `..x`, the location goes up and takes no extension. -/
def withExtension (l : Location) (extension : String) : Location :=
  match l.fileName? with
  | none => l
  | some name =>
    let stem := (splitExtension name).1
    if stem = "." ∧ l.segments.getLast? = some name then ⟨l.segments.dropLast ++ [".."]⟩
    else
      let trimmed := (l.segments.reverse.dropWhile fun s => s = "" ∨ s = ".").reverse
      ⟨trimmed.dropLast ++ [stem ++ "." ++ extension]⟩

def withSuffix (l : Location) (suffix : String) : Location :=
  ⟨l.segments.dropLast ++ [l.segments.getLastD "" ++ suffix]⟩

end Location

end Savegame
