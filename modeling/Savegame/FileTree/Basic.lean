import Savegame.Bytes.Basic
import Savegame.Dictionary
import Savegame.Error
import Savegame.FileTree.Location

/-!
# File trees

The files and directories below a root, as one value. Locations are followed segment by segment as
a file system does it, so that a file in the way, a missing directory and a trailing slash are told
apart.
-/

namespace Savegame

inductive FileTree.Entry where
  | directory
  | file (content : Bytes)

/-- Every entry by its path; the root is a directory without an entry. -/
structure FileTree where
  entries : Dictionary Path FileTree.Entry := ∅

namespace FileTree

/-- What is found at the end of a location; `asDirectory` where a slash follows the last name, as
it may only for directories. -/
inductive Place where
  | directory (path : Path)
  | file (path : Path) (content : Bytes) (asDirectory : Bool)
  /-- Nothing, in a directory that exists. -/
  | vacant (path : Path) (asDirectory : Bool)

/-- Follows segments from a directory. -/
def follow (t : FileTree) (here : Path) : List String → Except FileFault Place
  | [] => .ok (.directory here)
  | segment :: rest =>
    if segment = "" ∨ segment = "." then t.follow here rest
    else if segment = ".." then t.follow here.dropLast rest
    else
      match t.entries.find? (here ++ [segment]) with
      | some .directory => t.follow (here ++ [segment]) rest
      | some (.file content) =>
        if rest.all (· = "") then .ok (.file (here ++ [segment]) content (rest ≠ []))
        else .error .notDirectory
      | none =>
        if rest.all (· = "") then .ok (.vacant (here ++ [segment]) (rest ≠ []))
        else .error .notFound

def place (t : FileTree) (l : Location) : Except FileFault Place :=
  t.follow [] l.segments

def isDirectory (t : FileTree) (l : Location) : Bool :=
  match t.place l with
  | .ok (.directory _) => true
  | _ => false

def isPresent (t : FileTree) (l : Location) : Bool :=
  match t.place l with
  | .ok (.directory _) | .ok (.file _ _ false) => true
  | _ => false

/-- The names directly below a directory, in order. -/
def children (t : FileTree) (directory : Path) : List String :=
  t.entries.keys.filterMap fun path =>
    if path.dropLast = directory then path.getLast? else none

/-- The files at or below a path, in the order of their paths. -/
def files (t : FileTree) (root : Path) : List (Path × Bytes) :=
  t.entries.entries.filterMap fun entry =>
    match entry with
    | (path, .file content) => if root.isPrefixOf path then some (path, content) else none
    | (_, .directory) => none

def read (t : FileTree) (l : Location) : Except FileFault Bytes := do
  match ← t.place l with
  | .file _ content false => return content
  | .file _ _ true => throw .notDirectory
  | .directory _ => throw .isDirectory
  | .vacant _ _ => throw .notFound

def set (t : FileTree) (path : Path) (entry : Entry) : FileTree :=
  ⟨t.entries.insert path entry⟩

def write (t : FileTree) (l : Location) (content : Bytes) : Except FileFault FileTree := do
  match ← t.place l with
  | .file path _ false | .vacant path false => return t.set path (.file content)
  | .directory _ | .file _ _ true | .vacant _ true => throw .isDirectory

def remove (t : FileTree) (l : Location) : Except FileFault FileTree := do
  match ← t.place l with
  | .file path _ false => return ⟨t.entries.erase path⟩
  | .file _ _ true => throw .notDirectory
  | .directory _ => throw .isDirectory
  | .vacant _ _ => throw .notFound

def makeDirectory (t : FileTree) (l : Location) : Except FileFault FileTree := do
  match ← t.place l with
  | .vacant path _ => return t.set path .directory
  | .directory _ | .file _ _ _ => throw .alreadyExists

/-- Makes a directory with those that are missing above it; one that is there already is well.
Directories made before a failure stay. -/
def makeDirectories (t : FileTree) (l : Location) : (fuel : Nat) → Except FileFault Unit × FileTree
  | 0 => (.ok (), t)
  | fuel + 1 =>
    if l.isEmpty then (.ok (), t)
    else
      match t.makeDirectory l with
      | .ok t => (.ok (), t)
      | .error .notFound =>
        match t.makeDirectories l.parent fuel with
        | (.ok (), t) =>
          match t.makeDirectory l with
          | .ok t => (.ok (), t)
          | .error e => if t.isDirectory l then (.ok (), t) else (.error e, t)
        | failed => failed
      | .error e => if t.isDirectory l then (.ok (), t) else (.error e, t)

def move (t : FileTree) (source target : Location) : Except FileFault FileTree := do
  match ← t.place source with
  | .directory _ => throw .isDirectory
  | .vacant _ _ => throw .notFound
  | .file _ _ true => throw .notDirectory
  | .file path content false =>
    match ← t.place target with
    | .directory _ => throw .isDirectory
    | .file _ _ true | .vacant _ true => throw .notDirectory
    | .file goal _ false | .vacant goal false =>
      return (FileTree.mk (t.entries.erase path)).set goal (.file content)

def copy (t : FileTree) (source target : Location) : Except StreamFault FileTree :=
  match t.place source with
  | .error e => .error (.system e)
  | .ok (.vacant _ _) => .error (.system .notFound)
  | .ok (.directory _) => .error .notFile
  | .ok (.file _ _ true) => .error (.system .notDirectory)
  | .ok (.file _ content false) => (t.write target content).mapError .system

end FileTree

end Savegame
