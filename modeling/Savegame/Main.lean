import Savegame.CommandLine.Run

/-!
# The command line

Takes in the files that the arguments name, carries out the command on them, and puts back what
has changed.
-/

namespace Savegame.Main

open CommandLine

/-- The path from the root that a location stands for. -/
def absolute (l : Location) : Path :=
  l.segments.foldl (fun path segment =>
    if segment = "" ∨ segment = "." then path
    else if segment = ".." then path.dropLast
    else path ++ [segment]) []

def hostName (path : Path) : String :=
  "/" ++ "/".intercalate path

def takeIn (t : FileTree) (path : Path) : IO FileTree := do
  let place := (← IO.currentDir) / hostName path
  if ← place.isDir then return t.set path .directory
  else if ← place.pathExists then
    return t.set path (.file (← IO.FS.readBinFile place).toList)
  else return t

def takeInAll (t : FileTree) (path : Path) : IO FileTree :=
  (List.range path.length).foldlM (fun t n => takeIn t (path.take (n + 1))) t

partial def takeInBelow (t : FileTree) (path : Path) : IO FileTree := do
  let place := (← IO.currentDir) / hostName path
  if ← place.isDir then
    (← place.readDir).foldlM (fun t entry => do
      let below := path ++ [entry.fileName]
      takeInBelow (← takeIn t below) below) t
  else return t

def putBack (before after : FileTree) : IO Unit :=
  after.entries.entries.forM fun (path, entry) => do
    match entry, before.entries.find? path with
    | .directory, none => IO.FS.createDirAll (hostName path)
    | .file content, old =>
      let same := match old with
        | some (.file known) => known == content
        | _ => false
      unless same do IO.FS.writeBinFile (hostName path) ⟨content.toArray⟩
    | _, _ => return

/-- The paths that a command may touch. -/
def pathsOf : Command → List String
  | .inspect save | .eval save _ => [save]
  | .convert save output _ => [save, output]
  | .list root => [root]

def filesFor (here : Path) (arguments : List String) : IO FileTree := do
  match Invocation.ofArguments arguments with
  | .error _ => return {}
  | .ok invocation =>
    let names := pathsOf invocation.command ++ invocation.config?.toList
    let paths := (names.map fun name => absolute (locate here name))
    let t ← paths.foldlM takeInAll {}
    match invocation.command with
    | .list root => takeInBelow t (absolute (locate here root))
    | _ => return t

def report (problem : Problem) : IO Unit := do
  match problem.headline? with
  | some text => IO.eprintln ("Error: " ++ text)
  | none => IO.eprintln "Error"
  (problem.causes?.getD []).forM fun cause => IO.eprintln ("  caused by: " ++ cause)

end Savegame.Main

open Savegame Savegame.Main Savegame.CommandLine in
def main (arguments : List String) : IO UInt32 := do
  let here := absolute (Location.ofText (← IO.currentDir).toString)
  let before ← filesFor here arguments
  let r := run before here arguments
  (← IO.getStdout).write ⟨r.output.toArray⟩
  r.problem?.forM report
  putBack before r.files
  return r.exitCode
