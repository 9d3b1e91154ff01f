import Savegame.CommandLine.Arguments
import Savegame.CommandLine.Summary
import Savegame.Game.Saving
import Savegame.Settings.File

/-!
# Commands

What each command makes of a file tree: the output, the files it leaves, and what went wrong.
-/

namespace Savegame.CommandLine

/-- What keeps a command from ending well. -/
inductive Problem where
  | refused (refusal : Refusal)
  | configuration (path : String) (cause : SaveError)
  | newerVersion (version : UInt32)
  | reading (path : String) (cause : FileFault)
  | decoding (path : String) (cause : SaveError)
  | encoding (version : UInt32) (cause : SaveError)
  | making (cause : FileFault)
  | writing (path : String) (cause : FileFault)
  | walking (root : String) (cause : FileFault)
  deriving DecidableEq, Repr

namespace Problem

def exitCode : Problem → UInt32
  | refused .help => 0
  | refused .usage => 2
  | _ => 1

/-- The first line of the report. There is none for a refusal, and none of the library's own where
the host words it. -/
def headline? : Problem → Option String
  | refused _ | making _ => none
  | configuration path _ => some ("load config " ++ path)
  | newerVersion version =>
    some ("version " ++ Numeral.decimal 1 version.toNat ++ " is newer than the supported " ++
      Numeral.decimal 1 Record.newest.toNat)
  | reading path _ => some ("read " ++ path)
  | decoding path _ => some ("decode " ++ path)
  | encoding version _ => some ("encode at version " ++ Numeral.decimal 1 version.toNat)
  | writing path _ => some ("write " ++ path)
  | walking root _ => some ("walk " ++ root)

/-- The causes below the first line, outermost first, where none of them is worded by the host. -/
def causes? : Problem → Option (List String)
  | configuration _ cause | decoding _ cause | encoding _ cause =>
    if cause.isHostWorded then none else some cause.chain
  | _ => none

end Problem

/-- What a command leaves behind. -/
structure Report where
  output : Bytes := []
  files : FileTree
  problem? : Option Problem := none

namespace Report

def exitCode (r : Report) : UInt32 :=
  match r.problem? with
  | some problem => problem.exitCode
  | none => 0

end Report

def saveExtension : String := "m3s"

/-- The location of a path, which starts from the working directory unless it is absolute. -/
def locate (here : Path) (path : String) : Location :=
  (Location.mk here).join path

def loadGame (t : FileTree) (here : Path) (settings : Settings) (path : String) :
    Except Problem Game := do
  let bytes ← (t.read (locate here path)).mapError (Problem.reading path)
  let loaded := (Game.start settings).load bytes
  match loaded.answer with
  | .ok () => return loaded.state
  | .error e => throw (.decoding path e)

def line (value : Json) : Bytes :=
  value.toBytes ++ [0x0A]

def inspect (t : FileTree) (here : Path) (settings : Settings) (save : String) : Report :=
  match loadGame t here settings save with
  | .ok g => { files := t, output := line (Summary.ofRecord g.record) }
  | .error problem => { files := t, problem? := some problem }

def convertedBytes (t : FileTree) (here : Path) (settings : Settings) (save : String)
    (version : UInt32) : Except Problem Bytes := do
  if Record.newest < version then throw (.newerVersion version)
  let g ← loadGame t here settings save
  let written := g.write version none
  match written.outcome.answer with
  | .ok _ => return written.sink
  | .error e => throw (.encoding version e)

def convert (t : FileTree) (here : Path) (settings : Settings) (save output : String)
    (version : UInt32) : Report :=
  match convertedBytes t here settings save version with
  | .error problem => { files := t, problem? := some problem }
  | .ok bytes =>
    let target := locate here output
    match t.makeDirectories target.parent (target.segments.length + 1) with
    | (.error e, t) => { files := t, problem? := some (.making e) }
    | (.ok (), t) =>
      match t.write target bytes with
      | .ok t => { files := t }
      | .error e => { files := t, problem? := some (.writing output e) }

/-- The path of something below a directory, as it is shown. -/
def shown (root : String) (below : Path) : String :=
  (if root.endsWith "/" then root else root ++ "/") ++ "/".intercalate below

/-- The line for a save in a listing. There is none for other files and for what cannot be read. -/
def listLine (path : String) (content : Bytes) : Bytes :=
  if ((Location.ofText path).fileName?.bind Location.extension?) ≠ some saveExtension then []
  else
    match Record.decode 256 content with
    | .ok decoded =>
      Utf8.encode (path ++ "\tv" ++ Numeral.decimal 1 decoded.record.version.toNat ++ "\t" ++
        decoded.record.description ++ "\n")
    | .error _ => []

def list (t : FileTree) (here : Path) (root : String) : Report :=
  match t.place (locate here root) with
  | .error e => { files := t, problem? := some (.walking root e) }
  | .ok (.vacant _ _) => { files := t, problem? := some (.walking root .notFound) }
  | .ok (.file _ _ true) => { files := t, problem? := some (.walking root .notDirectory) }
  | .ok (.file _ content false) => { files := t, output := listLine root content }
  | .ok (.directory path) =>
    { files := t
      output := (t.files path).flatMap fun file =>
        listLine (shown root (file.1.drop path.length)) file.2 }

def eval (t : FileTree) (here : Path) (settings : Settings) (save : String) (condition : Int16) :
    Report :=
  match loadGame t here settings save with
  | .ok g => { files := t, output := line (Summary.ofCondition g condition) }
  | .error problem => { files := t, problem? := some problem }

def settingsOf (t : FileTree) (here : Path) : Option String → Except Problem Settings
  | none => .ok {}
  | some path => (Settings.load t (locate here path)).mapError (Problem.configuration path)

/-- Carries out what the arguments ask for, in a working directory. -/
def run (t : FileTree) (here : Path) (arguments : List String) : Report :=
  match Invocation.ofArguments arguments with
  | .error refusal => { files := t, problem? := some (.refused refusal) }
  | .ok invocation =>
    match settingsOf t here invocation.config? with
    | .error problem => { files := t, problem? := some problem }
    | .ok settings =>
      match invocation.command with
      | .inspect save => inspect t here settings save
      | .convert save output version => convert t here settings save output version
      | .list root => list t here root
      | .eval save condition => eval t here settings save condition

end Savegame.CommandLine
