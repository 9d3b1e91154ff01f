import Savegame.Event
import Savegame.FileTree.Basic

/-!
# Calls

The changes that saving makes to a file tree, one call at a time. An interrupted save is a prefix
of its calls.
-/

namespace Savegame

inductive Call where
  | makeDirectories (l : Location)
  /-- Copies a file that is there. -/
  | backUp (source target : Location)
  | write (l : Location) (content : Bytes)
  /-- Removes what is there. -/
  | clear (l : Location)
  | move (source target : Location)

namespace Call

/-- What a call that either is done or fails leaves behind. -/
def settle (t : FileTree) (result : Except StreamFault FileTree) : Outcome FileTree Unit :=
  match result with
  | .ok t => ⟨.ok (), t, []⟩
  | .error e => ⟨.error (.stream e), t, []⟩

def run (t : FileTree) : Call → Outcome FileTree Unit
  | makeDirectories l =>
    let (result, t) := t.makeDirectories l (l.segments.length + 1)
    ⟨result.mapError fun e => .stream (.system e), t, []⟩
  | backUp source target =>
    if t.isPresent source then settle t (t.copy source target) else ⟨.ok (), t, []⟩
  | write l content => settle t ((t.write l content).mapError .system)
  | clear l =>
    if t.isPresent l then settle t ((t.remove l).mapError .system) else ⟨.ok (), t, []⟩
  | move source target => settle t ((t.move source target).mapError .system)

/-- Runs calls in order, up to the first that fails. -/
def runAll (t : FileTree) : List Call → Outcome FileTree Unit
  | [] => ⟨.ok (), t, []⟩
  | call :: rest => (call.run t).andThen fun _ t => runAll t rest

/-- The calls that replace a file as a whole: the new content is first written beside it. With
`keep`, the old content stays as a backup. -/
def replace (l : Location) (content : Bytes) (keep : Bool) : List Call :=
  let beside := l.withExtension "tmp"
  [makeDirectories l.parent] ++ (if keep then [backUp l (l.withSuffix ".bak")] else []) ++
    [write beside content, clear l, move beside l]

end Call

end Savegame
