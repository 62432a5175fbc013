import Sequitur.Batch

/-!
# Watching a file

A file is watched through the directory it is in: it is checked once at the start, and again each
time it has been written. The states of the files at these times are given as a list.
-/

namespace Sequitur

/-- The directory of a file cannot be watched. -/
structure WatchError where
  path : Text
  fault : FileFault
  deriving DecidableEq, Repr

/-- The wording of the error. -/
def WatchError.message (e : WatchError) : Text :=
  "error adding " ++ e.path ++ " to watcher: " ++ e.fault.message

namespace Watch

/-- The path under which a file is watched, if its directory can be. -/
def start (tree : FileTree) (path : Text) : Except WatchError Text :=
  let path := Path.clean path
  match tree.stat (Path.parent path) with
  | .ok _ => .ok path
  | .error fault => .error ⟨path, fault⟩

/-- The checks of a file at successive states of the files. -/
def checks (path : Text) : List FileTree → Engine → List (Except CheckError Report) × Engine
  | [], e => ([], e)
  | tree :: trees, e =>
    let (outcome, e) := e.checkFile tree path
    let (outcomes, e) := checks path trees e
    (outcome :: outcomes, e)

/-- Watches a file from a first state of the files on, through the later ones. -/
def run (e : Engine) (path : Text) (first : FileTree) (later : List FileTree) :
    Except WatchError (List (Except CheckError Report)) × Engine :=
  match start first path with
  | .error error => (.error error, e)
  | .ok path =>
    let (outcomes, e) := checks path (first :: later) e
    (.ok outcomes, e)

end Watch

end Sequitur
