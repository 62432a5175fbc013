import Sequitur.Engine
import Sequitur.Files.Tree

/-!
# Checking many files

A path given for checking is a proof file, or a directory whose proof files are checked wherever in
it they are. The files of a directory are checked independently of each other, and their reports
arrive in any order; an `Arrival` is such an order. At the end all reports are sorted by file, and
those on the same file keep the order of the paths they came from.

A file that is given and cannot be checked ends everything. One that is found in a directory and
cannot be checked gets a report that says why.
-/

namespace Sequitur

/-- Why a path could not be checked. -/
inductive CheckError where
  | unreadable (error : PathError)
  | inaccessible (error : PathError)
  | source (error : SourceError)
  | deadline
  deriving DecidableEq, Repr

/-- The wording of the error. -/
def CheckError.message : CheckError → Text
  | .unreadable e => e.message
  | .inaccessible e => "error accessing " ++ e.path ++ ": " ++ e.message
  | .source e => e.message
  | .deadline => "context deadline exceeded"

/-- An order in which reports arrive: none is lost and none comes twice. -/
structure Arrival where
  arrange : List Report → List Report
  perm (rs : List Report) : (arrange rs).Perm rs

/-- Reports arrive in the order of their files. -/
def Arrival.inTurn : Arrival := ⟨id, fun _ => .refl _⟩

/-- Checks the file at a path, and changes a state. -/
abbrev Processor (σ : Type) := Text → σ → Except CheckError Report × σ

namespace Batch

/-- Whether a file found in a directory is a proof file. -/
def isProofFile (path : Text) : Bool :=
  let e := Path.extension path
  e == ".proof" || e == ".in"

/-- The report on a file of a directory. -/
def report (file : Text) : Except CheckError Report → Report
  | .ok r => r
  | .error e => Report.failure file e.message

/-- The reports on the files of a directory, one for each. -/
def visit {σ : Type} (process : Processor σ) : List Text → σ → List Report × σ
  | [], s => ([], s)
  | file :: files, s =>
    let (outcome, s) := process file s
    let (reports, s) := visit process files s
    (report file outcome :: reports, s)

/-- The reports on a path. When the time is up no directory is checked. -/
def path {σ : Type} (tree : FileTree) (expired : Bool) (process : Processor σ) (arrival : Arrival)
    (path : Text) (s : σ) : Except CheckError (List Report) × σ :=
  match tree.stat path with
  | .error fault => (.error (.inaccessible ⟨"stat", path, fault⟩), s)
  | .ok (.file _) =>
    let (outcome, s) := process path s
    (outcome.map fun r => [r], s)
  | .ok .directory =>
    if expired then (.error .deadline, s)
    else
      let (reports, s) := visit process ((tree.walk path).filter isProofFile) s
      (.ok (arrival.arrange reports), s)

/-- The reports on several paths, path after path; the first that fails ends it. The arrival of
reports may differ from path to path. -/
def paths {σ : Type} (tree : FileTree) (expired : Bool) (process : Processor σ)
    (arrivals : Nat → Arrival) (index : Nat) : List Text → σ → Except CheckError (List Report) × σ
  | [], s => (.ok [], s)
  | p :: rest, s =>
    match path tree expired process (arrivals index) p s with
    | (.error e, s) => (.error e, s)
    | (.ok reports, s) =>
      match paths tree expired process arrivals (index + 1) rest s with
      | (.error e, s) => (.error e, s)
      | (.ok others, s) => (.ok (reports ++ others), s)

/-- The reports in the order of their files. -/
def sort (reports : List Report) : List Report := reports.mergeSort fun a b => Text.le a.file b.file

/-- Checks several paths and sorts the reports. -/
def run {σ : Type} (tree : FileTree) (expired : Bool) (process : Processor σ)
    (arrivals : Nat → Arrival) (ps : List Text) (s : σ) : Except CheckError (List Report) × σ :=
  let (outcome, s) := paths tree expired process arrivals 0 ps s
  (outcome.map sort, s)

end Batch

namespace Engine

/-- Reads and checks a proof file. -/
def checkFile (tree : FileTree) : Processor Engine := fun path e =>
  match tree.read path with
  | .error error => (.error (.unreadable error), e)
  | .ok content =>
    let (outcome, e) := e.check path content
    (outcome.mapError .source, e)

end Engine

end Sequitur
