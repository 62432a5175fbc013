import Sequitur.Command.Run

/-!
# The program

The program reads the files its arguments name, runs the command line on them, and writes what the
run has changed. All decisions are made by `Invocation.run`. Directories are not listed here, so a
directory given for checking is refused rather than taken for an empty one.
-/

namespace Sequitur.Main

/-- The name of a path for the system, if it is well-formed. -/
def systemName? (path : Text) : Option String := String.fromUTF8? ⟨path.toArray⟩

/-- The arguments of the system as texts. -/
def textOf (s : String) : Text := s.toUTF8.toList

/-- The paths that an argument may name: itself, or the value of a flag. -/
def namedPaths (arg : Text) : List Text :=
  [arg, (arg.dropWhile (· != 61)).drop 1, arg.drop 2].filter (!·.isEmpty)

/-- A path and the directories on the way to it. -/
def leadingPaths (path : Text) : List Text :=
  let components := Path.components path
  ((List.range components.length).map fun n =>
    Text.join [Path.slash] (components.take (n + 1))).filter (!·.isEmpty)

/-- All paths a command line can have to do with. -/
def relevantPaths (args : List Text) : List Text :=
  ((Config.defaultFile :: args.flatMap namedPaths).flatMap leadingPaths).eraseDups

/-- The arguments of a command, without its flags. -/
def arguments (args : List Text) : Option (Command × List Text) :=
  match Command.find args with
  | .ok (.command c, rest) => (Flag.read c.flags none {} rest).toOption.map fun (_, as) => (c, as)
  | _ => none

/-- The first directory that is given for checking. -/
def directory? (tree : FileTree) (args : List Text) : Option Text :=
  match arguments args with
  | some (.check, paths) => paths.find? fun p => (tree.stat p).toOption == some .directory
  | _ => none

/-- Whether something could not be read because it is a directory. -/
def isDirectoryError : IO.Error → Bool
  | .inappropriateType _ code _ => code == 21
  | _ => false

/-- Adds what the system has at a path. -/
def load (tree : FileTree) (path : Text) : IO FileTree := do
  let some name := systemName? path | return tree
  match ← (IO.FS.readBinFile name).toBaseIO with
  | .ok bytes => return tree.put (FileTree.place path) bytes.toList
  | .error e =>
    return if isDirectoryError e then tree.addDirectory (FileTree.place path) else tree

/-- Everything that can still be read from a stream. -/
partial def readAll (stream : IO.FS.Stream) (acc : ByteArray) : IO ByteArray := do
  let chunk ← stream.read 65536
  if chunk.isEmpty then return acc else readAll stream (acc ++ chunk)

/-- Writes a text to a stream. -/
def put (stream : IO.FS.Stream) (t : Text) : IO Unit := do
  stream.write ⟨t.toArray⟩
  stream.flush

/-- Writes the files that a run has changed. -/
def save (before after : FileTree) : IO Unit :=
  (after.changes before).forM fun (path, content) =>
    match systemName? path with
    | some name => IO.FS.writeBinFile name ⟨content.toArray⟩
    | none => pure ()

/-- The command line on the files as they are now. -/
def invocation (args : List Text) (stdin : Text) (color : Bool) : IO Invocation := do
  let tree ← (relevantPaths args).foldlM load {}
  return { args, stdin, color, tree }

/-- Shows a watched file again each time its check changes. -/
partial def watch (args : List Text) (color : Bool) (shown : Text) : IO Unit := do
  IO.sleep 100
  let o := (← invocation args [] color).run
  if o.stdout != shown then put (← IO.getStdout) o.stdout
  watch args color o.stdout

/-- Runs the program. -/
def run (args : List Text) : IO UInt32 := do
  let stdout ← IO.getStdout
  let stderr ← IO.getStderr
  let color ← stdout.isTty
  let stdin ← if args.contains Command.stdinName then readAll (← IO.getStdin) .empty
    else pure .empty
  let inv ← invocation args stdin.toList color
  if let some path := directory? inv.tree args then
    put stderr ("error: " ++ path ++ " is a directory; name the files in it\n")
    return 1
  let o := inv.run
  put stdout o.stdout
  put stderr o.stderr
  save inv.tree o.tree
  match o.error with
  | some e =>
    if e.isPrinted then put stderr ("error: " ++ e.message ++ "\n")
    return 1
  | none =>
    if let some (.watch, _) := arguments args then watch args color o.stdout
    return 0

end Sequitur.Main

def main (args : List String) : IO UInt32 := Sequitur.Main.run (args.map Sequitur.Main.textOf)
