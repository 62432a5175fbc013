import Sequitur.Files.Path

/-!
# Trees of files

A `FileTree` holds files and directories by their place, the components that lead there from the
current directory. A place may start with components that lead upward, and one that starts with the
empty component leads from the root; the root, the current directory and those above it are always
there. Reading, writing and looking at a path either succeed or fail for a reason, and nothing else
changes the tree.
-/

namespace Sequitur

/-- Why a path cannot be used. -/
inductive FileFault where
  | notFound
  | notDirectory
  | isDirectory
  | nameTooLong
  | invalid
  deriving DecidableEq, Repr

/-- The wording of a fault. -/
def FileFault.message : FileFault → Text
  | notFound => "no such file or directory"
  | notDirectory => "not a directory"
  | isDirectory => "is a directory"
  | nameTooLong => "file name too long"
  | invalid => "invalid argument"

/-- What was to be done with a path, and why it failed. -/
structure PathError where
  action : Text
  path : Text
  fault : FileFault
  deriving DecidableEq, Repr

/-- The wording of the error. -/
def PathError.message (e : PathError) : Text :=
  e.action ++ " " ++ e.path ++ ": " ++ e.fault.message

/-- Files and directories by their places. -/
structure FileTree where
  files : List (List Text × Text) := []
  directories : List (List Text) := []
  deriving DecidableEq, Repr

/-- What is found at a path. -/
inductive FileEntry where
  | file (content : Text)
  | directory
  deriving DecidableEq, Repr

namespace FileTree

/-- The place of the root. -/
def root : List Text := [[]]

/-- Whether a place is the current directory or one above it. -/
def isAbove (place : List Text) : Bool := place.all (· == Path.up)

/-- What stands at a place. -/
def get? (t : FileTree) (place : List Text) : Option FileEntry :=
  match t.files.lookup place with
  | some content => some (.file content)
  | none =>
    if isAbove place || place == root || t.directories.contains place then some .directory
    else none

/-- The tree with one more directory. -/
def addDirectory (t : FileTree) (place : List Text) : FileTree :=
  if t.directories.contains place then t else { t with directories := t.directories ++ [place] }

/-- The tree with a directory and all those above it. -/
def addDirectories (t : FileTree) (place : List Text) : FileTree :=
  (List.range place.length).foldl (fun t n => t.addDirectory (place.take (n + 1))) t

/-- The tree with a file in place of what stood there. -/
def put (t : FileTree) (place : List Text) (content : Text) : FileTree :=
  if t.files.any (·.1 == place) then
    { t with files := t.files.map fun f => if f.1 == place then (place, content) else f }
  else { t with files := t.files ++ [(place, content)] }

/-- The place a path leads to when every component of it is a directory. -/
def place (path : Text) : List Text :=
  let rooted := Path.isRooted path
  let components := ((Path.components path).foldl (Path.push rooted) []).reverse
  if rooted then [] :: components else components

/-- The tree with a file at a path, and with the directories it is in. -/
def putPath (t : FileTree) (path content : Text) : FileTree :=
  (t.addDirectories (place path).dropLast).put (place path) content

/-- The tree of given files and directories, with the directories they are in. -/
def ofLists (files : List (Text × Text)) (directories : List Text) : FileTree :=
  let t := directories.foldl (fun t d => t.addDirectories (place d)) {}
  files.foldl (fun t (path, content) => t.putPath path content) t

/-- The longest component a path may have. -/
def longestName : Nat := 255

/-- The longest path. -/
def longestPath : Nat := 4095

/-- Follows components from a directory. Each one but the last has to be a directory; an empty one
says that what is before it is. -/
def follow (t : FileTree) (current : List Text) : List Text → Except FileFault (List Text)
  | [] => .ok current
  | component :: rest =>
    match t.get? current with
    | none => .error .notFound
    | some (.file _) => .error .notDirectory
    | some .directory =>
      if longestName < component.length then .error .nameTooLong
      else if component.isEmpty || component == Path.here then t.follow current rest
      else if component == Path.up then
        if current == root then t.follow current rest
        else if isAbove current then t.follow (current ++ [Path.up]) rest
        else t.follow current.dropLast rest
      else t.follow (current ++ [component]) rest

/-- Where a path leads, whether or not something is there. -/
def locate (t : FileTree) (path : Text) : Except FileFault (List Text) :=
  if path.contains 0 then .error .invalid
  else if path.isEmpty then .error .notFound
  else if longestPath < path.length then .error .nameTooLong
  else t.follow (if Path.isRooted path then root else []) (Path.components path)

/-- What is at a path. -/
def stat (t : FileTree) (path : Text) : Except FileFault FileEntry := do
  let place ← t.locate path
  match t.get? place with
  | some entry => .ok entry
  | none => .error .notFound

/-- The content of a file. -/
def read (t : FileTree) (path : Text) : Except PathError Text :=
  match t.stat path with
  | .error fault => .error ⟨"open", path, fault⟩
  | .ok .directory => .error ⟨"read", path, .isDirectory⟩
  | .ok (.file content) => .ok content

/-- Why no file can be written at a path, or where it is. -/
def writable (t : FileTree) (path : Text) : Except FileFault (List Text) := do
  let trimmed := path.trimRight Path.slash
  -- A slash at the end asks for a directory, and those are not written.
  let place ← t.locate trimmed
  if trimmed.length < path.length || t.get? place = some .directory then .error .isDirectory
  else .ok place

/-- The tree with a file written. -/
def write (t : FileTree) (path content : Text) : Except PathError FileTree :=
  match t.writable path with
  | .error fault => .error ⟨"open", path, fault⟩
  | .ok place => .ok (t.put place content)

/-- Whether one list of components comes before another, component by component. -/
def before (a b : List Text) : Bool := decide (a ≤ b)

/-- Whether components lead down from where they start, and neither upward nor from the root. -/
def leadsDown : List Text → Bool
  | [] => false
  | first :: _ => !first.isEmpty && first != Path.up

/-- The files below a directory, at any depth, in the order of their components. -/
def below (t : FileTree) (place : List Text) : List (List Text) :=
  let inside := t.files.filterMap fun (p, _) =>
    let rest := p.drop place.length
    if place.isPrefixOf p && leadsDown rest then some rest else none
  inside.mergeSort before

/-- The paths of the files below the directory at `path`. -/
def walk (t : FileTree) (path : Text) : List Text :=
  match t.locate path with
  | .error _ => []
  | .ok place => (t.below place).map fun rest => Path.join path (Text.join [Path.slash] rest)

/-- The files of a tree that are not the same in an earlier one. -/
def changes (t earlier : FileTree) : List (Text × Text) :=
  (t.files.filter fun (p, content) => earlier.files.lookup p != some content).map
    fun (p, content) => (Text.join [Path.slash] p, content)

end FileTree

end Sequitur
