import Sequitur.Text.Basic

/-!
# Paths

A path is a text whose components stand between slashes. The operations here are on the text alone
and look at no files.
-/

namespace Sequitur.Path

/-- The separator of components. -/
abbrev slash : Byte := 47

/-- The component for the directory itself. -/
def here : Text := "."

/-- The component for the directory above. -/
def up : Text := ".."

/-- The components of a path, the empty ones included. -/
def components (path : Text) : List Text := path.splitOn slash

/-- Whether a path starts at the root. -/
def isRooted (path : Text) : Bool := path.head? == some slash

/-- Puts a component on a stack of components. The one above cancels the one before it; at the root
there is nothing above. -/
def push (rooted : Bool) (stack : List Text) (component : Text) : List Text :=
  if component.isEmpty || component == here then stack
  else if component == up then
    match stack with
    | [] => if rooted then [] else [up]
    | last :: rest => if last == up then up :: stack else rest
  else component :: stack

/-- The shortest path with the same meaning. -/
def clean (path : Text) : Text :=
  let rooted := isRooted path
  let body := Text.join [slash] ((components path).foldl (push rooted) []).reverse
  if rooted then slash :: body else if body.isEmpty then here else body

/-- The directory a path is in. -/
def parent (path : Text) : Text := clean (path.reverse.dropWhile (· != slash)).reverse

/-- The last component of a path. -/
def base (path : Text) : Text :=
  if path.isEmpty then here
  else
    let last := ((path.trimRight slash).reverse.takeWhile (· != slash)).reverse
    if last.isEmpty then [slash] else last

/-- A path below a directory. -/
def join (directory name : Text) : Text := clean (directory ++ slash :: name)

/-- The part of the last component from its last dot on. -/
def extension (path : Text) : Text :=
  let last := path.reverse.takeWhile (· != slash)
  if last.contains 46 then 46 :: (last.takeWhile (· != 46)).reverse else []

end Sequitur.Path
