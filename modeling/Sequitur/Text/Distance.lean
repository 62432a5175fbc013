import Sequitur.Text.Integer

/-!
# Similar words

The distance of two texts is the least number of bytes to be inserted, deleted or replaced to get
from one to the other. It is computed row by row: the row of a text has its distance from every
beginning of the other.
-/

namespace Sequitur.Text

/-- The text in lower case. -/
def lower (t : Text) : Text := t.map Integer.lower

/-- The entries of the next row after its first. `corner` is the entry above the last one. -/
def distanceRow (a : Byte) (left corner : Nat) : List (Byte × Nat) → List Nat
  | [] => []
  | (b, above) :: rest =>
    let entry := if a = b then corner else min (min left above) corner + 1
    entry :: distanceRow a entry above rest

/-- The last row for a text, from the row of the empty one. -/
def distanceRows (t : Text) (row : List Nat) : Text → List Nat
  | [] => row
  | a :: rest =>
    let first := row.headD 0
    distanceRows t ((first + 1) :: distanceRow a (first + 1) first (t.zip (row.drop 1))) rest

/-- The distance of two texts. -/
def distance (s t : Text) : Nat := (distanceRows t (List.range (t.length + 1)) s).getLastD 0

end Sequitur.Text
