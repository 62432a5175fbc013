/-!
# Texts as byte sequences

Everything the checker reads or prints is a `Text`, a sequence of bytes. Positions and lengths
count bytes, and nothing assumes that a text is well-formed UTF-8. This module has the ASCII
classes the grammar is written in, the few list operations the other modules share, and the
bytewise order by which names and files are sorted.
-/

namespace Sequitur

/-- One byte of a text. -/
abbrev Byte := UInt8

/-- A sequence of bytes. -/
abbrev Text := List UInt8

namespace Byte

/-- The upper-case letters `A` to `Z`. -/
def isUpper (b : Byte) : Bool := 65 ≤ b && b ≤ 90

/-- The lower-case letters `a` to `z`. -/
def isLower (b : Byte) : Bool := 97 ≤ b && b ≤ 122

/-- The letters of either case. -/
def isLetter (b : Byte) : Bool := b.isUpper || b.isLower

/-- The digits `0` to `9`. -/
def isDigit (b : Byte) : Bool := 48 ≤ b && b ≤ 57

/-- The line feed. -/
abbrev newline : Byte := 10

end Byte

namespace Text

/-- The UTF-8 bytes of a string. -/
def ofString (s : String) : Text := s.toList.flatMap String.utf8EncodeChar

instance : Coe String Text := ⟨ofString⟩

/-- The decimal digits of a number. -/
def ofNat (n : Nat) : Text := ofString (toString n)

/-- The decimal digits of an integer, after a minus sign when it is negative. -/
def ofInt (n : Int) : Text := ofString (toString n)

/-- The parts with `sep` between neighbours. -/
def join (sep : Text) (parts : List Text) : Text := List.intercalate sep parts

/-- The parts between the occurrences of `sep`; always at least one. -/
def splitOn (sep : Byte) : Text → List Text
  | [] => [[]]
  | b :: rest =>
    if b = sep then
      [] :: splitOn sep rest
    else
      match splitOn sep rest with
      | [] => [[b]]
      | part :: parts => (b :: part) :: parts

/-- Whether `part` occurs somewhere in the text. -/
def hasInfix (part : Text) : Text → Bool
  | [] => part.isEmpty
  | b :: rest => part.isPrefixOf (b :: rest) || hasInfix part rest

/-- The text without the bytes `b` at its end. -/
def trimRight (b : Byte) (text : Text) : Text := (text.reverse.dropWhile (· == b)).reverse

/-- Bytewise lexicographic order. -/
def le (s t : Text) : Bool := decide (s ≤ t)

/-- The names in bytewise order. -/
def sort (names : List Text) : List Text := names.mergeSort le

end Text

end Sequitur
