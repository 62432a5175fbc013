import Sequitur.Text.Utf8

/-!
# White space

The grammar knows no white space: it is removed before a text is read. What counts as white space
is the Unicode property `White_Space`.
-/

namespace Sequitur

/-- The characters with the property `White_Space`. -/
def isSpace (c : Char) : Bool :=
  let n := c.toNat
  (0x09 ≤ n && n ≤ 0x0D) || n == 0x20 || n == 0x85 || n == 0xA0 || n == 0x1680 ||
    (0x2000 ≤ n && n ≤ 0x200A) || n == 0x2028 || n == 0x2029 || n == 0x202F || n == 0x205F ||
    n == 0x3000

/-- What a piece leaves when white space is removed. -/
def Piece.stripped : Piece → Text
  | .char c => if isSpace c then [] else Text.ofChar c
  | .stray _ => Text.replacement

/-- The text without white space, and with U+FFFD for each byte that belongs to no character. -/
def Text.stripSpace (text : Text) : Text := text.pieces.flatMap Piece.stripped

end Sequitur
