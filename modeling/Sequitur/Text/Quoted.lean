import Sequitur.Text.Utf8
import Sequitur.Text.Printable

/-!
# Quoted texts

Messages show the text they speak of in quotes. Printable characters stand for themselves; the
quote and the backslash get a backslash; control characters have a letter or two hexadecimal
digits; other characters have four or eight, and a byte that belongs to no character has two.
-/

namespace Sequitur

namespace Quoted

/-- The lower-case hexadecimal digit of a number below sixteen. -/
def hexDigit (n : Nat) : Byte := if n < 10 then UInt8.ofNat (48 + n) else UInt8.ofNat (87 + n)

/-- The last `width` hexadecimal digits of a number. -/
def hex : Nat → Nat → Text
  | 0, _ => []
  | width + 1, n => hex width (n / 16) ++ [hexDigit (n % 16)]

/-- The character as it stands between two `quote` characters. -/
def escapeChar (quote c : Char) : Text :=
  if c = quote || c = '\\' then "\\" ++ Text.ofChar c
  else if isPrintable c then Text.ofChar c
  else
    let n := c.toNat
    if n = 7 then "\\a"
    else if n = 8 then "\\b"
    else if n = 12 then "\\f"
    else if n = 10 then "\\n"
    else if n = 13 then "\\r"
    else if n = 9 then "\\t"
    else if n = 11 then "\\v"
    else if n < 32 || n = 127 then "\\x" ++ hex 2 n
    else if n < 65536 then "\\u" ++ hex 4 n
    else "\\U" ++ hex 8 n

/-- The piece as it stands between two `quote` characters. -/
def escapePiece (quote : Char) : Piece → Text
  | .char c => escapeChar quote c
  | .stray b => "\\x" ++ hex 2 b.toNat

end Quoted

open Quoted

/-- The text in double quotes. -/
def Text.quoted (text : Text) : Text :=
  "\"" ++ text.pieces.flatMap (escapePiece '"') ++ "\""

/-- The character whose code point is the byte, in single quotes. -/
def Byte.quoted (b : Byte) : Text :=
  "'" ++ escapeChar '\'' (Char.ofNat b.toNat) ++ "'"

end Sequitur
