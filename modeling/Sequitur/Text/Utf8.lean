import Sequitur.Text.Basic

/-!
# Characters of a text

A text is read as UTF-8 piece by piece: a well-formed sequence is one character, and a byte that
starts none is a piece of its own. `Text.pieces` never fails and loses nothing, so a text can be
processed character by character whether or not it is well-formed.
-/

namespace Sequitur

/-- A character of a text, or a byte that belongs to none. -/
inductive Piece where
  | char (c : Char)
  | stray (b : Byte)
  deriving DecidableEq, Repr

namespace Utf8

/-- The bytes that may follow the first one of a sequence. -/
def isTail (b : Byte) : Bool := 0x80 ≤ b && b ≤ 0xBF

/-- The six bits that a following byte carries. -/
def tailBits (b : Byte) : Nat := b.toNat % 64

/-- `a b` is a well-formed sequence of two bytes. -/
def isPair (a b : Byte) : Bool := 0xC2 ≤ a && a ≤ 0xDF && isTail b

/-- `a b c` is a well-formed sequence of three bytes: no overlong form, no surrogate. -/
def isTriple (a b c : Byte) : Bool :=
  0xE0 ≤ a && a ≤ 0xEF && isTail b && isTail c &&
    !(a == 0xE0 && b < 0xA0) && !(a == 0xED && 0x9F < b)

/-- `a b c d` is a well-formed sequence of four bytes: no overlong form, nothing above U+10FFFF. -/
def isQuadruple (a b c d : Byte) : Bool :=
  0xF0 ≤ a && a ≤ 0xF4 && isTail b && isTail c && isTail d &&
    !(a == 0xF0 && b < 0x90) && !(a == 0xF4 && 0x8F < b)

end Utf8

open Utf8

/-- The pieces of a text, in order. -/
def Text.pieces : Text → List Piece
  | [] => []
  | a :: r₁ =>
    if a < 0x80 then
      .char (Char.ofNat a.toNat) :: Text.pieces r₁
    else
      match r₁ with
      | [] => [.stray a]
      | b :: r₂ =>
        if isPair a b then
          .char (Char.ofNat (a.toNat % 32 * 64 + tailBits b)) :: Text.pieces r₂
        else
          match r₂ with
          | [] => .stray a :: Text.pieces [b]
          | c :: r₃ =>
            if isTriple a b c then
              .char (Char.ofNat (a.toNat % 16 * 4096 + tailBits b * 64 + tailBits c)) ::
                Text.pieces r₃
            else
              match r₃ with
              | [] => .stray a :: Text.pieces [b, c]
              | d :: r₄ =>
                if isQuadruple a b c d then
                  .char (Char.ofNat
                    (a.toNat % 8 * 262144 + tailBits b * 4096 + tailBits c * 64 + tailBits d)) ::
                    Text.pieces r₄
                else
                  .stray a :: Text.pieces (b :: c :: d :: r₄)

/-- Whether the text is well-formed UTF-8. -/
def Text.isUtf8 (text : Text) : Bool :=
  text.pieces.all fun
    | .char _ => true
    | .stray _ => false

/-- The bytes of a character. -/
def Text.ofChar (c : Char) : Text := String.utf8EncodeChar c

/-- What stands for a byte that belongs to no character: U+FFFD. -/
def Text.replacement : Text := Text.ofChar '�'

end Sequitur
