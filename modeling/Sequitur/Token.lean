import Sequitur.Text.Basic

/-!
# Tokens

A text falls into tokens: identifiers, which are a letter and the longest run of digits after it;
the arrow `->`; and single bytes for all else. `Token.scan` and `Token.spell` are inverse, so no
byte is lost. Both reading a formula and replacing an identifier work on tokens, which is why
`x` is never found inside `x1`.
-/

namespace Sequitur

/-- A token of a text. -/
inductive Token where
  /-- A letter and the digits after it. -/
  | ident (name : Text)
  /-- The arrow `->`. -/
  | arrow
  /-- Any other byte. -/
  | byte (b : Byte)
  deriving DecidableEq, Repr

namespace Token

/-- `(` -/
@[match_pattern] abbrev lparen : Token := .byte 40
/-- `)` -/
@[match_pattern] abbrev rparen : Token := .byte 41
/-- `,` -/
@[match_pattern] abbrev comma : Token := .byte 44
/-- `!` -/
@[match_pattern] abbrev bang : Token := .byte 33
/-- `@` -/
@[match_pattern] abbrev forAll : Token := .byte 64
/-- `?` -/
@[match_pattern] abbrev exist : Token := .byte 63
/-- `|` -/
@[match_pattern] abbrev bar : Token := .byte 124
/-- `&` -/
@[match_pattern] abbrev ampersand : Token := .byte 38
/-- `=` -/
@[match_pattern] abbrev equals : Token := .byte 61
/-- `+` -/
@[match_pattern] abbrev plus : Token := .byte 43
/-- `*` -/
@[match_pattern] abbrev star : Token := .byte 42
/-- `'` -/
@[match_pattern] abbrev prime : Token := .byte 39
/-- `0` -/
@[match_pattern] abbrev zero : Token := .byte 48

/-- The bytes of a token. -/
def text : Token → Text
  | .ident name => name
  | .arrow => "->"
  | .byte b => [b]

/-- The first byte of a token. -/
def first : Token → Byte
  | .ident name => name.headD 0
  | .arrow => 45
  | .byte b => b

/-- The bytes of several tokens. -/
def spell (tokens : List Token) : Text := tokens.flatMap text

/-- The digits that stand as tokens of their own at the head of a list. -/
def leadingDigits : List Token → Text
  | .byte b :: rest => if b.isDigit then b :: leadingDigits rest else []
  | _ => []

/-- Puts a byte before the tokens of the text that follows it. A letter takes the digits after it,
and a hyphen takes a `>`. -/
def push (b : Byte) (tokens : List Token) : List Token :=
  if b.isLetter then
    let digits := leadingDigits tokens
    .ident (b :: digits) :: tokens.drop digits.length
  else if b = 45 then
    match tokens with
    | .byte 62 :: rest => .arrow :: rest
    | _ => .byte b :: tokens
  else
    .byte b :: tokens

/-- The tokens of a text. -/
def scan (text : Text) : List Token := text.foldr push []

end Token

/-- The text with `value` in place of every identifier `name`. -/
def Text.replaceIdent (text name value : Text) : Text :=
  (Token.scan text).flatMap fun
    | .ident x => if x = name then value else x
    | token => token.text

end Sequitur
