import Sequitur.Text.Base64
import Sequitur.Text.Utf8
import Sequitur.Yaml.Node

/-!
# Writing YAML scalars

`Yaml.scalar` writes a text so that it is read back as that text. A text is written plain if it can
be, so if it would not be taken for a number or another value, and has none of the signs that mean
something to a reader. Else it is written between quotes. A text of several lines is written as a
literal block, unless white space at the end of a line would be lost to the eye. A text that is not
well-formed is written in base 64.
-/

namespace Sequitur.Yaml

/-- The number of columns a level is indented by. -/
def levelWidth : Nat := 4

/-- The characters that are written as they are. -/
def isWritable (c : Char) : Bool :=
  let n := c.toNat
  n = 10 || (0x20 ≤ n && n ≤ 0x7E) || (0xA0 ≤ n && n ≤ 0xD7FF) ||
    (0xE000 ≤ n && n ≤ 0xFFFD && n != 0xFEFF)

/-- The characters that end a line. -/
def isLineEnd (c : Char) : Bool := [10, 13, 0x85, 0x2028, 0x2029].contains c.toNat

/-- The ways to write a scalar. -/
inductive ScalarStyle where
  | plain
  | single
  | double
  | literal
  deriving DecidableEq, Repr

/-- Whether the first character of a text has a meaning of its own. -/
def startsMarked : List Char → Bool
  | [] => false
  | c :: rest =>
    indicators.contains c ||
      (['?', ':', '-'].contains c && (rest.isEmpty || rest.head?.any fun d => d = ' ' || d = '\t'))

/-- Whether a colon or a number sign within a text has a meaning of its own. -/
def hasMark (previous : Char) : List Char → Bool
  | [] => false
  | c :: rest =>
    (c = ':' && (rest.isEmpty || rest.head?.any fun d => d = ' ' || d = '\t')) ||
      (c = '#' && (previous = ' ' || previous = '\t' || isLineEnd previous ||
        previous.toNat = 0)) ||
      hasMark c rest

/-- Whether a line starts like one that separates documents. -/
def startsLikeMarker (cs : List Char) : Bool :=
  ['-', '-', '-'].isPrefixOf cs || ['.', '.', '.'].isPrefixOf cs

/-- Whether two neighbours of a text satisfy a relation. -/
def hasNeighbours (p : Char → Char → Bool) : List Char → Bool
  | a :: b :: rest => p a b || hasNeighbours p (b :: rest)
  | _ => false

/-- Whether a text has a space or a line break at its start or end. -/
def hasLooseEnd (cs : List Char) : Bool :=
  let loose (c : Option Char) : Bool := c.any fun c => c = ' ' || isLineEnd c
  loose cs.head? || loose cs.getLast?

/-- Whether a text has characters that only an escape can write. -/
def needsEscape (cs : List Char) : Bool :=
  cs.any (fun c => c != '\t' && !isWritable c) ||
    hasNeighbours (fun a b => a = ' ' && isLineEnd b) cs

/-- Whether a text can be written without quotes, as far as its characters go. -/
def canBePlain (cs : List Char) : Bool :=
  !(startsLikeMarker cs || startsMarked cs || hasMark 'x' (cs.drop 1) || hasLooseEnd cs ||
    needsEscape cs || cs.any fun c => c = '\t' || isLineEnd c)

/-- Whether a text can be written between single quotes. -/
def canBeSingle (cs : List Char) : Bool :=
  !(needsEscape cs || cs.contains '\t' || hasNeighbours (fun a b => isLineEnd a && b = ' ') cs)

/-- Whether a text can be written as a block. -/
def canBeLiteral (cs : List Char) : Bool := !(needsEscape cs || cs.getLast? == some ' ')

/-- Whether a text is a sequence of parts up to 59 after a number, as older documents write
numbers of base 60. -/
def isSexagesimal (t : Text) : Bool :=
  match (ScalarType.dropSign t).splitOn 58 with
  | first :: parts@(_ :: _) =>
    let last := parts.getLastD []
    let (lastDigits, fraction) := ScalarType.digits last
    let isPart (p : Text) : Bool :=
      p.all Byte.isDigit && (p.length = 1 || (p.length = 2 && p.headD 0 ≤ 53))
    first.head?.any Byte.isDigit && first.all (fun b => Byte.isDigit b || b = 95) &&
      (parts.dropLast ++ [lastDigits]).all isPart &&
      match fraction with
      | [] => true
      | 46 :: rest => rest.all fun b => Byte.isDigit b || b = 95
      | _ => false
  | _ => false

/-- Whether a plain scalar with this text would be read as a string by every reader. -/
def readsAsString (t : Text) : Bool :=
  ScalarType.ofPlain t = .string && !isSexagesimal t &&
    !ScalarType.isWord (ScalarType.oldTrue ++ ScalarType.oldFalse) t

/-- How a text is written. -/
def ScalarStyle.choose (t : Text) (cs : List Char) (asString : Bool) : ScalarStyle :=
  if t.contains Byte.newline then if canBeLiteral cs then .literal else .double
  else if !asString then .double
  else if canBePlain cs then .plain
  else if canBeSingle cs then .single
  else .double

/-- The hexadecimal digits of a number, in capitals. -/
def capitalHex (width n : Nat) : Text :=
  (Quoted.hex width n).map fun b => if Byte.isLower b then b - 32 else b

/-- A character between double quotes. -/
def escaped (c : Char) : Text :=
  let n := c.toNat
  if c = '"' then "\\\""
  else if c = '\\' then "\\\\"
  else if isWritable c && !isLineEnd c then Text.ofChar c
  else
    match n with
    | 0 => "\\0"
    | 7 => "\\a"
    | 8 => "\\b"
    | 9 => "\\t"
    | 10 => "\\n"
    | 11 => "\\v"
    | 12 => "\\f"
    | 13 => "\\r"
    | 27 => "\\e"
    | 0x85 => "\\N"
    | 0x2028 => "\\L"
    | 0x2029 => "\\P"
    | n =>
      if n ≤ 0xFF then "\\x" ++ capitalHex 2 n
      else if n ≤ 0xFFFF then "\\u" ++ capitalHex 4 n
      else "\\U" ++ capitalHex 8 n

/-- The signs after the bar of a literal block. They tell its indentation when its first character
does not, and what becomes of the line breaks at its end. -/
def literalHints (t : Text) : Text :=
  let indent : Text := match t with
    | 32 :: _ | 10 :: _ => Text.ofNat levelWidth
    | _ => []
  let chomp : Text := match t.reverse with
    | 10 :: 10 :: _ => "+"
    | [10] => "+"
    | 10 :: _ => []
    | _ => "-"
  indent ++ chomp

/-- The lines of a literal block, each after `width` spaces unless it is empty. -/
def literalLines (width : Nat) (t : Text) : Text :=
  let lines := t.splitOn Byte.newline
  let lines := if lines.getLast? == some [] then lines.dropLast else lines
  lines.flatMap fun l => (if l.isEmpty then [] else List.replicate width 32 ++ l) ++ [Byte.newline]

/-- A text after a key of the given level, the line break at its end included. -/
def styled (level : Nat) (t : Text) (cs : List Char) : ScalarStyle → Text
  | .plain => t ++ "\n"
  | .single => "'" ++ (cs.flatMap fun c => if c = '\'' then "''" else Text.ofChar c) ++ "'\n"
  | .double => "\"" ++ cs.flatMap escaped ++ "\"\n"
  | .literal => "|" ++ literalHints t ++ "\n" ++ literalLines ((level + 1) * levelWidth) t

/-- The longest line of digits of base 64. -/
def digitsPerLine : Nat := 70

/-- The digits of base 64 in lines; a single line has no line break. -/
def digitLines (digits : Text) : Text :=
  if digits.length < digitsPerLine then digits
  else
    (List.range ((digits.length + digitsPerLine - 1) / digitsPerLine)).flatMap fun i =>
      (digits.drop (i * digitsPerLine)).take digitsPerLine ++ [Byte.newline]

/-- The characters of a text, without what belongs to none. -/
def charactersOf (t : Text) : List Char :=
  t.pieces.filterMap fun
    | .char c => some c
    | .stray _ => none

/-- The scalar for a text after a key of the given level, the line break at its end included. -/
def scalar (level : Nat) (t : Text) : Text :=
  if t.isUtf8 then
    let cs := charactersOf t
    styled level t cs (.choose t cs (readsAsString t))
  else
    let t := digitLines (Base64.encode t)
    let cs := charactersOf t
    "!!binary " ++ styled level t cs (.choose t cs true)

end Sequitur.Yaml
