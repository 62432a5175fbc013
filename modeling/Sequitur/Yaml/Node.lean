import Sequitur.Text.Integer
import Sequitur.Text.Quoted

/-!
# YAML nodes

A document is a tree of scalars, sequences and mappings. Each node knows the line it starts on,
which messages about it cite. What a plain scalar stands for is decided by its text.
-/

namespace Sequitur.Yaml

/-- A node of a document. -/
inductive Node where
  /-- `plain` scalars have no quotes and are no blocks; `tag` is one that is written out. -/
  | scalar (line : Nat) (tag : Option Text) (plain : Bool) (value : Text)
  | sequence (line : Nat) (items : List Node)
  | mapping (line : Nat) (entries : List (Node × Node))
  deriving Inhabited

namespace Node

/-- The line a node starts on, counted from one. -/
def line : Node → Nat
  | .scalar line _ _ _ => line
  | .sequence line _ => line
  | .mapping line _ => line

/-- The text of a scalar, and nothing for other nodes. -/
def value : Node → Text
  | .scalar _ _ _ value => value
  | _ => []

/-- Whether two nodes are the same as keys of a mapping. -/
def sameKey : Node → Node → Bool
  | .scalar _ _ _ a, .scalar _ _ _ b => a == b
  | .sequence _ _, .sequence _ _ => true
  | .mapping _ _, .mapping _ _ => true
  | _, _ => false

end Node

/-- The characters that no plain scalar starts with. -/
def indicators : List Char :=
  [',', '[', ']', '{', '}', '#', '&', '*', '!', '|', '>', '\'', '"', '%', '@', '\x60']

/-- What a scalar stands for. -/
inductive ScalarType where
  | null
  | bool (value : Bool)
  | integer
  | float
  | timestamp
  | string
  deriving DecidableEq, Repr

namespace ScalarType

/-- The tag of a type. -/
def tag : ScalarType → Text
  | null => "!!null"
  | bool _ => "!!bool"
  | integer => "!!int"
  | float => "!!float"
  | timestamp => "!!timestamp"
  | string => "!!str"

/-- Whether a text is one of several words. -/
def isWord (words : List String) (t : Text) : Bool := words.any fun w => Text.ofString w == t

/-- The digits at the head of a text, and the rest. -/
def digits (t : Text) : Text × Text := (t.takeWhile Byte.isDigit, t.dropWhile Byte.isDigit)

/-- The text without a sign. -/
def dropSign : Text → Text
  | 43 :: rest => rest
  | 45 :: rest => rest
  | t => t

/-- Whether a text is empty or an exponent. -/
def isExponent : Text → Bool
  | [] => true
  | b :: rest =>
    let (ds, after) := digits (dropSign rest)
    (b = 69 || b = 101) && !ds.isEmpty && after.isEmpty

/-- Whether a text is a decimal number, with a fraction or an exponent or neither. -/
def isDecimal (t : Text) : Bool :=
  match digits (dropSign t) with
  | ([], 46 :: rest) =>
    let (fraction, after) := digits rest
    !fraction.isEmpty && isExponent after
  | (_ :: _, 46 :: rest) => isExponent (digits rest).2
  | (_ :: _, rest) => isExponent rest
  | ([], _) => false

/-- Whether a text is an integer; underscores do not count. -/
def isInteger (t : Text) : Bool :=
  let t := t.filter (· != 95)
  (Integer.parse t).isOk || (Integer.unsigned? t).isOk

/-- A number of one or two digits that is at least `lo` and at most `hi`, and what follows it. -/
def twoDigits (lo hi : Nat) (t : Text) : Option Text :=
  let (ds, rest) := digits (t.take 2)
  let n := ds.foldl (fun n d => 10 * n + (d.toNat - 48)) 0
  if ds.isEmpty || n < lo || hi < n then none else some (rest ++ t.drop 2)

/-- What follows a given byte. -/
def after (b : Byte) : Text → Option Text
  | c :: rest => if b = c then some rest else none
  | [] => none

/-- Whether a text is the time of a day, with a zone if `zone`. -/
def isTime (zone : Bool) (t : Text) : Bool :=
  match (do
    let t ← twoDigits 0 23 t
    let t ← after 58 t
    let t ← twoDigits 0 59 t
    let t ← after 58 t
    twoDigits 0 59 t) with
  | none => false
  | some t =>
    let t := match t with
      | 46 :: fraction => (digits fraction).2
      | t => t
    if !zone then t.isEmpty
    else t == [90] || match (do
      let t ← (after 43 t <|> after 45 t)
      let t ← twoDigits 0 24 t
      let t ← after 58 t
      twoDigits 0 60 t) with
    | some t => t.isEmpty
    | none => false

/-- Whether a text is a date, alone or with a time. -/
def isTimestamp (t : Text) : Bool :=
  let (year, rest) := digits t
  year.length = 4 && match (do
    let rest ← after 45 rest
    let rest ← twoDigits 1 12 rest
    let rest ← after 45 rest
    twoDigits 1 31 rest) with
  | none => false
  | some [] => true
  | some (84 :: time) => isTime true time
  | some (116 :: time) => isTime true time
  | some (32 :: time) => isTime false time
  | some _ => false

/-- What a plain scalar stands for. -/
def ofPlain (t : Text) : ScalarType :=
  if isWord ["", "~", "null", "Null", "NULL"] t then null
  else if isWord ["true", "True", "TRUE"] t then bool true
  else if isWord ["false", "False", "FALSE"] t then bool false
  else if isWord [".nan", ".NaN", ".NAN", ".inf", ".Inf", ".INF", "+.inf", "+.Inf", "+.INF",
    "-.inf", "-.Inf", "-.INF"] t then float
  else
    match t with
    | 46 :: _ => if isDecimal t then float else string
    | b :: _ =>
      if Byte.isDigit b || b = 43 || b = 45 then
        if isTimestamp t then timestamp
        else if isInteger t then integer
        else if isDecimal (t.filter (· != 95)) then float
        else string
      else string
    | [] => null

/-- The words that older documents have for true. -/
def oldTrue : List String := ["y", "Y", "yes", "Yes", "YES", "on", "On", "ON"]

/-- The words that older documents have for false. -/
def oldFalse : List String := ["n", "N", "no", "No", "NO", "off", "Off", "OFF"]

end ScalarType

end Sequitur.Yaml
