import Sequitur.Engine
import Sequitur.Text.Quoted

/-!
# Reports for programs

Reports as a JSON array, indented by two spaces. Members without a value are left out. In strings
the characters `<`, `>` and `&`, the line separators and the control characters are escaped, and a
byte that belongs to no character is written as U+FFFD.
-/

namespace Sequitur

/-- A JSON value. Members of an object are written in order. -/
inductive JsonValue where
  | bool (b : Bool)
  | number (n : Nat)
  | string (t : Text)
  | array (items : List JsonValue)
  | object (members : List (Text × JsonValue))

namespace JsonValue

/-- A character inside a string. -/
def escapeChar (c : Char) : Text :=
  let n := c.toNat
  if c = '"' then "\\\""
  else if c = '\\' then "\\\\"
  else if n = 8 then "\\b"
  else if n = 12 then "\\f"
  else if n = 10 then "\\n"
  else if n = 13 then "\\r"
  else if n = 9 then "\\t"
  else if n < 32 || c = '<' || c = '>' || c = '&' || n = 0x2028 || n = 0x2029 then
    "\\u" ++ Quoted.hex 4 n
  else Text.ofChar c

/-- A piece of a text inside a string. -/
def escapePiece : Piece → Text
  | .char c => escapeChar c
  | .stray _ => "\\ufffd"

/-- A text as a string. -/
def quote (t : Text) : Text := "\"" ++ t.pieces.flatMap escapePiece ++ "\""

/-- The start of a line inside `depth` arrays and objects. -/
def newLine (depth : Nat) : Text := Byte.newline :: List.replicate (2 * depth) 32

/-- Items on lines of their own between two brackets. -/
def block (depth : Nat) (before after : Text) (items : List Text) : Text :=
  if items.isEmpty then before ++ after
  else before ++ newLine (depth + 1) ++ Text.join ("," ++ newLine (depth + 1)) items ++
    newLine depth ++ after

mutual

/-- The text of a value inside `depth` arrays and objects. -/
def text (depth : Nat) : JsonValue → Text
  | .bool b => if b then "true" else "false"
  | .number n => Text.ofNat n
  | .string t => quote t
  | .array items => block depth "[" "]" (itemTexts (depth + 1) items)
  | .object members => block depth "\x7b" "\x7d" (memberTexts (depth + 1) members)

/-- The texts of the items of an array. -/
def itemTexts (depth : Nat) : List JsonValue → List Text
  | [] => []
  | v :: rest => v.text depth :: itemTexts depth rest

/-- The texts of the members of an object. -/
def memberTexts (depth : Nat) : List (Text × JsonValue) → List Text
  | [] => []
  | (name, v) :: rest => (quote name ++ ": " ++ v.text depth) :: memberTexts depth rest

end

/-- Members of an object. -/
abbrev Members := List (Text × JsonValue)

/-- A member. -/
def member (name : Text) (value : JsonValue) : Members := [(name, value)]

/-- A member for a text, left out when it is empty. -/
def optionalText (name t : Text) : Members :=
  if t.isEmpty then [] else member name (.string t)

/-- A member for a list, left out when it is empty. -/
def optionalArray (name : Text) (items : List JsonValue) : Members :=
  if items.isEmpty then [] else member name (.array items)

end JsonValue

namespace Report

open JsonValue (member optionalText optionalArray)

/-- A line of the proof. -/
def jsonLine (l : Line) : JsonValue :=
  let name : Text := match l.error? with
    | some _ => "error"
    | none => "justification"
  .object (member "line" (.number (l.index + 1)) ++ member "source" (.string l.source) ++
    optionalText name l.tag)

/-- An error; the line is left out when it concerns the whole proof. -/
def jsonError (e : LineError) : JsonValue :=
  .object ((if e.line = 0 then [] else member "line" (.number e.line)) ++
    member "kind" (.string e.problem.kind.title) ++ member "message" (.string e.problem.message))

/-- What is said of the lines, their errors, and the file as a whole. -/
def jsonFinding : Finding → List JsonValue × List JsonValue × Text
  | .checked result => (result.lines.map jsonLine, result.errors.map jsonError, [])
  | .failed message => ([], [], message)
  | .nothing => ([], [], [])

/-- A report. Times are not measured. -/
def json (r : Report) : JsonValue :=
  let (lines, errors, message) := jsonFinding r.finding
  .object (member "file" (.string r.file) ++ optionalText "header" r.header ++
    member "ok" (.bool r.ok) ++ optionalArray "lines" lines ++ optionalArray "errors" errors ++
    member "elapsed_ms" (.number 0) ++ optionalText "error" message)

/-- The text of several reports. -/
def jsonAll (rs : List Report) : Text := (JsonValue.array (rs.map json)).text 0

end Report

end Sequitur
