import Sequitur.Engine

/-!
# Reports for people

A report shows the sequent, every line with its justification or error, and then the errors once
more. On a terminal the parts have colours; a style puts its text, line feed included, between two
escape sequences.
-/

namespace Sequitur

/-- The escape sequences before and after a text. -/
structure Style where
  set : Text
  reset : Text

namespace Style

/-- A bold colour. -/
def bold (code : Text) : Style := ⟨code ++ ";1", "0;22"⟩

/-- A colour. -/
def plain (code : Text) : Style := ⟨code, "0"⟩

def error : Style := bold "31"
def ok : Style := bold "32"
def file : Style := bold "36"
def line : Style := bold "94"
def message : Style := plain "31"
def rule : Style := plain "33"
def sequent : Style := plain "37"

/-- The escape sequence with a code. -/
def escape (code : Text) : Text := 27 :: ("[" ++ code ++ "m")

/-- The text in a style, if colours are wanted. -/
def paint (s : Style) (color : Bool) (text : Text) : Text :=
  if color then escape s.set ++ text ++ escape s.reset else text

end Style

namespace Report

/-- The line that names the file and the sequent. -/
def plainHeader (color : Bool) (file header : Text) : Text :=
  let sequent := Style.sequent.paint color (header ++ "\n")
  if file.isEmpty then sequent
  else Style.file.paint color file ++ Style.line.paint color ": " ++ sequent

/-- A line of the proof. -/
def plainLine (color : Bool) (l : Line) : Text :=
  let number := Style.line.paint color ("(" ++ Text.ofNat (l.index + 1) ++ ")")
  let style := match l.error? with
    | some _ => Style.message
    | none => Style.rule
  number ++ " " ++ l.source ++ " (" ++ style.paint color l.tag ++ ")\n"

/-- The errors of the proof. -/
def plainSummary (color : Bool) (errors : List LineError) : Text :=
  if errors.isEmpty then
    Style.ok.paint color "ok: " ++ "no errors\n"
  else
    let noun : Text := if errors.length = 1 then "error" else "errors"
    Style.error.paint color ("found " ++ Text.ofNat errors.length ++ " " ++ noun ++ "\n") ++
      errors.flatMap fun e => Style.message.paint color (e.message ++ "\n")

/-- The text of a report. -/
def plain (color : Bool) (r : Report) : Text :=
  plainHeader color r.file r.header ++
    match r.finding with
    | .failed message =>
      Style.error.paint color "error: " ++ Style.message.paint color (message ++ "\n")
    | .nothing => []
    | .checked result =>
      result.lines.flatMap (plainLine color) ++ plainSummary color result.errors

/-- The texts of several reports, with an empty line between them. -/
def plainAll (color : Bool) (rs : List Report) : Text :=
  Text.join [Byte.newline] (rs.map (plain color))

end Report

end Sequitur
