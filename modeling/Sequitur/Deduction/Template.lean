import Sequitur.Text.Space

/-!
# Templates of proof fragments

Discharging a hypothesis `H` replaces every line `L` of a proof by a fragment that ends in `H->L`.
The fragments are texts with one formula a line, in which `{H}`, `{A}`, `{B}` and `{x}` are filled
in. There is one template for each way a line can be justified.
-/

namespace Sequitur

/-- What is filled in for the placeholders of a template. -/
structure Filling where
  /-- `{H}`, the discharged hypothesis. -/
  hypothesis : Text
  /-- `{A}` -/
  left : Text := []
  /-- `{B}` -/
  right : Text := []
  /-- `{x}` -/
  name : Text := []

namespace Template

/-- Fills in the placeholders of a template. -/
def substitute (f : Filling) : Text → Text
  | 123 :: 72 :: 125 :: rest => f.hypothesis ++ substitute f rest
  | 123 :: 65 :: 125 :: rest => f.left ++ substitute f rest
  | 123 :: 66 :: 125 :: rest => f.right ++ substitute f rest
  | 123 :: 120 :: 125 :: rest => f.name ++ substitute f rest
  | b :: rest => b :: substitute f rest
  | [] => []

/-- The lines of a filled template, without white space and without empty lines. -/
def fill (template : Text) (f : Filling) : List Text :=
  (((substitute f template).splitOn Byte.newline).map Text.stripSpace).filter (!·.isEmpty)

end Template

/-- One template for each way a line can be justified. -/
structure Templates where
  /-- The line is `{H}` itself. -/
  itself : Text := []
  /-- The line `{A}` is an axiom or a remaining hypothesis. -/
  given : Text := []
  /-- The line `{B}` follows from `{A}` and `{A}->{B}`. -/
  modusPonens : Text := []
  /-- The line is `{A}->@{x}{B}`. -/
  universal : Text := []
  /-- The line is `?{x}{A}->{B}`. -/
  existential : Text := []
  deriving DecidableEq, Repr

namespace Templates

/-- These templates, and the `others` where they are empty. -/
def orElse (t others : Templates) : Templates :=
  let pick (own other : Text) := if own.isEmpty then other else own
  { itself := pick t.itself others.itself
    given := pick t.given others.given
    modusPonens := pick t.modusPonens others.modusPonens
    universal := pick t.universal others.universal
    existential := pick t.existential others.existential }

end Templates

end Sequitur
