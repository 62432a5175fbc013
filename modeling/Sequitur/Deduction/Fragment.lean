import Sequitur.Deduction.Template

/-!
# The built-in fragments

A `Pattern` is a formula over the placeholders: it says what a line of a fragment is before the
placeholders are filled in. The built-in templates are the texts of five lists of patterns, each of
which derives `H->L` from what the rule that justified the line `L` provides.
-/

namespace Sequitur

/-- A formula over the placeholders of a template. -/
inductive Pattern where
  /-- The discharged hypothesis. -/
  | H
  | A
  | B
  | implies (left right : Pattern)
  | and (left right : Pattern)
  /-- For every `x`. -/
  | all (body : Pattern)
  /-- For some `x`. -/
  | some (body : Pattern)
  deriving DecidableEq, Repr

namespace Pattern

/-- A placeholder in a template. -/
def placeholder (b : Byte) : Text := [123, b, 125]

/-- The text of a pattern inside a larger one. -/
def text : Pattern → Text
  | H => placeholder 72
  | A => placeholder 65
  | B => placeholder 66
  | implies l r => "(" ++ l.text ++ "->" ++ r.text ++ ")"
  | and l r => "(" ++ l.text ++ "&" ++ r.text ++ ")"
  | all b => "(@" ++ placeholder 120 ++ b.text ++ ")"
  | some b => "(?" ++ placeholder 120 ++ b.text ++ ")"

/-- The text of a pattern on a line of its own, where an implication needs no parentheses. -/
def line : Pattern → Text
  | implies l r => l.text ++ "->" ++ r.text
  | p => p.text

/-- The template with these lines. -/
def template (patterns : List Pattern) : Text := Text.join [Byte.newline] (patterns.map line)

/-- From nothing, `H->H`. -/
def itselfFragment : List Pattern :=
  [H.implies (H.implies H),
   (H.implies (H.implies H)).implies ((H.implies ((H.implies H).implies H)).implies (H.implies H)),
   (H.implies ((H.implies H).implies H)).implies (H.implies H),
   H.implies ((H.implies H).implies H),
   H.implies H]

/-- From `A`, `H->A`. -/
def givenFragment : List Pattern :=
  [A,
   A.implies (H.implies A),
   H.implies A]

/-- From `H->A` and `H->(A->B)`, `H->B`. -/
def modusPonensFragment : List Pattern :=
  [(H.implies A).implies ((H.implies (A.implies B)).implies (H.implies B)),
   (H.implies (A.implies B)).implies (H.implies B),
   H.implies B]

/-- From `H->(A->B)`, where `x` is free in neither `H` nor `A`, `H->(A->(@xB))`, by way of
`(H&A)->B`. -/
def universalFragment : List Pattern :=
  let HA := H.and A
  let AB := A.implies B
  let Q := B.all
  let R := HA.implies Q
  let S := A.implies R
  let T := A.implies Q
  let U := A.implies HA
  [HA.implies H,
   HA.implies A,
   (H.implies AB).implies (HA.implies (H.implies AB)),
   HA.implies (H.implies AB),
   (HA.implies H).implies ((HA.implies (H.implies AB)).implies (HA.implies AB)),
   (HA.implies (H.implies AB)).implies (HA.implies AB),
   HA.implies AB,
   (HA.implies A).implies ((HA.implies AB).implies (HA.implies B)),
   (HA.implies AB).implies (HA.implies B),
   HA.implies B,
   R,
   H.implies U,
   R.implies S,
   S,
   S.implies (H.implies S),
   H.implies S,
   U.implies (S.implies T),
   (U.implies (S.implies T)).implies (H.implies (U.implies (S.implies T))),
   H.implies (U.implies (S.implies T)),
   (H.implies U).implies ((H.implies (U.implies (S.implies T))).implies (H.implies (S.implies T))),
   (H.implies (U.implies (S.implies T))).implies (H.implies (S.implies T)),
   H.implies (S.implies T),
   (H.implies S).implies ((H.implies (S.implies T)).implies (H.implies T)),
   (H.implies (S.implies T)).implies (H.implies T),
   H.implies T]

/-- From `H->(A->B)`, where `x` is free in neither `H` nor `B`, `H->((?xA)->B)`, by way of
`A->(H->B)`. -/
def existentialFragment : List Pattern :=
  let AB := A.implies B
  let HB := H.implies B
  let HA := H.implies A
  let Q := A.some
  let QB := Q.implies B
  let QH := Q.implies H
  let R := Q.implies HB
  let HAB := H.implies AB
  let S := HAB.implies HB
  let T := HA.implies S
  let U := R.implies QB
  let V := QH.implies U
  [HAB.implies (A.implies HAB),
   A.implies HAB,
   A.implies HA,
   T,
   T.implies (A.implies T),
   A.implies T,
   (A.implies HA).implies ((A.implies T).implies (A.implies S)),
   (A.implies T).implies (A.implies S),
   A.implies S,
   (A.implies HAB).implies ((A.implies S).implies (A.implies HB)),
   (A.implies S).implies (A.implies HB),
   A.implies HB,
   R,
   R.implies (H.implies R),
   H.implies R,
   H.implies QH,
   V,
   V.implies (H.implies V),
   H.implies V,
   (H.implies QH).implies ((H.implies V).implies (H.implies U)),
   (H.implies V).implies (H.implies U),
   H.implies U,
   (H.implies R).implies ((H.implies U).implies (H.implies QB)),
   (H.implies U).implies (H.implies QB),
   H.implies QB]

end Pattern

/-- The built-in templates. -/
def Templates.builtIn : Templates where
  itself := Pattern.template Pattern.itselfFragment
  given := Pattern.template Pattern.givenFragment
  modusPonens := Pattern.template Pattern.modusPonensFragment
  universal := Pattern.template Pattern.universalFragment
  existential := Pattern.template Pattern.existentialFragment

/-- The templates with the built-in ones where they are empty. -/
def Templates.withDefaults (t : Templates) : Templates := t.orElse .builtIn

end Sequitur
