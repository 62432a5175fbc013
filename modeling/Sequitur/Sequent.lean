import Sequitur.Expr.Parser

/-!
# Sequents

A sequent `H₁,…,Hₙ|-G` claims the goal `G` from the hypotheses. Its text is split at the first
`|-` outside parentheses and, before that, at the commas outside parentheses; commas inside them
belong to argument lists. `Sequent.format` puts the parts together again.
-/

namespace Sequitur

/-- A formula and the text it was read from. -/
structure Statement where
  text : Text
  formula : Expr
  deriving Inhabited, Repr

/-- A claim: the goal follows from the hypotheses. -/
structure Sequent where
  hypotheses : List Statement
  goal : Statement
  deriving Repr

/-- Why a text is no sequent. -/
inductive SequentError where
  | noTurnstile
  | malformed (error : SyntaxError)
  deriving DecidableEq, Repr

/-- The wording of the error. -/
def SequentError.message : SequentError → Text
  | .noTurnstile => "sequent has no \"|-\""
  | .malformed e => e.message

namespace Sequent

/-- What separates the hypotheses from the goal. -/
def turnstile : Text := "|-"

/-- Puts a byte before the first part. -/
def prependByte (b : Byte) : List Text × Text → List Text × Text
  | ([], goal) => ([[b]], goal)
  | (part :: parts, goal) => ((b :: part) :: parts, goal)

/-- The parts between the commas before the turnstile, and the text after it, for a text that
stands inside `depth` parentheses. -/
def splitFrom (depth : Int) : Text → Option (List Text × Text)
  | [] => none
  | b :: rest =>
    if b = 40 then (splitFrom (depth + 1) rest).map (prependByte b)
    else if b = 41 then (splitFrom (depth - 1) rest).map (prependByte b)
    else if b = 44 ∧ depth = 0 then
      (splitFrom depth rest).map fun (parts, goal) => ([] :: parts, goal)
    else if b = 124 ∧ depth = 0 then
      match rest with
      | 45 :: goal => some ([[]], goal)
      | _ => (splitFrom depth rest).map (prependByte b)
    else (splitFrom depth rest).map (prependByte b)

/-- The texts of the hypotheses and of the goal. A single empty part is no hypothesis at all. -/
def split (text : Text) : Except SequentError (List Text × Text) :=
  match splitFrom 0 text.stripSpace with
  | none => .error .noTurnstile
  | some (parts, goal) => .ok (if parts = [[]] then [] else parts, goal)

/-- The text of a sequent. -/
def format (hypotheses : List Text) (goal : Text) : Text :=
  Text.join "," hypotheses ++ turnstile ++ goal

/-- Reads a formula and keeps its text. -/
def readStatement (text : Text) : Except SequentError Statement :=
  match text.parseFormula with
  | .ok e => .ok ⟨text, e⟩
  | .error e => .error (.malformed e)

/-- Reads a sequent: the hypotheses in order, then the goal. -/
def parse (text : Text) : Except SequentError Sequent := do
  let (hypotheses, goal) ← split text
  let hypotheses ← hypotheses.mapM readStatement
  let goal ← readStatement goal
  return ⟨hypotheses, goal⟩

end Sequent

end Sequitur
