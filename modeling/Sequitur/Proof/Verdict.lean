import Sequitur.Proof.Basic
import Sequitur.Substitution

/-!
# Verdicts on the lines of a proof

Checking a line justifies it by a rule or finds an error. Rules that cite lines count them from zero
and are shown counting from one. Errors carry their cause, and one function words them.
-/

namespace Sequitur

/-- How a line is justified. Codes outside the known ones are kept as they are. -/
inductive Rule where
  | logic
  | arithmetic
  | hypothesis
  | modusPonens
  | universal
  | existential
  | other (code : Int)
  deriving DecidableEq, Repr

namespace Rule

/-- The rule with a given code. -/
def ofCode : Int → Rule
  | 0 => logic
  | 1 => arithmetic
  | 2 => hypothesis
  | 3 => modusPonens
  | 4 => universal
  | 5 => existential
  | code => other code

/-- The name of a rule. -/
def title : Rule → Text
  | logic => "Axiom"
  | arithmetic => "ArithAxiom"
  | hypothesis => "Hypothesis"
  | modusPonens => "ModusPonens"
  | universal => "UniversalRule"
  | existential => "ExistentialRule"
  | other _ => "?"

end Rule

/-- Why a line holds. -/
structure Justification where
  rule : Rule
  /-- The number of the schema, or of the hypothesis counted from one. -/
  number : Nat := 0
  /-- The line of the antecedent for modus ponens, and of the premise for a quantifier rule. -/
  premise : Nat := 0
  /-- The line of the implication for modus ponens. -/
  via : Nat := 0
  deriving DecidableEq, Repr

namespace Justification

/-- The justification as it is shown. -/
def title (j : Justification) : Text :=
  match j.rule with
  | .logic | .arithmetic | .hypothesis => j.rule.title ++ " " ++ Text.ofNat j.number
  | .modusPonens =>
    j.rule.title ++ " " ++ Text.ofNat (j.premise + 1) ++ "," ++ Text.ofNat (j.via + 1)
  | .universal | .existential => j.rule.title ++ " " ++ Text.ofNat (j.premise + 1)
  | .other _ => j.rule.title

/-- Whether the line stands on its own, as an axiom or a hypothesis. -/
def isInstance (j : Justification) : Bool :=
  match j.rule with
  | .logic | .arithmetic | .hypothesis => true
  | _ => false

end Justification

/-- The kinds of error. Codes outside the known ones are kept as they are. -/
inductive ErrorKind where
  | malformed
  | capture
  | freeVariable
  | unproved
  | wrongGoal
  | other (code : Int)
  deriving DecidableEq, Repr

namespace ErrorKind

/-- The kind with a given code. -/
def ofCode : Int → ErrorKind
  | 0 => malformed
  | 1 => capture
  | 2 => freeVariable
  | 3 => unproved
  | 4 => wrongGoal
  | code => other code

/-- The name of a kind. -/
def title : ErrorKind → Text
  | malformed => "syntax"
  | capture => "capture"
  | freeVariable => "free-variable"
  | unproved => "unproved"
  | wrongGoal => "wrong-goal"
  | other _ => "unknown"

end ErrorKind

/-- What is wrong with a line, or with the proof. -/
inductive Problem where
  /-- The line cannot be read. -/
  | malformed (error : SyntaxError)
  /-- The line is an instance of a quantifier axiom but for a captured variable. -/
  | capture (error : CaptureError)
  /-- The line quantifies over a variable that is free in the hypothesis to be discharged. -/
  | banned (x hypothesis : Text)
  /-- The line is induction over a variable that is not free in its conclusion. -/
  | notFree (x formula : Text)
  /-- A quantifier rule over a variable that is free in the other side. -/
  | occursFree (x formula : Text)
  /-- No rule gives the line. -/
  | unproved
  /-- The last line is not the goal. -/
  | wrongGoal
  deriving DecidableEq, Repr

namespace Problem

/-- The kind of a problem. -/
def kind : Problem → ErrorKind
  | malformed _ => .malformed
  | capture _ => .capture
  | banned _ _ | notFree _ _ | occursFree _ _ => .freeVariable
  | unproved => .unproved
  | wrongGoal => .wrongGoal

/-- The wording of a problem. -/
def message : Problem → Text
  | malformed e => e.message
  | capture e => e.message
  | banned x h =>
    "quantifier rule used over variable " ++ x ++ ", which occurs free in hypothesis " ++ h
  | notFree x f => "variable " ++ x ++ " does not occur free in formula " ++ f
  | occursFree x f => "variable " ++ x ++ " occurs free in formula " ++ f
  | unproved => "not proved"
  | wrongGoal => "proved the wrong statement"

/-- Whether the problem is that of another operation on the line. -/
def hasCause : Problem → Bool
  | malformed _ | capture _ => true
  | _ => false

end Problem

/-- A problem and the line it is on, counted from one; zero stands for the whole proof. -/
structure LineError where
  line : Nat
  problem : Problem
  deriving DecidableEq, Repr

namespace LineError

/-- The wording of the error. -/
def message (e : LineError) : Text :=
  if e.line = 0 then e.problem.message
  else "(" ++ Text.ofNat e.line ++ ") " ++ e.problem.message

/-- The first of several errors, and how many more there are. -/
def summary : List LineError → Text
  | [] => "no errors"
  | [e] => e.message
  | e :: rest => e.message ++ " (and " ++ Text.ofNat rest.length ++ " more)"

end LineError

/-- What checking says of a line: why it holds, or what is wrong with it. -/
structure Line where
  /-- The position of the line, counted from zero. -/
  index : Nat
  source : Text
  /-- The formula of the line, unless it could not be read. -/
  formula : Option Expr
  justification? : Option Justification
  error? : Option LineError

namespace Line

/-- The problem or the justification, as it is shown beside the line. -/
def tag (l : Line) : Text :=
  match l.error?, l.justification? with
  | some e, _ => e.problem.message
  | none, some j => j.title
  | none, none => []

/-- The kind of error or the rule by which the line is counted. -/
def outcome (l : Line) : Text :=
  match l.error?, l.justification? with
  | some e, _ => e.problem.kind.title
  | none, some j => j.rule.title
  | none, none => "unknown"

end Line

/-- What checking says of a proof. -/
structure Result where
  proof : Proof
  lines : List Line
  errors : List LineError

/-- Whether the proof has no errors. -/
def Result.ok (r : Result) : Bool := r.errors.isEmpty

end Sequitur
