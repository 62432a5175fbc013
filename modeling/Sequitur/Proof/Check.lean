import Sequitur.Proof.Verdict
import Sequitur.Schema.Basic
import Sequitur.Token

/-!
# Checking a proof

The lines are classified one by one, each with reference to earlier lines only. A line is tried, in
this order, as an instance of a schema, as the conclusion of modus ponens, as an instance of a
quantifier axiom or of induction, as a hypothesis, and as the conclusion of a quantifier rule. The
first that fits justifies it. Some rules end the search with an error; an induction over a variable
that is not free is reported only if nothing later justifies the line. Errors never stop the
check.

With discharge safety on, a line that would need a quantifier rule may not quantify over a variable
that is free in the last hypothesis.
-/

namespace Sequitur

/-- What the classification of every line refers to. -/
structure Context where
  lines : List (Option Expr)
  index : Index
  /-- The variables no quantifier rule may use, and the hypothesis they are free in. -/
  banned : List Text
  bannedBy : Text

/-- What a rule says of a line: nothing, that it justifies it, or that it is wrong. -/
abbrev Attempt := Option (Except Problem Justification)

namespace Attempt

/-- The rule justifies the line. -/
def justify (j : Justification) : Attempt := some (.ok j)

/-- The rule ends the search. -/
def reject (p : Problem) : Attempt := some (.error p)

/-- The justification, if there is one. -/
def justification? : Attempt → Option Justification
  | some (.ok j) => some j
  | _ => none

/-- The problem, if there is one. -/
def problem? : Attempt → Option Problem
  | some (.error p) => some p
  | _ => none

end Attempt

namespace Context

/-- The context of a proof. -/
def ofProof (p : Proof) (dischargeSafety : Bool) : Context :=
  let last := if dischargeSafety then p.sequent.hypotheses.getLast? else none
  { lines := p.formulas
    index := Index.ofProof p
    banned := (last.map fun h => h.formula.freeVariables).getD []
    bannedBy := (last.map Statement.text).getD [] }

/-- The left side of line `j`, when it is an implication. -/
def antecedent? (c : Context) (j : Nat) : Option Expr :=
  match c.lines[j]? with
  | some (some (.implies left _)) => some left
  | _ => none

/-- The first line before line `k` with the same text as `e`. -/
def earlier? (c : Context) (e : Expr) (k : Nat) : Option Nat :=
  match c.index.firstLine? e.canonical with
  | some i => if i < k then some i else none
  | none => none

/-- An instance of a schema. -/
def schema (e : Expr) : Attempt :=
  match Schema.find? e with
  | none => none
  | some s =>
    .justify { rule := if s.family = .arithmetic then .arithmetic else .logic, number := s.number }

/-- Lines `A` and `A->e` before line `k`: the first such implication, with the first line `A`. -/
def modusPonens (c : Context) (k : Nat) (e : Expr) : Attempt :=
  ((c.index.implications e.canonical).takeWhile (· < k)).findSome? fun j => do
    let a ← c.antecedent? j
    let i ← c.earlier? a k
    Attempt.justify { rule := .modusPonens, premise := i, via := j }

/-- `(@xA)->A[x:=t]`. -/
def universalInstance : Expr → Except CaptureError Bool
  | .implies (.forAll x a) inst => Substitution.check a inst x
  | _ => .ok false

/-- `A[x:=t]->(?xA)`. -/
def existentialInstance : Expr → Except CaptureError Bool
  | .implies inst (.exist x a) => Substitution.check a inst x
  | _ => .ok false

/-- An instance of a quantifier axiom. A captured variable counts only if the other axiom does not
fit either. -/
def quantifierAxiom (e : Expr) : Attempt :=
  match universalInstance e with
  | .ok true => .justify { rule := .logic, number := Schema.universalInstantiation }
  | universal =>
    match existentialInstance e with
    | .ok true => .justify { rule := .logic, number := Schema.existentialGeneralization }
    | existential =>
      match universal, existential with
      | .error capture, _ => .reject (.capture capture)
      | .ok _, .error capture => .reject (.capture capture)
      | .ok _, .ok _ => none

/-- `(A[x:=0] & @x(A->A[x:=x']))->A`. What stands in place of `x` is compared by its text. -/
def induction : Expr → Attempt
  | .implies (.and base (.forAll x (.implies hypothesis step))) conclusion =>
    let text := conclusion.canonical
    if !conclusion.isFree x then
      .reject (.notFree x text)
    else if base.canonical = text.replaceIdent x "0" ∧ hypothesis.canonical = text ∧
        step.canonical = text.replaceIdent x (x ++ "'") then
      .justify { rule := .arithmetic, number := Schema.induction }
    else
      none
  | _ => none

/-- A hypothesis of the sequent. -/
def hypothesis (c : Context) (e : Expr) : Attempt := do
  let n ← c.index.hypothesis? e.canonical
  Attempt.justify { rule := .hypothesis, number := n + 1 }

/-- The variable of a tree that is a quantifier. -/
def quantifiedName (e : Expr) : List Text := if e.kind.isQuantifier then [e.name] else []

/-- The variables a line quantifies over: those bound in it, and those of quantifiers that are a
side of its implication. -/
def quantifiedNames (e : Expr) : List Text :=
  e.boundVariables ++
    match e with
    | .implies left right => quantifiedName left ++ quantifiedName right
    | _ => []

/-- The first banned variable the line quantifies over. -/
def bannedName (c : Context) (e : Expr) : Attempt :=
  if c.banned.isEmpty then none
  else
    match (Text.sort (quantifiedNames e)).find? c.banned.contains with
    | none => none
    | some x => .reject (.banned x c.bannedBy)

/-- `A->(@xB)` from an earlier `A->B`, where `x` is not free in `A`. -/
def universalRule (c : Context) (k : Nat) : Expr → Attempt
  | .implies a (.forAll x b) =>
    match c.earlier? (.implies a b) k with
    | none => none
    | some i =>
      if a.isFree x then .reject (.occursFree x a.canonical)
      else .justify { rule := .universal, premise := i }
  | _ => none

/-- `(?xA)->B` from an earlier `A->B`, where `x` is not free in `B`. -/
def existentialRule (c : Context) (k : Nat) : Expr → Attempt
  | .implies (.exist x a) b =>
    match c.earlier? (.implies a b) k with
    | none => none
    | some i =>
      if b.isFree x then .reject (.occursFree x b.canonical)
      else .justify { rule := .existential, premise := i }
  | _ => none

/-- The justification of an attempt, and nothing for an error. -/
def justified : Attempt → Attempt
  | some (.ok j) => some (.ok j)
  | _ => none

/-- The rules that are tried on a line, in order: what the first that answers says. -/
def attempt (c : Context) (k : Nat) (e : Expr) : Attempt :=
  schema e <|> c.modusPonens k e <|> quantifierAxiom e <|> justified (induction e) <|>
    c.hypothesis e <|> c.bannedName e <|> c.universalRule k e <|> c.existentialRule k e <|>
    induction e

/-- Classifies line `k`, whose formula is `e`. What no rule says anything of is not proved. -/
def classify (c : Context) (k : Nat) (e : Expr) : Attempt :=
  c.attempt k e <|> Attempt.reject .unproved

/-- What checking says of line `k`. A line that cannot be read is not classified. -/
def line (c : Context) (k : Nat) (l : ProofLine) : Line :=
  let attempt : Attempt := match l.parsed with
    | .error e => .reject (.malformed e)
    | .ok e => c.classify k e
  { index := k
    source := l.source
    formula := l.formula?
    justification? := attempt.justification?
    error? := attempt.problem?.map (LineError.mk (k + 1)) }

end Context

/-- Whether the last line is the goal. -/
def Proof.reachesGoal (p : Proof) : Bool :=
  match p.last? with
  | none => false
  | some e => e.same p.sequent.goal.formula

/-- Checks every line of a proof, and that the last one is the goal. -/
def Proof.check (p : Proof) (dischargeSafety : Bool) : Result :=
  let context := Context.ofProof p dischargeSafety
  let lines := p.lines.mapIdx context.line
  { proof := p
    lines := lines
    errors := lines.filterMap Line.error? ++
      if p.reachesGoal then [] else [⟨0, .wrongGoal⟩] }

end Sequitur
