import Sequitur.Deduction.Fragment
import Sequitur.Proof.Check

/-!
# Discharging a hypothesis

The deduction theorem as a transformation of proofs. From a checked proof of `F` from hypotheses of
which the last is `H`, `Result.discharge` makes one of `H->F` from the others: every line `L`
becomes a fragment that ends in `H->L`, chosen by the justification of `L`. The result can be
verified by checking it again, whatever the templates were.
-/

namespace Sequitur

/-- A proof as texts: hypotheses, goal and lines. -/
structure Rewriting where
  hypotheses : List Text
  goal : Text
  lines : List Text
  deriving DecidableEq, Repr

namespace Rewriting

/-- The sequent of the proof. -/
def header (r : Rewriting) : Text := Sequent.format r.hypotheses r.goal

/-- The text of the proof, each line ended by a line feed. -/
def text (r : Rewriting) : Text := (r.header :: r.lines).flatMap (· ++ [Byte.newline])

end Rewriting

/-- Why a hypothesis cannot be discharged. -/
inductive DischargeError where
  | noHypothesis
  /-- The proof has errors. -/
  | invalid (errors : List LineError)
  /-- A line, counted from one, has no justification. -/
  | unjustified (line : Nat)
  /-- A line, counted from one, has a justification for which there is no fragment. -/
  | unsupported (line : Nat) (justification : Justification)
  deriving DecidableEq, Repr

/-- The wording of the error. -/
def DischargeError.message : DischargeError → Text
  | .noHypothesis => "deduction: sequent has no hypothesis to discharge"
  | .invalid errors => "deduction: proof has errors: " ++ LineError.summary errors
  | .unjustified line =>
    "deduction: proof has errors: line " ++ Text.ofNat line ++ " is not justified"
  | .unsupported line j =>
    "deduction: line " ++ Text.ofNat line ++ ": unsupported justification " ++ j.title

namespace Discharge

/-- The fragment for a line with formula `e` and justification `j`, when `h` is discharged. -/
def fragment? (p : Proof) (t : Templates) (h e : Expr) (j : Justification) : Option (List Text) :=
  let hs := h.canonical
  if e.same h then
    some (Template.fill t.itself { hypothesis := hs })
  else if j.isInstance then
    some (Template.fill t.given { hypothesis := hs, left := e.canonical })
  else
    match j.rule, e with
    | .modusPonens, _ =>
      (p.formulas[j.premise]?).join.map fun a =>
        Template.fill t.modusPonens { hypothesis := hs, left := a.canonical, right := e.canonical }
    | .universal, .binary _ a (.quantified _ x b) =>
      some (Template.fill t.universal
        { hypothesis := hs, left := a.canonical, right := b.canonical, name := x })
    | .existential, .binary _ (.quantified _ x a) b =>
      some (Template.fill t.existential
        { hypothesis := hs, left := a.canonical, right := b.canonical, name := x })
    | _, _ => none

/-- The fragment for a line, when `h` is discharged. -/
def fragment (p : Proof) (t : Templates) (h : Expr) (l : Line) :
    Except DischargeError (List Text) :=
  match l.formula, l.justification? with
  | some e, some j =>
    match fragment? p t h e j with
    | some lines => .ok lines
    | none => .error (.unsupported (l.index + 1) j)
  | _, _ => .error (.unjustified (l.index + 1))

end Discharge

/-- Discharges the last hypothesis of a checked proof. -/
def Result.discharge (r : Result) (templates : Templates) : Except DischargeError Rewriting := do
  let hypotheses := r.proof.sequent.hypotheses
  match hypotheses.getLast? with
  | none => .error .noHypothesis
  | some h =>
    if !r.errors.isEmpty then .error (.invalid r.errors)
    match r.proof.last? with
    | none => .error (.unjustified r.lines.length)
    | some last =>
      let fragments ← r.lines.mapM
        (Discharge.fragment r.proof templates.withDefaults h.formula)
      return { hypotheses := hypotheses.dropLast.map Statement.text
               goal := (Expr.implies h.formula last).canonical
               lines := fragments.flatten }

/-- Why a rewritten proof is not to be trusted. -/
inductive Unverified where
  | sequent (error : SequentError)
  | lines (errors : List LineError)
  deriving DecidableEq, Repr

/-- The wording of the failure. -/
def Unverified.message (u : Unverified) : Text :=
  "deduction: rewritten proof does not verify: " ++
    match u with
    | .sequent e => e.message
    | .lines errors => LineError.summary errors

/-- Checks a rewritten proof. There is no result when its sequent cannot be read. -/
def Rewriting.recheck (r : Rewriting) : Except SequentError Result := do
  let p ← Proof.read r.header r.lines
  return p.check false

/-- What keeps a rewritten proof from being verified, given its check. -/
def Unverified.ofRecheck : Except SequentError Result → Option Unverified
  | .error e => some (.sequent e)
  | .ok result => if result.ok then none else some (.lines result.errors)

end Sequitur
