import Sequitur.Sequent
import Sequitur.Expr.Canonical
import Std.Data.HashMap

/-!
# Proofs and their index

A proof is a sequent and a list of lines. A line that cannot be read stays in the proof, with the
error. The index of a proof answers by canonical text: the first line with that text, the lines
that are implications with that consequent, and the first such hypothesis. It is built from the
last line to the first, so that an earlier line replaces a later one.
-/

namespace Sequitur

/-- A line of a proof as it was written, and what reading it gave. -/
structure ProofLine where
  source : Text
  parsed : Except SyntaxError Expr

/-- The formula of a line, unless it could not be read. -/
def ProofLine.formula? (l : ProofLine) : Option Expr := l.parsed.toOption

/-- A sequent and the lines that are to prove it. -/
structure Proof where
  header : Text
  sequent : Sequent
  lines : List ProofLine

namespace Proof

/-- Reads a line. -/
def readLine (source : Text) : ProofLine := ⟨source.stripSpace, source.parseFormula⟩

/-- Reads a proof. Only the sequent can make this fail. -/
def read (header : Text) (lines : List Text) : Except SequentError Proof := do
  let sequent ← Sequent.parse header
  return ⟨header.stripSpace, sequent, lines.map readLine⟩

/-- The formulas of the lines. -/
def formulas (p : Proof) : List (Option Expr) := p.lines.map ProofLine.formula?

/-- The formula of the last line. -/
def last? (p : Proof) : Option Expr := p.formulas.getLast?.join

/-- The formulas of the hypotheses. -/
def hypotheses (p : Proof) : List Expr := p.sequent.hypotheses.map Statement.formula

end Proof

/-- Look-up by canonical text in the lines and hypotheses of a proof. -/
structure Index where
  first : Std.HashMap Text Nat
  consequents : Std.HashMap Text (List Nat)
  hypotheses : Std.HashMap Text Nat

namespace Index

/-- The index of nothing. -/
def empty : Index := ⟨∅, ∅, ∅⟩

/-- Adds line `k`, which stands before all lines added so far. -/
def addLine (index : Index) (k : Nat) : Option Expr → Index
  | none => index
  | some e =>
    let index := { index with first := index.first.insert e.canonical k }
    match e with
    | .implies _ right =>
      let key := right.canonical
      { index with
        consequents := index.consequents.insert key (k :: index.consequents.getD key []) }
    | _ => index

/-- Adds the lines from line `k` on. -/
def addLines (index : Index) (k : Nat) : List (Option Expr) → Index
  | [] => index
  | line :: rest => (addLines index (k + 1) rest).addLine k line

/-- Adds hypothesis `k`, which stands before all hypotheses added so far. -/
def addHypothesis (index : Index) (k : Nat) (e : Expr) : Index :=
  { index with hypotheses := index.hypotheses.insert e.canonical k }

/-- Adds the hypotheses from hypothesis `k` on. -/
def addHypotheses (index : Index) (k : Nat) : List Expr → Index
  | [] => index
  | h :: rest => (addHypotheses index (k + 1) rest).addHypothesis k h

/-- The index of a proof. -/
def ofProof (p : Proof) : Index :=
  (Index.empty.addLines 0 p.formulas).addHypotheses 0 p.hypotheses

/-- The first line with the canonical text `key`. -/
def firstLine? (index : Index) (key : Text) : Option Nat := index.first[key]?

/-- The implications whose right side has the canonical text `key`, in line order. -/
def implications (index : Index) (key : Text) : List Nat := index.consequents.getD key []

/-- The first hypothesis with the canonical text `key`. -/
def hypothesis? (index : Index) (key : Text) : Option Nat := index.hypotheses[key]?

end Index

end Sequitur
