import Mathlib
import Sequitur.Proofs.Steps

/-!
# Justifications are certificates

A justification carries a rule, the number of a schema or of a hypothesis, and the lines it cites.
`Justification.Certifies` says what these mean, in terms of trees and of substitution: which axiom
the line is, which hypothesis, or from which earlier lines it follows and how. Every justification
that a check gives is right in this sense, with discharge safety on or off and whatever else is
wrong with the proof.

The numbers of the schemas and those of the axioms that are no schemas are apart
(`Schema.number_le`), so that a number alone tells what is meant.
-/

namespace Sequitur

namespace Schema

/-- A schema in a numbered list has the family of the list and a number within its length. -/
theorem of_mem_numbered {family : Family} {schemas : List (Text × Expr)} {s : Schema}
    (h : s ∈ numbered family schemas) : s.family = family ∧ s.number ≤ schemas.length := by
  obtain ⟨i, hi, rfl⟩ := List.mem_mapIdx.1 h
  exact ⟨rfl, hi⟩

/-- There are ten schemas of logic and eight of arithmetic. -/
theorem number_le {s : Schema} (h : s ∈ all) :
    s.family = .propositional ∧ s.number ≤ 10 ∨ s.family = .arithmetic ∧ s.number ≤ 8 := by
  rcases List.mem_append.1 h with h | h
  · exact .inl (of_mem_numbered h)
  · exact .inr (of_mem_numbered h)

/-- The first schema that a formula is an instance of is a schema. -/
theorem IsFirst.mem_all {s : Schema} {e : Expr} (h : s.IsFirst e) : s ∈ all := by
  obtain ⟨before, after, hall, -⟩ := h
  simp [hall]

end Schema

/-- What a justification says of line `k`, whose formula is `e`: the axiom it is an instance of, the
first hypothesis it is, or the earlier lines it follows from. -/
def Justification.Certifies (p : Proof) (k : Nat) (e : Expr) (j : Justification) : Prop :=
  match j.rule with
  | .logic =>
    if j.number = Schema.universalInstantiation then e.IsUniversalInstance
    else if j.number = Schema.existentialGeneralization then e.IsExistentialInstance
    else ∃ s : Schema, s.family = .propositional ∧ s.number = j.number ∧ s.IsFirst e
  | .arithmetic =>
    if j.number = Schema.induction then e.IsInduction
    else ∃ s : Schema, s.family = .arithmetic ∧ s.number = j.number ∧ s.IsFirst e
  | .hypothesis =>
    ∃ n, j.number = n + 1 ∧ p.hypotheses[n]? = some e ∧ ∀ m < n, p.hypotheses[m]? ≠ some e
  | .modusPonens =>
    j.premise < k ∧ j.via < k ∧ ∃ a, p.formulas[j.premise]? = some (some a) ∧
      p.formulas[j.via]? = some (some (.implies a e))
  | .universal =>
    j.premise < k ∧ ∃ x a b, e = .implies a (.forAll x b) ∧
      p.formulas[j.premise]? = some (some (.implies a b)) ∧ ¬ a.Free x
  | .existential =>
    j.premise < k ∧ ∃ x a b, e = .implies (.exist x a) b ∧
      p.formulas[j.premise]? = some (some (.implies a b)) ∧ ¬ b.Free x
  | .other _ => False

namespace Context

variable {p : Proof} {safety : Bool} {k : Nat} {e : Expr} {j : Justification}

/-- A justification by a schema certifies the first schema that the line is an instance of. -/
theorem certifies_of_schema (he : e.IsFormula) (h : schema e = some (.ok j)) :
    j.Certifies p k e := by
  obtain ⟨s, hfirst, hj⟩ := (schema_eq_some_iff he).1 h
  cases hj
  rcases Schema.number_le hfirst.mem_all with ⟨hfamily, hnumber⟩ | ⟨hfamily, hnumber⟩
  · have hrule : schemaRule s = .logic := by simp [schemaRule, hfamily]
    have h11 : s.number ≠ Schema.universalInstantiation := by
      unfold Schema.universalInstantiation
      omega
    have h12 : s.number ≠ Schema.existentialGeneralization := by
      unfold Schema.existentialGeneralization
      omega
    simp only [Justification.Certifies, hrule, if_neg h11, if_neg h12]
    exact ⟨s, hfamily, rfl, hfirst⟩
  · have hrule : schemaRule s = .arithmetic := by simp [schemaRule, hfamily]
    have h9 : s.number ≠ Schema.induction := by
      unfold Schema.induction
      omega
    simp only [Justification.Certifies, hrule, if_neg h9]
    exact ⟨s, hfamily, rfl, hfirst⟩

/-- A justification by a quantifier axiom certifies that the line is an instance of it. -/
theorem certifies_of_quantifierAxiom (he : e.IsFormula) (h : quantifierAxiom e = some (.ok j)) :
    j.Certifies p k e := by
  rcases quantifierAxiom_cases he with ⟨hu, hq⟩ | ⟨hx, hq⟩ | ⟨-, -, c, hq⟩ | ⟨-, -, hq⟩
  · cases hq.symm.trans h
    exact hu
  · cases hq.symm.trans h
    exact hx
  · cases hq.symm.trans h
  · cases hq.symm.trans h

/-- The classification of a line gives no justification that is not right. -/
theorem certifies_of_classify (hp : p.WellFormed) (he : e.IsFormula)
    (h : (ofProof p safety).classify k e = some (.ok j)) : j.Certifies p k e := by
  rcases classify_eq_ok h with h | h | h | ⟨-, h | h | ⟨-, h | h⟩⟩
  · exact certifies_of_schema he h
  · obtain ⟨i, i', a, hj, hi, hi', ha, hae⟩ := modusPonens_eq_some hp he h
    cases hj
    exact ⟨hi, hi', a, ha, hae⟩
  · exact certifies_of_quantifierAxiom he h
  · obtain ⟨hind, rfl⟩ := (induction_eq_ok_iff he).1 h
    exact hind
  · obtain ⟨n, hn, hmin, hj⟩ := hypothesis_eq_some hp he h
    cases hj
    exact ⟨n, rfl, hn, hmin⟩
  · obtain ⟨x, a, b, i, rfl, rfl, hi, hline, hfree⟩ := universalRule_eq_ok hp he h
    exact ⟨hi, x, a, b, rfl, hline, hfree⟩
  · obtain ⟨x, a, b, i, rfl, rfl, hi, hline, hfree⟩ := existentialRule_eq_ok hp he h
    exact ⟨hi, x, a, b, rfl, hline, hfree⟩

end Context

namespace Proof

/-- Every justification is right. A line that carries one was read, and is the axiom or the
hypothesis that the justification names, or follows as it says from the earlier lines it cites;
other lines may be in error, and discharge safety may be on or off. -/
theorem certifies_of_justified {header : Text} {lines : List Text} {p : Proof} {safety : Bool}
    (hp : Proof.read header lines = .ok p) {k : Nat} {l : Line} {j : Justification}
    (hl : (p.check safety).lines[k]? = some l) (hj : l.justification? = some j) :
    ∃ e, p.formulas[k]? = some (some e) ∧ j.Certifies p k e := by
  have hwf := wellFormed_of_read hp
  obtain ⟨e, hk, hclass⟩ := classify_of_justification? hl hj
  exact ⟨e, hk, Context.certifies_of_classify hwf (hwf.isFormula hk) hclass⟩

/-- A universal rule in a proof of which another line is in error. -/
theorem certifies_of_justified_generalization :
    ∃ p l, Proof.read "P(x),R(x)|-Q->@xP(x)"
        ["P(x)", "R(0)", "P(x)->(Q->P(x))", "Q->P(x)", "Q->@xP(x)"] = .ok p ∧
      (p.check false).lines[4]? = some l ∧
      l.verdict = some (.ok { rule := .universal, premise := 3 }) ∧
      (p.check false).errors = [⟨2, .unproved⟩] ∧
      ∃ e, p.formulas[4]? = some (some e) ∧
        Justification.Certifies p 4 e { rule := .universal, premise := 3 } := by
  have hrun : (Proof.read "P(x),R(x)|-Q->@xP(x)"
        ["P(x)", "R(0)", "P(x)->(Q->P(x))", "Q->P(x)", "Q->@xP(x)"]).map
      (fun p => ((p.check false).lines[4]?.map Line.verdict, (p.check false).errors)) =
        .ok (some (some (.ok { rule := .universal, premise := 3 })), [⟨2, .unproved⟩]) := by
    cbv
  obtain ⟨p, hp, heq⟩ := exists_of_map_eq_ok hrun
  simp only [Prod.mk.injEq, Option.map_eq_some_iff] at heq
  obtain ⟨⟨l, hl, hj⟩, herrors⟩ := heq
  exact ⟨p, l, hp, hl, hj, herrors, certifies_of_justified hp hl (Line.verdict_eq_ok_iff.1 hj).1⟩

end Proof

end Sequitur
