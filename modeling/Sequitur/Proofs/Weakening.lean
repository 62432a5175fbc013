import Mathlib
import Sequitur.Proofs.Safety
import Sequitur.Proofs.Verification

/-!
# Weakening

A proof without errors has none under more hypotheses. Hypotheses are looked up after the axioms
and modus ponens and before the quantifier rules, and no other rule looks at them. So more of them
change neither what the rules before say (`Context.groundRules_congr`) nor what the rules after say,
and where a line is one of the new hypotheses it is justified as such, whatever the rules after
would say of it.
-/

namespace Sequitur

/-- What the justification of a line can become when hypotheses are added, repeated or put in
another order. -/
inductive Justification.WeakensTo (j : Justification) : Justification → Prop
  | same : WeakensTo j j
  /-- The line is a hypothesis as before, in another place. -/
  | renumbered {n : Nat} : j.rule = .hypothesis → WeakensTo j { j with number := n }
  /-- The line was given by a quantifier rule and is now a hypothesis. -/
  | given {n : Nat} : j.rule = .universal ∨ j.rule = .existential →
      WeakensTo j { rule := .hypothesis, number := n }

namespace Context

/-- The rules that are tried before the hypotheses are looked up. -/
def groundRules (c : Context) (k : Nat) (e : Expr) : Attempt :=
  schema e <|> c.modusPonens k e <|> quantifierAxiom e <|> justified (induction e)

/-- The rules before the banned variables are the ground rules and then the hypotheses. -/
theorem firstRules_eq_orElse (c : Context) (k : Nat) (e : Expr) :
    c.firstRules k e = (c.groundRules k e <|> c.hypothesis e) := by
  simp only [firstRules, groundRules, Option.orElse_eq_orElse, Option.orElse_eq_or, Option.or_assoc]

section
variable {p q : Proof} {k : Nat} {e : Expr} {j : Justification}

/-- The lines before line `k` decide what the ground rules say of it, whatever the hypotheses
are. -/
theorem groundRules_congr (h : q.formulas.take k = p.formulas.take k) (e : Expr) :
    (ofProof q false).groundRules k e = (ofProof p false).groundRules k e := by
  unfold groundRules
  rw [modusPonens_congr h]

/-- What the ground rules say of a line is what is said of it in the end. -/
theorem classify_of_groundRules {r : Except Problem Justification}
    (h : (ofProof p false).groundRules k e = some r) :
    (ofProof p false).classify k e = some r := by
  refine (classify_of_firstRules ?_).2
  rw [firstRules_eq_orElse, h]
  rfl

/-- The rules before the hypotheses leave the line to them and to the quantifier rules. -/
theorem classify_of_groundRules_eq_none (h : (ofProof p false).groundRules k e = none) :
    (ofProof p false).classify k e = some ((((ofProof p false).hypothesis e).or
      ((ofProof p false).lastRules k e)).getD (.error .unproved)) := by
  rw [classify_eq_attempt, attempt_eq_orElse, firstRules_eq_orElse, h, bannedName_of_safety_off]
  cases (ofProof p false).hypothesis e <;> rfl

variable (hp : p.WellFormed) (hq : q.WellFormed) (he : e.IsFormula)
include hp hq he

/-- A line that is justified stays so where the hypotheses include those of before. -/
theorem classify_of_subset (hlines : q.formulas.take k = p.formulas.take k)
    (hsub : ∀ h ∈ p.hypotheses, h ∈ q.hypotheses)
    (hj : (ofProof p false).classify k e = some (.ok j)) :
    ∃ j', (ofProof q false).classify k e = some (.ok j') ∧ j.WeakensTo j' := by
  have hground := groundRules_congr hlines e
  have hlast : (ofProof q false).lastRules k e = (ofProof p false).lastRules k e := by
    unfold lastRules
    rw [universalRule_congr hlines, existentialRule_congr hlines]
  cases hp' : (ofProof p false).groundRules k e with
  | some r =>
    rw [hp'] at hground
    cases (classify_of_groundRules hp').symm.trans hj
    exact ⟨j, classify_of_groundRules hground, .same⟩
  | none =>
    rw [hp'] at hground
    have hi : justified (induction e) = none := by
      simp only [groundRules, Option.orElse_eq_none] at hp'
      exact hp'.2.2.2
    rw [classify_of_groundRules_eq_none hp'] at hj
    rw [classify_of_groundRules_eq_none hground, hlast]
    cases hgiven : (ofProof q false).hypothesis e with
    | none =>
      have hnot : e ∉ p.hypotheses := mt (hsub e) ((hypothesis_eq_none_iff hq he).1 hgiven)
      rw [(hypothesis_eq_none_iff hp he).2 hnot] at hj
      exact ⟨j, hj, .same⟩
    | some r =>
      obtain ⟨n, -, -, rfl⟩ := hypothesis_eq_some hq he hgiven
      refine ⟨_, rfl, ?_⟩
      cases hgiven' : (ofProof p false).hypothesis e with
      | some r =>
        obtain ⟨m, -, -, rfl⟩ := hypothesis_eq_some hp he hgiven'
        rw [hgiven'] at hj
        cases hj
        exact .renumbered rfl
      | none =>
        rw [hgiven', Option.none_or] at hj
        cases hrules : (ofProof p false).lastRules k e with
        | none =>
          rw [hrules] at hj
          cases hj
        | some r =>
          rw [hrules] at hj
          cases hj
          exact .given (rule_of_lastRules hi hrules)

end

end Context

namespace Proof

/-- There is a proof with the same lines and goal under any hypotheses. -/
theorem exists_read_hypotheses {header : Text} {lines : List Text} {p : Proof}
    (hread : Proof.read header lines = .ok p) {hyps : List Expr} (hhyps : ∀ h ∈ hyps, h.IsFormula) :
    ∃ header' q, Proof.read header' lines = .ok q ∧ q.hypotheses = hyps ∧
      q.sequent.goal.formula = p.sequent.goal.formula := by
  have hparse := Sequent.parse_format_canonical hhyps (wellFormed_of_read hread).goal
  refine ⟨_, _, Grammar.bind_eq_ok.2 ⟨_, hparse, rfl⟩, ?_, rfl⟩
  show (hyps.map Statement.ofExpr).map Statement.formula = hyps
  rw [List.map_map]
  exact List.map_id _

/-- Weakening. Where a proof has no errors, and `hyps` is any list of formulas in which each of its
hypotheses stands somewhere, there are proofs of the same goal by the same lines from `hyps`, and
none of them has errors. Each line keeps its rule and the lines it refers to, except that a line by
a quantifier rule may turn out to be a hypothesis, and that hypotheses may have other numbers. -/
theorem weakening {header : Text} {lines : List Text} {p : Proof}
    (hread : Proof.read header lines = .ok p) (hok : (p.check false).errors = [])
    {hyps : List Expr} (hhyps : ∀ h ∈ hyps, h.IsFormula)
    (hsub : ∀ h ∈ p.hypotheses, h.canonical ∈ hyps.map Expr.canonical) :
    (∃ header' q, Proof.read header' lines = .ok q ∧ q.hypotheses = hyps ∧
      q.sequent.goal.formula = p.sequent.goal.formula) ∧
    ∀ header' q, Proof.read header' lines = .ok q → q.hypotheses = hyps →
      q.sequent.goal.formula = p.sequent.goal.formula →
      (q.check false).errors = [] ∧
      ∀ (k : Nat) (l : Line) (j : Justification), (p.check false).lines[k]? = some l →
        l.justification? = some j → ∃ (l' : Line) (j' : Justification),
          (q.check false).lines[k]? = some l' ∧ l'.verdict = some (.ok j') ∧ j.WeakensTo j' := by
  refine ⟨exists_read_hypotheses hread hhyps, ?_⟩
  rintro header' q hread' rfl hgoal
  have hp := wellFormed_of_read hread
  have hq := wellFormed_of_read hread'
  have hlines : q.lines = p.lines := by rw [lines_of_read hread', lines_of_read hread]
  have hformulas : q.formulas = p.formulas := congrArg (List.map ProofLine.formula?) hlines
  have hmem : ∀ h ∈ p.hypotheses, h ∈ q.hypotheses := by
    intro h hh
    obtain ⟨h', hh', hcan⟩ := List.mem_map.1 (hsub h hh)
    rwa [(Expr.canonical_inj (.inl (hhyps h' hh')) (.inl (hp.hypotheses h hh))).1 hcan] at hh'
  have hclass {k : Nat} {e : Expr} {j : Justification} (hk : p.formulas[k]? = some (some e))
      (hj : (Context.ofProof p false).classify k e = some (.ok j)) :=
    Context.classify_of_subset hp hq (hp.isFormula hk) (by rw [hformulas]) hmem hj
  obtain ⟨hjustified, hreaches⟩ := check_errors_eq_nil_iff.1 hok
  refine ⟨check_errors_eq_nil_iff.2 ⟨fun k l hl => ?_, ?_⟩, fun k l j hl hj => ?_⟩
  · rw [hlines] at hl
    obtain ⟨e, j, hparsed, hj⟩ := hjustified k l hl
    obtain ⟨j', hj', -⟩ := hclass (getElem?_formulas_eq_some_iff.2 ⟨l, hl, hparsed⟩) hj
    exact ⟨e, j', hparsed, hj'⟩
  · rw [reachesGoal_iff hq, hgoal, ← (reachesGoal_iff hp).1 hreaches]
    unfold last?
    rw [hformulas]
  · obtain ⟨e, hk, hj⟩ := classify_of_justification? hl hj
    obtain ⟨j', hj', hweak⟩ := hclass hk hj
    obtain ⟨l', hl', hverdict⟩ := exists_verdict (hformulas ▸ hk) false
    exact ⟨l', j', hl', by rw [hverdict, hj']; rfl, hweak⟩

/-- The second line is by the universal rule, and among the new hypotheses, which repeat the old
one in another place. -/
theorem weakening_generalization :
    ∃ p q, Proof.read "A->B|-A->@yB" ["A->B", "A->@yB"] = .ok p ∧ (p.check false).errors = [] ∧
      Proof.read "A->@yB,A->B,A->B|-A->@yB" ["A->B", "A->@yB"] = .ok q ∧
      (q.check false).errors = [] := by
  have hrun : (Proof.read "A->B|-A->@yB" ["A->B", "A->@yB"]).map
      (fun p => ((p.check false).errors, p.hypotheses, p.sequent.goal.formula)) =
        .ok ([], [.implies (.predicate "A" []) (.predicate "B" [])],
          .implies (.predicate "A" []) (.forAll "y" (.predicate "B" []))) := by
    cbv
  have hrun' : (Proof.read "A->@yB,A->B,A->B|-A->@yB" ["A->B", "A->@yB"]).map
      (fun q => (q.hypotheses, q.sequent.goal.formula)) =
        .ok ([.implies (.predicate "A" []) (.forAll "y" (.predicate "B" [])),
            .implies (.predicate "A" []) (.predicate "B" []),
            .implies (.predicate "A" []) (.predicate "B" [])],
          .implies (.predicate "A" []) (.forAll "y" (.predicate "B" []))) := by
    cbv
  obtain ⟨p, hp, heq⟩ := exists_of_map_eq_ok hrun
  obtain ⟨q, hq, heq'⟩ := exists_of_map_eq_ok hrun'
  simp only [Prod.mk.injEq] at heq heq'
  obtain ⟨hok, hhyps, hgoal⟩ := heq
  obtain ⟨hhyps', hgoal'⟩ := heq'
  refine ⟨p, q, hp, hok, hq, ?_⟩
  refine ((weakening hp hok (wellFormed_of_read hq).hypotheses ?_).2 _ q hq rfl ?_).1
  · rw [hhyps, hhyps']
    simp
  · rw [hgoal, hgoal']

end Proof

end Sequitur
