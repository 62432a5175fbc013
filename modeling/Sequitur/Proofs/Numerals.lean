import Mathlib
import Sequitur.Numeral
import Sequitur.Proofs.ClosedTerms
import Sequitur.Proofs.Completeness
import Sequitur.Proofs.Verification

/-!
# Proofs instantiated by numerals

A proof stays a proof when a numeral is put in place of a variable `v` in its texts, where no
quantifier binds `v` and no function is called so. On canonical texts the replacement is a
substitution (`instantiate_canonical`), so the texts are read again, as the substitution instances
of what they were (`Proof.exists_read_instantiate`). A numeral is a closed term, and what was one
step of a proof is one step after the substitution (`Step.subst_numeral`).

Justifications may change, for lines that differed can coincide. An axiom or a consequence by modus
ponens is justified whatever else stands in the proof. Any other line may be one on which a rule
that is tried earlier ends in an error, and by the completeness of the classification this is an
error of a captured term or of a free variable.
-/

namespace Sequitur

/-! ## Numerals as terms -/

namespace Expr

/-- Zero with `n` primes. -/
def numeral : Nat → Expr
  | 0 => .zero
  | n + 1 => .successor (numeral n)

/-- The text of a numeral is zero with its primes. -/
theorem canonical_numeral (n : Int) : (numeral n.toNat).canonical = Text.numeral n := by
  unfold Text.numeral
  induction n.toNat with
  | zero => rfl
  | succ m ih =>
    rw [numeral, canonical_successor, ih, List.replicate_succ', List.cons_append]

/-- A numeral is a term. -/
theorem isTerm_numeral (n : Nat) : (numeral n).IsTerm := by
  induction n with
  | zero => exact .zero
  | succ n ih => exact .successor ih

/-- A numeral is closed. -/
theorem not_free_numeral (n : Nat) (x : Text) : ¬ (numeral n).Free x := by
  induction n with
  | zero => exact Substitution.not_free_zero x
  | succ n ih =>
    intro h
    cases h with
    | var hk => cases hk
    | inside _ _ hc hfree =>
      rw [List.mem_singleton.1 hc] at hfree
      exact ih hfree

/-- Nothing in a numeral has a name. -/
theorem varOnly_numeral (n : Nat) {x : Text} (hx : x ≠ []) : (numeral n).VarOnly x := by
  induction n with
  | zero => exact .node (fun hn => absurd hn.symm hx) nofun
  | succ n ih =>
    exact .node (fun hn => absurd hn.symm hx) (List.forall_mem_singleton.2 ih)

end Expr

/-! ## Steps stay steps -/

namespace Expr

/-- If only variables are called `v` in a quantified formula, the quantifier is over another name,
and this is so in the body. -/
theorem VarOnly.of_quantified {v x : Text} {k : Kind} {a : Expr} (hv : (quantified k x a).VarOnly v)
    (hk : k ≠ .var) : x ≠ v ∧ a.VarOnly v :=
  ⟨hv.name_ne hk, hv.of_mem_children (by simp [children])⟩

theorem VarOnly.of_binary {v : Text} {k : Kind} {a b : Expr} (hv : (binary k a b).VarOnly v) :
    a.VarOnly v ∧ b.VarOnly v :=
  ⟨hv.of_mem_children (by simp [children]), hv.of_mem_children (by simp [children])⟩

/-- Axioms stay axioms. -/
theorem IsAxiom.subst_numeral {v : Text} {e : Expr} (h : e.IsAxiom) (he : e.IsFormula)
    (hv : e.VarOnly v) (n : Nat) : (e.subst v (numeral n)).IsAxiom := by
  have hclosed := not_free_numeral n
  have hterm := isTerm_numeral n
  rcases (Context.isAxiom_iff he).1 h with
    ⟨s, hs, σ, -, rfl⟩ | (⟨x, a, u, ⟨hu, rfl⟩, hcap⟩ | ⟨x, a, u, ⟨hu, rfl⟩, hcap⟩) |
      ⟨x, a, hfree, hvar, rfl⟩
  · rw [Schema.subst_instantiate hs]
    exact .schema hs
  · obtain ⟨hall, -⟩ := he.of_implies
    cases hall with
    | forAll _ ha =>
    obtain ⟨hne, hva⟩ := hv.of_binary.1.of_quantified (by decide)
    show IsAxiom (.implies ((forAll x a).subst v _) ((a.subst x u).subst v _))
    rw [subst_quantified_of_ne hne, ha.subst_subst hclosed hterm hne hva]
    exact .universal fun h =>
      hcap (WellFormed.capturedIn_of_subst hclosed (.inl ha) hva (.inr hu) (.inr hterm) h)
  · obtain ⟨-, hex⟩ := he.of_implies
    cases hex with
    | exist _ ha =>
    obtain ⟨hne, hva⟩ := hv.of_binary.2.of_quantified (by decide)
    show IsAxiom (.implies ((a.subst x u).subst v _) ((exist x a).subst v _))
    rw [subst_quantified_of_ne hne, ha.subst_subst hclosed hterm hne hva]
    exact .existential fun h =>
      hcap (WellFormed.capturedIn_of_subst hclosed (.inl ha) hva (.inr hu) (.inr hterm) h)
  · obtain ⟨hleft, ha⟩ := he.of_implies
    have hx : x ≠ [] := by
      cases hleft with
      | and _ hall =>
      cases hall with
      | forAll hx _ =>
      rintro rfl
      cases hx
    obtain ⟨hvleft, hva⟩ := hv.of_binary
    obtain ⟨hne, -⟩ := hvleft.of_binary.2.of_quantified (by decide)
    have hsuccessor : (Expr.successor (.var x)).subst v (numeral n) = .successor (.var x) :=
      congrArg Expr.successor (if_neg hne)
    show IsAxiom (.implies (.and ((a.subst x .zero).subst v _)
      ((forAll x (.implies a (a.subst x (.successor (.var x))))).subst v _)) (a.subst v _))
    rw [subst_quantified_of_ne hne, ha.subst_subst hclosed hterm hne hva]
    show IsAxiom (.implies (.and _ (.forAll x (.implies (a.subst v _)
      ((a.subst x (.successor (.var x))).subst v _)))) (a.subst v _))
    rw [ha.subst_subst hclosed hterm hne hva, hsuccessor]
    exact .induction ((WellFormed.free_subst_iff hclosed (.inl ha)).2 ⟨hfree, hne⟩)
      (WellFormed.varOnly_subst (.inl ha) hvar (varOnly_numeral n hx))

end Expr

/-- What is one step stays one after the substitution, where the hypotheses and the earlier
formulas are put through it. -/
theorem Step.subst_numeral {hyps : List Expr} {earlier earlier' : Expr → Prop} {v : Text} {e : Expr}
    {n : Nat} (h : Step hyps earlier e) (he : e.IsFormula) (hv : e.VarOnly v)
    (hearlier : ∀ a, earlier a → earlier' (a.subst v (.numeral n))) :
    Step (hyps.map (·.subst v (.numeral n))) earlier' (e.subst v (.numeral n)) := by
  have hnot {a : Expr} {x : Text} (ha : a.IsFormula) (hx : ¬ a.Free x) :
      ¬ (a.subst v (.numeral n)).Free x := fun hfree =>
    hx ((Expr.WellFormed.free_subst_iff (Expr.not_free_numeral n) (.inl ha)).1 hfree).1
  cases h with
  | given hmem => exact .given (List.mem_map_of_mem hmem)
  | holds hax => exact .holds (hax.subst_numeral he hv n)
  | modusPonens ha hae => exact .modusPonens (hearlier _ ha) (hearlier _ hae)
  | @universal x a b hab hx =>
    obtain ⟨hne, -⟩ := hv.of_binary.2.of_quantified (by decide)
    show Step _ _ (.implies (a.subst v _) ((Expr.forAll x b).subst v _))
    rw [Expr.subst_quantified_of_ne hne]
    exact .universal (hearlier _ hab) (hnot he.of_implies.1 hx)
  | @existential x a b hab hx =>
    obtain ⟨hne, -⟩ := hv.of_binary.1.of_quantified (by decide)
    show Step _ _ (.implies ((Expr.exist x a).subst v _) (b.subst v _))
    rw [Expr.subst_quantified_of_ne hne]
    exact .existential (hearlier _ hab) (hnot he.of_implies.2 hx)

/-! ## What is justified in every proof -/

namespace Context

variable {p : Proof} {k : Nat} {e : Expr} (hp : p.WellFormed) (he : e.IsFormula)
include hp he

/-- Nothing comes between an axiom and its justification. -/
theorem classify_of_isAxiom (h : e.IsAxiom) :
    ∃ j, (ofProof p false).classify k e = some (.ok j) := by
  refine classify_of_step hp he (.holds h) (fun hcap => ?_) ?_
  · rcases (isAxiom_iff he).1 h with h | h | h
    · exact hcap.schema h
    · exact hcap.quantifier h
    · exact h.not_isCapturing he hcap.capturing
  · rintro ⟨x, a, y, b, hblocked⟩
    rcases (isAxiom_iff he).1 h with h | h | h
    · exact hblocked.schema h
    · exact hblocked.quantifier h
    · exact hblocked.induction h

/-- Nothing but another justification comes before modus ponens. -/
theorem classify_of_detaches (h : p.Detaches k e) :
    ∃ j, (ofProof p false).classify k e = some (.ok j) := by
  obtain ⟨a, ha, hae⟩ := h
  refine classify_of_step hp he (.modusPonens ha hae) (fun hcap => ?_) ?_
  · exact hcap.modusPonens ⟨a, ha, hae⟩
  · rintro ⟨x, b, y, c, hblocked⟩
    exact hblocked.modusPonens ⟨a, ha, hae⟩

/-- The lines that these justifications are given for. -/
theorem isAxiom_or_detaches {j : Justification} (h : (ofProof p false).classify k e = some (.ok j))
    (hrule : j.rule = .logic ∨ j.rule = .arithmetic ∨ j.rule = .modusPonens) :
    e.IsAxiom ∨ p.Detaches k e := by
  rcases classify_eq_ok h with h | h | h | ⟨-, h | h | ⟨-, h | h⟩⟩
  · exact .inl (schema_eq_some he h).1
  · obtain ⟨i, i', a, -, hi, hi', ha, hae⟩ := modusPonens_eq_some hp he h
    exact .inr ⟨a, ⟨i, hi, ha⟩, ⟨i', hi', hae⟩⟩
  · exact .inl (quantifierAxiom_eq_ok he h).1
  · exact .inl (induction_eq_ok he h).1
  · obtain ⟨m, -, -, hj⟩ := hypothesis_eq_some hp he h
    cases hj
    rcases hrule with h | h | h <;> cases h
  · obtain ⟨x, a, b, i, -, rfl, -⟩ := universalRule_eq_ok hp he h
    rcases hrule with h | h | h <;> cases h
  · obtain ⟨x, a, b, i, -, rfl, -⟩ := existentialRule_eq_ok hp he h
    rcases hrule with h | h | h <;> cases h

/-- The errors that a step can be reported with. -/
theorem kind_of_step (hstep : Step p.hypotheses (p.Before k) e) {problem : Problem}
    (h : (ofProof p false).classify k e = some (.error problem)) :
    problem.kind = .capture ∨ problem.kind = .freeVariable := by
  by_cases hcap : p.Captures k e
  · obtain ⟨c, hc⟩ := classify_of_captures hp he false hcap
    cases hc.symm.trans h
    exact .inl rfl
  by_cases hblocked : p.Blocked k e
  · obtain ⟨x, a, y, b, hblocked⟩ := hblocked
    cases (classify_of_blockedBy hp he hblocked).symm.trans h
    exact .inr rfl
  obtain ⟨j, hj⟩ := classify_of_step hp he hstep hcap hblocked
  cases hj.symm.trans h

end Context

/-! ## Reading the instantiated texts -/

namespace Expr

/-- In a canonical text, putting a numeral for a variable is a substitution. -/
theorem IsFormula.instantiate_canonical {v : Text} {e : Expr} (he : e.IsFormula) (hv : e.VarOnly v)
    (n : Int) : e.canonical.instantiate v n = (e.subst v (numeral n.toNat)).canonical := by
  rw [Text.instantiate, ← canonical_numeral, he.replaceIdent_canonical hv]

end Expr

namespace Proof

/-- The formulas of a proof: the hypotheses, the goal, and the lines that were read. -/
def allFormulas (p : Proof) : List Expr :=
  p.hypotheses ++ p.sequent.goal.formula :: p.formulas.filterMap id

/-- Everything in the proof is written as its canonical text. -/
structure IsCanonical (p : Proof) : Prop where
  hypotheses : ∀ s ∈ p.sequent.hypotheses, s.text = s.formula.canonical
  goal : p.sequent.goal.text = p.sequent.goal.formula.canonical
  lines : ∀ l ∈ p.lines, ∀ e ∈ l.formula?, l.source = e.canonical

instance (p : Proof) : Decidable p.IsCanonical :=
  decidable_of_iff ((∀ s ∈ p.sequent.hypotheses, s.text = s.formula.canonical) ∧
      p.sequent.goal.text = p.sequent.goal.formula.canonical ∧
      ∀ l ∈ p.lines, ∀ e ∈ l.formula?, l.source = e.canonical)
    ⟨fun ⟨hhyps, hgoal, hlines⟩ => ⟨hhyps, hgoal, hlines⟩, fun ⟨hhyps, hgoal, hlines⟩ =>
      ⟨hhyps, hgoal, hlines⟩⟩

/-- The texts of a proof with the numeral of `n` in place of `v`. -/
def instantiate (p : Proof) (v : Text) (n : Int) : Rewriting where
  hypotheses := p.sequent.hypotheses.map fun s => s.text.instantiate v n
  goal := p.sequent.goal.text.instantiate v n
  lines := p.lines.map fun l => l.source.instantiate v n

/-- The formulas of `q` are those of `p` with the numeral of `n` in place of `v`. -/
structure IsInstance (p : Proof) (v : Text) (n : Nat) (q : Proof) : Prop where
  hypotheses : q.hypotheses = p.hypotheses.map (·.subst v (.numeral n))
  goal : q.sequent.goal.formula = p.sequent.goal.formula.subst v (.numeral n)
  formulas : q.formulas = p.formulas.map (Option.map (·.subst v (.numeral n)))

variable {p q : Proof} {v : Text}

/-- The formula of a line is one of the proof's. -/
theorem mem_allFormulas_of_line {k : Nat} {e : Expr} (h : p.formulas[k]? = some (some e)) :
    e ∈ p.allFormulas := by
  refine List.mem_append_right _ (List.mem_cons_of_mem _ ?_)
  exact List.mem_filterMap.2 ⟨some e, List.mem_of_getElem? h, rfl⟩

/-- The hypotheses, the goal and the lines of a well-formed proof are formulas. -/
theorem WellFormed.isFormula_of_mem (hp : p.WellFormed) {e : Expr} (he : e ∈ p.allFormulas) :
    e.IsFormula := by
  rcases List.mem_append.1 he with he | he
  · exact hp.hypotheses e he
  rcases List.mem_cons.1 he with rfl | he
  · exact hp.goal
  · obtain ⟨o, ho, rfl⟩ := List.mem_filterMap.1 he
    exact hp.lines e ho

/-- The instantiated texts are read as the instances of the formulas. -/
theorem exists_read_instantiate (hp : p.WellFormed) (hcan : p.IsCanonical)
    (hlines : ∀ o ∈ p.formulas, ∃ e, o = some e) (hvar : ∀ e ∈ p.allFormulas, e.VarOnly v)
    (n : Int) :
    ∃ q, Proof.read (p.instantiate v n).header (p.instantiate v n).lines = .ok q ∧
      p.IsInstance v n.toNat q := by
  have ht := Expr.isTerm_numeral n.toNat
  have htext {text : Text} {e : Expr} (he : e ∈ p.allFormulas) (h : text = e.canonical) :
      text.instantiate v n = (e.subst v (.numeral n.toNat)).canonical := by
    rw [h, (hp.isFormula_of_mem he).instantiate_canonical (hvar e he)]
  have hhyps : (p.instantiate v n).hypotheses =
      (p.hypotheses.map (·.subst v (.numeral n.toNat))).map Expr.canonical := by
    rw [hypotheses, List.map_map, List.map_map]
    refine List.map_congr_left fun s hs => htext ?_ (hcan.hypotheses s hs)
    exact List.mem_append_left _ (List.mem_map_of_mem hs)
  have hgoal : (p.instantiate v n).goal =
      (p.sequent.goal.formula.subst v (.numeral n.toNat)).canonical :=
    htext (List.mem_append_right _ List.mem_cons_self) hcan.goal
  have hheader : Sequent.parse (p.instantiate v n).header = .ok
      ⟨(p.hypotheses.map (·.subst v (.numeral n.toNat))).map .ofExpr,
        .ofExpr (p.sequent.goal.formula.subst v (.numeral n.toNat))⟩ := by
    rw [Rewriting.header, hhyps, hgoal]
    refine Sequent.parse_format_canonical (fun e he => ?_) (hp.goal.subst ht)
    obtain ⟨h, hh, rfl⟩ := List.mem_map.1 he
    exact (hp.hypotheses h hh).subst ht
  have hline : ∀ l ∈ p.lines, (readLine (l.source.instantiate v n)).formula? =
      l.formula?.map (·.subst v (.numeral n.toNat)) := by
    intro l hl
    have hmem : l.formula? ∈ p.formulas := List.mem_map_of_mem hl
    obtain ⟨e, he⟩ := hlines _ hmem
    rw [he] at hmem
    obtain ⟨k, hk⟩ := List.mem_iff_getElem?.1 hmem
    have hmem := mem_allFormulas_of_line hk
    rw [htext hmem (hcan.lines l hl e he), he]
    exact ProofLine.formula?_eq_some_iff.2
      ((hp.isFormula_of_mem hmem).subst ht).parse_canonical
  refine ⟨⟨_, _, (p.instantiate v n).lines.map readLine⟩,
    Grammar.bind_eq_ok.2 ⟨_, hheader, rfl⟩, ?_, rfl, ?_⟩
  · show ((p.hypotheses.map _).map Statement.ofExpr).map Statement.formula = _
    rw [List.map_map]
    exact List.map_id _
  · show ((p.lines.map _).map readLine).map ProofLine.formula? = (p.lines.map _).map _
    rw [List.map_map, List.map_map, List.map_map]
    exact List.map_congr_left hline

/-! ## Checking the instantiated proof -/

namespace IsInstance

variable {n k : Nat} {e : Expr} (hq : p.IsInstance v n q)
include hq

/-- The lines of the instance are those of the proof with the numeral. -/
theorem getElem?_formulas (hk : p.formulas[k]? = some (some e)) :
    q.formulas[k]? = some (some (e.subst v (.numeral n))) := by
  rw [hq.formulas, List.getElem?_map, hk]
  rfl

/-- What stands before a line stands, with the numeral, before that line of the instance. -/
theorem before (h : p.Before k e) : q.Before k (e.subst v (.numeral n)) := by
  obtain ⟨i, hi, he⟩ := h
  exact ⟨i, hi, hq.getElem?_formulas he⟩

/-- A step of the proof is, with the numeral, a step of the instance. -/
theorem step (h : Step p.hypotheses (p.Before k) e) (he : e.IsFormula) (hv : e.VarOnly v) :
    Step q.hypotheses (q.Before k) (e.subst v (.numeral n)) := by
  rw [hq.hypotheses]
  exact h.subst_numeral he hv fun a ha => hq.before ha

/-- The instance ends in its goal when the proof does. -/
theorem last? (h : p.last? = some p.sequent.goal.formula) :
    q.last? = some q.sequent.goal.formula := by
  rw [Proof.last?, hq.formulas, List.getLast?_map, Option.join_eq_some_iff.1 h, hq.goal]
  rfl

/-- Every line is the instance of a line. -/
theorem exists_line (hlines : ∀ o ∈ p.formulas, ∃ e, o = some e) {l : ProofLine}
    (hl : q.lines[k]? = some l) :
    ∃ e, p.formulas[k]? = some (some e) ∧ l.parsed = .ok (e.subst v (.numeral n)) := by
  have hqk : q.formulas[k]? = some l.formula? := by
    rw [Proof.formulas, List.getElem?_map, hl]
    rfl
  rw [hq.formulas, List.getElem?_map, Option.map_eq_some_iff] at hqk
  obtain ⟨o, ho, hol⟩ := hqk
  obtain ⟨e, rfl⟩ := hlines o (List.mem_of_getElem? ho)
  exact ⟨e, ho, ProofLine.formula?_eq_some_iff.1 hol.symm⟩

/-- An axiom or a consequence by modus ponens is justified after the substitution. -/
theorem exists_verdict (hp : p.WellFormed) (hqp : q.WellFormed)
    (hvar : ∀ e ∈ p.allFormulas, e.VarOnly v) {l : Line} {j : Justification}
    (hl : (p.check false).lines[k]? = some l) (hj : l.justification? = some j)
    (hrule : j.rule = .logic ∨ j.rule = .arithmetic ∨ j.rule = .modusPonens) :
    ∃ l' j', (q.check false).lines[k]? = some l' ∧ l'.verdict = some (.ok j') := by
  obtain ⟨e, hk, hclass⟩ := classify_of_justification? hl hj
  have he := hp.isFormula hk
  have hqk := hq.getElem?_formulas hk
  have he' := hqp.isFormula hqk
  obtain ⟨l', hl', hverdict⟩ := Proof.exists_verdict hqk false
  obtain ⟨j', hj'⟩ : ∃ j', (Context.ofProof q false).classify k _ = some (.ok j') := by
    rcases Context.isAxiom_or_detaches hp he hclass hrule with h | ⟨a, ha, hae⟩
    · exact Context.classify_of_isAxiom hqp he'
        (h.subst_numeral he (hvar e (mem_allFormulas_of_line hk)) n)
    · exact Context.classify_of_detaches hqp he' ⟨_, hq.before ha, hq.before hae⟩
  exact ⟨l', j', hl', by rw [hverdict, hj']; rfl⟩

end IsInstance

/-- A proof without errors stays a proof when a numeral is put in place of a variable `v` that no
quantifier binds and no function is called. The instantiated texts are read, as the instances of the
formulas, and the last line is the goal. Every line that was justified as an axiom or by modus
ponens is justified, and the only errors are those of captured terms and of free variables. -/
theorem instantiate_numeral {header : Text} {lines : List Text}
    (hread : Proof.read header lines = .ok p) (hok : (p.check false).errors = [])
    (hcan : p.IsCanonical) (hv : Text.isLowerIdent v = true)
    (hspares : ∀ e ∈ p.allFormulas, e.Spares v) (n : Int) :
    ∃ q, Proof.read (p.instantiate v n).header (p.instantiate v n).lines = .ok q ∧
      p.IsInstance v n.toNat q ∧
      (∀ l ∈ q.lines, ∃ e, l.parsed = .ok e) ∧ q.last? = some q.sequent.goal.formula ∧
      (∀ (k : Nat) (l : Line) (j : Justification), (p.check false).lines[k]? = some l →
        l.justification? = some j →
        j.rule = .logic ∨ j.rule = .arithmetic ∨ j.rule = .modusPonens →
        ∃ l' j', (q.check false).lines[k]? = some l' ∧ l'.verdict = some (.ok j')) ∧
      ∀ err ∈ (q.check false).errors,
        err.problem.kind = .capture ∨ err.problem.kind = .freeVariable := by
  have hp := wellFormed_of_read hread
  have hlines : ∀ o ∈ p.formulas, ∃ e, o = some e := by
    intro o ho
    obtain ⟨l, hl, rfl⟩ := List.mem_map.1 ho
    obtain ⟨k, hk⟩ := List.mem_iff_getElem?.1 hl
    obtain ⟨e, -, he, -⟩ := (check_errors_eq_nil_iff.1 hok).1 k l hk
    exact ⟨e, ProofLine.formula?_eq_some_iff.2 he⟩
  have hvar : ∀ e ∈ p.allFormulas, e.VarOnly v := fun e he =>
    Expr.WellFormed.varOnly_of_spares hv (.inl (hp.isFormula_of_mem he)) (hspares e he)
  obtain ⟨q, hq, hinst⟩ := exists_read_instantiate hp hcan hlines hvar n
  have hqp := wellFormed_of_read hq
  have hlast := hinst.last? (last?_of_check hp hok)
  refine ⟨q, hq, hinst, fun l hl => ?_, hlast, fun k l j hl hj hrule => ?_, fun err herr => ?_⟩
  · obtain ⟨k, hk⟩ := List.mem_iff_getElem?.1 hl
    obtain ⟨e, -, he⟩ := hinst.exists_line hlines hk
    exact ⟨_, he⟩
  · exact hinst.exists_verdict hp hqp hvar hl hj hrule
  · obtain ⟨k, l, hl, herror⟩ | ⟨hreaches, -⟩ := mem_errors_iff.1 herr
    · obtain ⟨e, hk, he⟩ := hinst.exists_line hlines hl
      obtain ⟨problem, hproblem, rfl⟩ := (Context.error?_line_eq_some_iff he).1 herror
      have hstep := hinst.step (step_of_check hp hok hk) (hp.isFormula hk)
        (hvar e (mem_allFormulas_of_line hk))
      have hqk := getElem?_formulas_eq_some_iff.2 ⟨l, hl, he⟩
      exact Context.kind_of_step hqp (hqp.isFormula hqk) hstep hproblem
    · rw [(reachesGoal_iff hqp).2 hlast] at hreaches
      cases hreaches

/-- Two lines that differ by `v` and `0` coincide after the substitution. The axiom is justified
again, and the last line, which the existential rule gave, is barred by the universal rule. -/
theorem instantiate_numeral_coincidence :
    ∃ p q l j, Proof.read
        "(P(y)->(@yQ(y,v))),((?xP(y))->Q(y,0))|-((?xP(y))->(@yQ(y,v)))"
        ["(Q(v,v)->(P(y)->Q(v,v)))", "((?xP(y))->Q(y,0))", "(P(y)->(@yQ(y,v)))",
          "((?xP(y))->(@yQ(y,v)))"] = .ok p ∧
      (p.check false).errors = [] ∧
      Proof.read (p.instantiate "v" 0).header (p.instantiate "v" 0).lines = .ok q ∧
      (q.check false).lines[0]? = some l ∧ l.verdict = some (.ok j) ∧
      (q.check false).errors = [⟨4, .occursFree "y" "(?xP(y))"⟩] := by
  have hrun : (Proof.read
      "(P(y)->(@yQ(y,v))),((?xP(y))->Q(y,0))|-((?xP(y))->(@yQ(y,v)))"
      ["(Q(v,v)->(P(y)->Q(v,v)))", "((?xP(y))->Q(y,0))", "(P(y)->(@yQ(y,v)))",
        "((?xP(y))->(@yQ(y,v)))"]).map
      (fun p => ((decide p.IsCanonical, decide (∀ e ∈ p.allFormulas, e.Spares "v")),
        ((p.check false).errors, (p.check false).lines[0]?.map Line.justification?),
        ((p.instantiate "v" 0).header, (p.instantiate "v" 0).lines))) =
        .ok ((true, true), ([], some (some { rule := .logic, number := 1 })),
          ("(P(y)->(@yQ(y,0))),((?xP(y))->Q(y,0))|-((?xP(y))->(@yQ(y,0)))",
            ["(Q(0,0)->(P(y)->Q(0,0)))", "((?xP(y))->Q(y,0))", "(P(y)->(@yQ(y,0)))",
              "((?xP(y))->(@yQ(y,0)))"])) := by
    cbv
  have hrun' : (Proof.read "(P(y)->(@yQ(y,0))),((?xP(y))->Q(y,0))|-((?xP(y))->(@yQ(y,0)))"
      ["(Q(0,0)->(P(y)->Q(0,0)))", "((?xP(y))->Q(y,0))", "(P(y)->(@yQ(y,0)))",
        "((?xP(y))->(@yQ(y,0)))"]).map (fun q => (q.check false).errors) =
        .ok [⟨4, .occursFree "y" "(?xP(y))"⟩] := by
    cbv
  obtain ⟨p, hp, heq⟩ := exists_of_map_eq_ok hrun
  simp only [Prod.mk.injEq, Option.map_eq_some_iff, decide_eq_true_eq] at heq
  obtain ⟨⟨hcan, hspares⟩, ⟨herrors, l, hl, hj⟩, hheader, hlines⟩ := heq
  obtain ⟨q, hq, -, -, -, hagain, -⟩ :=
    instantiate_numeral hp herrors hcan (v := "v") (by decide) hspares 0
  obtain ⟨l', j', hl', hj'⟩ := hagain 0 l _ hl hj (.inl rfl)
  obtain ⟨q', hq', herrors'⟩ := exists_of_map_eq_ok hrun'
  rw [← hheader, ← hlines, hq] at hq'
  cases hq'
  exact ⟨p, q, l', j', hp, herrors, hq, hl', hj', herrors'⟩

end Proof

end Sequitur
