import Mathlib
import Sequitur.Proofs.Instances
import Sequitur.Proofs.Lookup
import Sequitur.Proofs.Sequents

/-!
# Justified lines are consequences

`Step hyps earlier e` says that `e` is one step of a proof from the hypotheses `hyps` after the
formulas `earlier`: a hypothesis, an axiom, or the conclusion of a rule. Every line that is
classified without an error is such a step (`step_of_classify`), with the lines before it as
earlier formulas. One lemma for each rule says what the rule has found; texts are compared
throughout, and on formulas that were read equal texts are equal formulas.
-/

namespace Sequitur

/-! ## What a step is -/

/-- An axiom: an instance of a schema, of a quantifier axiom with a term that is not captured, or of
induction. -/
inductive Expr.IsAxiom : Expr → Prop
  | schema {s : Schema} {σ : Text → Expr} : s ∈ Schema.all → IsAxiom (s.formula.instantiate σ)
  | universal {x : Text} {a t : Expr} : ¬ t.CapturedIn x a →
      IsAxiom (.implies (.forAll x a) (a.subst x t))
  | existential {x : Text} {a t : Expr} : ¬ t.CapturedIn x a →
      IsAxiom (.implies (a.subst x t) (.exist x a))
  | induction {x : Text} {a : Expr} : a.Free x → a.VarOnly x →
      IsAxiom (.implies (.and (a.subst x .zero)
        (.forAll x (.implies a (a.subst x (.successor (.var x)))))) a)

/-- One step of a proof: the formula is an axiom or a hypothesis, or follows by a rule from earlier
formulas. -/
inductive Step (hyps : List Expr) (earlier : Expr → Prop) : Expr → Prop
  | given {e : Expr} : e ∈ hyps → Step hyps earlier e
  | holds {e : Expr} : e.IsAxiom → Step hyps earlier e
  | modusPonens {a e : Expr} : earlier a → earlier (.implies a e) → Step hyps earlier e
  | universal {x : Text} {a b : Expr} : earlier (.implies a b) → ¬ a.Free x →
      Step hyps earlier (.implies a (.forAll x b))
  | existential {x : Text} {a b : Expr} : earlier (.implies a b) → ¬ b.Free x →
      Step hyps earlier (.implies (.exist x a) b)

/-- What is one step stays one where more stands before it. -/
theorem Step.mono {hyps : List Expr} {earlier earlier' : Expr → Prop} {e : Expr}
    (hmono : ∀ a, earlier a → earlier' a) (h : Step hyps earlier e) : Step hyps earlier' e := by
  cases h with
  | given hmem => exact .given hmem
  | holds hax => exact .holds hax
  | modusPonens ha hae => exact .modusPonens (hmono _ ha) (hmono _ hae)
  | universal hab hx => exact .universal (hmono _ hab) hx
  | existential hab hx => exact .existential (hmono _ hab) hx

namespace Proof

/-- The formula of a line before line `k`. -/
def Before (p : Proof) (k : Nat) (e : Expr) : Prop := ∃ i < k, p.formulas[i]? = some (some e)

/-! ## Proofs that were read -/

theorem exists_of_map_eq_ok {ε α β : Type} {r : Except ε α} {f : α → β} {b : β}
    (h : r.map f = .ok b) : ∃ a, r = .ok a ∧ f a = b := by
  cases r with
  | error e => cases h
  | ok a => exact ⟨a, rfl, Except.ok.inj h⟩

/-- Hypotheses, goal and lines are formulas, except for lines that could not be read. -/
structure WellFormed (p : Proof) : Prop where
  lines : ∀ e, some e ∈ p.formulas → e.IsFormula
  hypotheses : ∀ h ∈ p.hypotheses, h.IsFormula
  goal : p.sequent.goal.formula.IsFormula

/-- A line that can be read is a formula. -/
theorem isFormula_of_readLine {source : Text} {e : Expr}
    (h : (readLine source).formula? = some e) : e.IsFormula := by
  unfold ProofLine.formula? readLine at h
  cases hparse : source.parseFormula with
  | error f => simp [hparse, Except.toOption] at h
  | ok a =>
    simp only [hparse, Except.toOption, Option.some.injEq] at h
    exact h ▸ Text.isFormula_of_parseFormula hparse

/-- The hypotheses and the goal of a proof that was read are formulas with the texts they were read
from. -/
theorem isRead_of_read {header : Text} {lines : List Text} {p : Proof}
    (h : Proof.read header lines = .ok p) :
    (∀ t ∈ p.sequent.hypotheses, t.IsRead) ∧ p.sequent.goal.IsRead := by
  obtain ⟨s, hs, h⟩ := Grammar.bind_eq_ok.1 h
  cases h
  exact Sequent.isRead_of_parse hs

/-- A proof that was read is well-formed. -/
theorem wellFormed_of_read {header : Text} {lines : List Text} {p : Proof}
    (h : Proof.read header lines = .ok p) : p.WellFormed := by
  obtain ⟨hhyps, hgoal⟩ := isRead_of_read h
  obtain ⟨s, hs, h⟩ := Grammar.bind_eq_ok.1 h
  cases h
  refine ⟨fun e he => ?_, fun e he => ?_, hgoal.isFormula⟩
  · obtain ⟨l, hl, hle⟩ := List.mem_map.1 he
    obtain ⟨source, -, rfl⟩ := List.mem_map.1 hl
    exact isFormula_of_readLine hle
  · obtain ⟨s, hs, rfl⟩ := List.mem_map.1 he
    exact (hhyps s hs).isFormula

end Proof

/-! ## What the rules find -/

theorem Proof.WellFormed.isFormula {p : Proof} (hp : p.WellFormed) {i : Nat} {e : Expr}
    (h : p.formulas[i]? = some (some e)) : e.IsFormula :=
  hp.lines e (List.mem_of_getElem? h)

namespace Context

open Sequitur.Expr

section
variable {p : Proof} {safety : Bool} {k : Nat} {e : Expr}

/-- What is found among all lines and stands before line `k` is found among the lines before it. -/
theorem earlier?_eq_findIdx? (p : Proof) (safety : Bool) (e : Expr) (k : Nat) :
    (ofProof p safety).earlier? e k =
      (p.formulas.take k).findIdx? (Index.hasText e.canonical) := by
  rw [List.findIdx?_take, ← Index.firstLine?_ofProof, earlier?,
    show (ofProof p safety).index = Index.ofProof p from rfl]
  cases (Index.ofProof p).firstLine? e.canonical with
  | none => rfl
  | some i => simp [Option.guard]

/-- A line that is found for a formula stands before line `k` and is that formula. -/
theorem earlier?_eq_some (hp : p.WellFormed) (he : e.IsFormula) {i : Nat}
    (h : (ofProof p safety).earlier? e k = some i) : i < k ∧ p.formulas[i]? = some (some e) := by
  rw [earlier?_eq_findIdx?, List.findIdx?_eq_some_iff_getElem] at h
  obtain ⟨hi, htext, -⟩ := h
  obtain ⟨a, ha, hcan⟩ := Index.hasText_iff.1 htext
  rw [List.length_take, lt_min_iff] at hi
  rw [List.getElem_take] at ha
  have hline : p.formulas[i]? = some (some a) := by rw [List.getElem?_eq_getElem hi.2, ha]
  rw [(canonical_inj (.inl (hp.isFormula hline)) (.inl he)).1 hcan] at hline
  exact ⟨hi.1, hline⟩

/-- A formula that stands before line `k` is found. -/
theorem earlier?_of_before (h : p.Before k e) :
    ∃ i, (ofProof p safety).earlier? e k = some i := by
  obtain ⟨j, hj, hline⟩ := h
  rw [← List.getElem?_take_of_lt hj] at hline
  rw [earlier?_eq_findIdx?, ← Option.isSome_iff_exists, List.findIdx?_isSome, List.any_eq_true]
  exact ⟨some e, List.mem_of_getElem? hline, Index.hasText_iff.2 ⟨e, rfl, rfl⟩⟩

/-- The implications that modus ponens looks through are those before line `k`. -/
theorem takeWhile_implications (p : Proof) (safety : Bool) (key : Text) (k : Nat) :
    ((ofProof p safety).index.implications key).takeWhile (· < k) =
      Index.positions key 0 (p.formulas.take k) := by
  rw [show (ofProof p safety).index = Index.ofProof p from rfl, Index.implications_ofProof,
    ← Index.takeWhile_positions, Nat.zero_add]

/-- The left side of line `j` is that of the implication which stands there. -/
theorem antecedent?_eq_some {c : Context} {j : Nat} {a : Expr} :
    c.antecedent? j = some a ↔ ∃ b, c.lines[j]? = some (some (.implies a b)) := by
  unfold antecedent?
  split
  · next left right h => simp [h, eq_comm]
  · next h =>
    refine iff_of_false (by simp) ?_
    rintro ⟨b, hb⟩
    exact h a b hb

/-- Modus ponens finds two earlier lines, an implication to the formula and its left side. -/
theorem modusPonens_eq_some (hp : p.WellFormed) (he : e.IsFormula)
    {r : Except Problem Justification} (h : (ofProof p safety).modusPonens k e = some r) :
    ∃ i j a, r = .ok { rule := .modusPonens, premise := i, via := j } ∧ i < k ∧ j < k ∧
      p.formulas[i]? = some (some a) ∧ p.formulas[j]? = some (some (.implies a e)) := by
  obtain ⟨j, hj, hr⟩ := List.exists_of_findSome?_eq_some h
  obtain ⟨a, ha, hr⟩ := Option.bind_eq_some_iff.1 hr
  obtain ⟨i, hi, hr⟩ := Option.bind_eq_some_iff.1 hr
  cases hr
  have hjk : j < k := by simpa using List.mem_takeWhile_imp hj
  rw [takeWhile_implications, Index.mem_positions, Nat.sub_zero,
    List.getElem?_take_of_lt hjk] at hj
  obtain ⟨-, line, hline, hleads⟩ := hj
  obtain ⟨a', r, rfl, hcan⟩ := Index.leadsTo_iff.1 hleads
  obtain ⟨b, hb⟩ := antecedent?_eq_some.1 ha
  have hb : p.formulas[j]? = some (some (.implies a b)) := hb
  have himp := hp.isFormula hb
  rw [hb] at hline
  cases hline
  rw [(canonical_inj (.inl himp.of_implies.2) (.inl he)).1 hcan] at hb
  obtain ⟨hik, hai⟩ := earlier?_eq_some hp himp.of_implies.1 hi
  exact ⟨i, j, a, rfl, hik, hjk, hai, hb⟩

/-- Where there are two such lines, modus ponens finds some. -/
theorem modusPonens_of_before {a : Expr} (ha : p.Before k a) (hae : p.Before k (.implies a e)) :
    ∃ r, (ofProof p safety).modusPonens k e = some r := by
  obtain ⟨j, hj, hline⟩ := hae
  obtain ⟨i, hi⟩ : ∃ i, (ofProof p safety).earlier? a k = some i := earlier?_of_before ha
  have hant : (ofProof p safety).antecedent? j = some a := antecedent?_eq_some.2 ⟨e, hline⟩
  refine Option.isSome_iff_exists.1 (List.findSome?_isSome_iff.2 ⟨j, ?_, ?_⟩)
  · rw [takeWhile_implications, Index.mem_positions, Nat.sub_zero, List.getElem?_take_of_lt hj]
    exact ⟨Nat.zero_le j, _, hline, Index.leadsTo_iff.2 ⟨a, e, rfl, rfl⟩⟩
  · rw [hant, Option.bind_eq_bind, Option.bind_some, hi]
    rfl

/-- What is found among the hypotheses is the first that is the formula. -/
theorem hypothesis_eq_some (hp : p.WellFormed) (he : e.IsFormula)
    {r : Except Problem Justification} (h : (ofProof p safety).hypothesis e = some r) :
    ∃ n, p.hypotheses[n]? = some e ∧ (∀ m < n, p.hypotheses[m]? ≠ some e) ∧
      r = .ok { rule := .hypothesis, number := n + 1 } := by
  obtain ⟨n, hn, hr⟩ := Option.bind_eq_some_iff.1 h
  cases hr
  rw [show (ofProof p safety).index = Index.ofProof p from rfl, Index.hypothesis?_ofProof,
    List.findIdx?_eq_some_iff_getElem] at hn
  obtain ⟨hlt, hcan, hmin⟩ := hn
  have heq := (canonical_inj (.inl (hp.hypotheses _ (List.getElem_mem hlt))) (.inl he)).1
    (eq_of_beq hcan)
  refine ⟨n, by rw [List.getElem?_eq_getElem hlt, heq], fun m hm hget => ?_, rfl⟩
  obtain ⟨hmlt, hmeq⟩ := List.getElem?_eq_some_iff.1 hget
  exact hmin m hm (by rw [hmeq]; exact beq_self_eq_true _)

/-- A hypothesis is recognised as one. -/
theorem hypothesis_of_mem (h : e ∈ p.hypotheses) :
    ∃ r, (ofProof p safety).hypothesis e = some r := by
  have hindex : (ofProof p safety).index.hypothesis? e.canonical =
      p.hypotheses.findIdx? (·.canonical == e.canonical) := Index.hypothesis?_ofProof p _
  cases hfind : p.hypotheses.findIdx? (·.canonical == e.canonical) with
  | none =>
    rw [List.findIdx?_eq_none_iff] at hfind
    simpa using hfind e h
  | some n =>
    refine ⟨_, Option.bind_eq_some_iff.2 ⟨n, ?_, rfl⟩⟩
    rw [hindex, hfind]

/-- The axioms, told apart. -/
theorem isAxiom_iff (he : e.IsFormula) :
    e.IsAxiom ↔ e.IsSchemaInstance ∨ e.IsQuantifierInstance ∨ e.IsInduction := by
  constructor
  · intro h
    cases h with
    | schema hs => exact .inl ⟨_, hs, (Schema.instance_iff_exists hs he).2 ⟨_, rfl⟩⟩
    | @universal x a t hcap =>
      obtain ⟨hall, hinst⟩ := he.of_implies
      cases hall with
      | forAll _ ha =>
      obtain ⟨s, hs, heq, hcap⟩ := Substitution.exists_isTerm ha hinst hcap
      exact .inr (.inl (.inl ⟨x, a, s, ⟨hs, by rw [heq]⟩, hcap⟩))
    | @existential x a t hcap =>
      obtain ⟨hinst, hex⟩ := he.of_implies
      cases hex with
      | exist _ ha =>
      obtain ⟨s, hs, heq, hcap⟩ := Substitution.exists_isTerm ha hinst hcap
      exact .inr (.inl (.inr ⟨x, a, s, ⟨hs, by rw [heq]⟩, hcap⟩))
    | induction hfree hvar => exact .inr (.inr ⟨_, _, hfree, hvar, rfl⟩)
  · rintro (⟨s, hs, σ, -, rfl⟩ | (⟨x, a, t, ⟨-, rfl⟩, hcap⟩ | ⟨x, a, t, ⟨-, rfl⟩, hcap⟩) |
      ⟨x, a, hfree, hvar, rfl⟩)
    · exact .schema hs
    · exact .universal hcap
    · exact .existential hcap
    · exact .induction hfree hvar

/-- What is recognised as an instance of a schema is an axiom. -/
theorem schema_eq_some (he : e.IsFormula) {r : Except Problem Justification}
    (h : schema e = some r) : e.IsAxiom ∧ ∃ j : Justification, r = .ok j ∧ j.isInstance = true := by
  obtain ⟨s, ⟨before, after, hall, hinst, -⟩, rfl⟩ := (schema_eq_some_iff he).1 h
  refine ⟨(isAxiom_iff he).2 (.inl ⟨s, by simp [hall], hinst⟩), _, rfl, ?_⟩
  by_cases hf : s.family = .arithmetic <;> simp [Justification.isInstance, schemaRule, hf]

/-- What is justified as an instance of a quantifier axiom is an axiom. -/
theorem quantifierAxiom_eq_ok (he : e.IsFormula) {j : Justification}
    (h : quantifierAxiom e = some (.ok j)) : e.IsAxiom ∧ j.isInstance = true := by
  rcases quantifierAxiom_cases he with ⟨hu, hq⟩ | ⟨hx, hq⟩ | ⟨-, -, c, hq⟩ | ⟨-, -, hq⟩
  · cases hq.symm.trans h
    exact ⟨(isAxiom_iff he).2 (.inr (.inl (.inl hu))), rfl⟩
  · cases hq.symm.trans h
    exact ⟨(isAxiom_iff he).2 (.inr (.inl (.inr hx))), rfl⟩
  · cases hq.symm.trans h
  · cases hq.symm.trans h

/-- What is justified as an instance of induction is an axiom. -/
theorem induction_eq_ok (he : e.IsFormula) {j : Justification} (h : induction e = some (.ok j)) :
    e.IsAxiom ∧ j.isInstance = true := by
  obtain ⟨hind, rfl⟩ := (induction_eq_ok_iff he).1 h
  exact ⟨(isAxiom_iff he).2 (.inr (.inr hind)), rfl⟩

/-- Where the universal rule justifies a line, its premise stands before the line and the variable
is not free on the left. -/
theorem universalRule_eq_ok (hp : p.WellFormed) (he : e.IsFormula) {j : Justification}
    (h : (ofProof p safety).universalRule k e = some (.ok j)) :
    ∃ x a b i, e = .implies a (.forAll x b) ∧ j = { rule := .universal, premise := i } ∧ i < k ∧
      p.formulas[i]? = some (some (.implies a b)) ∧ ¬ a.Free x := by
  unfold universalRule at h
  split at h
  · next a x b =>
    obtain ⟨ha, hall⟩ := he.of_implies
    cases hall with
    | forAll _ hb =>
    split at h
    · cases h
    · next i hi =>
      obtain ⟨hik, hline⟩ := earlier?_eq_some hp (.implies ha hb) hi
      split at h
      · cases h
      · next hfree =>
        cases h
        exact ⟨x, a, b, i, rfl, rfl, hik, hline, by rwa [isFree_iff] at hfree⟩
  · cases h

/-- Where the existential rule justifies a line, its premise stands before the line and the variable
is not free on the right. -/
theorem existentialRule_eq_ok (hp : p.WellFormed) (he : e.IsFormula) {j : Justification}
    (h : (ofProof p safety).existentialRule k e = some (.ok j)) :
    ∃ x a b i, e = .implies (.exist x a) b ∧ j = { rule := .existential, premise := i } ∧ i < k ∧
      p.formulas[i]? = some (some (.implies a b)) ∧ ¬ b.Free x := by
  unfold existentialRule at h
  split at h
  · next x a b =>
    obtain ⟨hex, hb⟩ := he.of_implies
    cases hex with
    | exist _ ha =>
    split at h
    · cases h
    · next i hi =>
      obtain ⟨hik, hline⟩ := earlier?_eq_some hp (.implies ha hb) hi
      split at h
      · cases h
      · next hfree =>
        cases h
        exact ⟨x, a, b, i, rfl, rfl, hik, hline, by rwa [isFree_iff] at hfree⟩
  · cases h

end

/-! ## Justified lines -/

/-- Of an attempt whose errors are dropped the justification is left. -/
theorem justified_eq_some {a : Attempt} {r : Except Problem Justification} :
    justified a = some r ↔ ∃ j, a = some (.ok j) ∧ r = .ok j := by
  unfold justified
  split <;> simp_all [eq_comm]

/-- A line is classified: what no rule answers is not proved. -/
theorem classify_eq_attempt (c : Context) (k : Nat) (e : Expr) :
    c.classify k e = some ((c.attempt k e).getD (.error .unproved)) := by
  unfold classify
  cases c.attempt k e <;> rfl

/-- No line is left without a class. -/
theorem exists_classify (c : Context) (k : Nat) (e : Expr) : ∃ r, c.classify k e = some r :=
  ⟨_, classify_eq_attempt c k e⟩

/-- What a rule says of a line is what is said of it in the end. -/
theorem classify_of_attempt {c : Context} {k : Nat} {e : Expr} {r : Except Problem Justification}
    (h : c.attempt k e = some r) : c.classify k e = some r := by
  rw [classify_eq_attempt, h, Option.getD_some]

/-- The class of a line is what a rule says of it, or it is not proved and no rule answers. -/
theorem attempt_of_classify {c : Context} {k : Nat} {e : Expr} {r : Except Problem Justification}
    (h : c.classify k e = some r) :
    c.attempt k e = some r ∨ c.attempt k e = none ∧ r = .error .unproved := by
  rw [classify_eq_attempt, Option.some_inj] at h
  cases ha : c.attempt k e with
  | none =>
    rw [ha] at h
    exact .inr ⟨rfl, h.symm⟩
  | some r' =>
    rw [ha] at h
    exact .inl (congrArg some h)

/-- How a line can be justified: the rules are tried in order, and what an earlier rule leaves open
is known where a later one applies. -/
theorem classify_eq_ok {c : Context} {k : Nat} {e : Expr} {j : Justification}
    (h : c.classify k e = some (.ok j)) :
    schema e = some (.ok j) ∨ c.modusPonens k e = some (.ok j) ∨
      quantifierAxiom e = some (.ok j) ∨
      quantifierAxiom e = none ∧ (induction e = some (.ok j) ∨ c.hypothesis e = some (.ok j) ∨
        c.bannedName e = none ∧ (c.universalRule k e = some (.ok j) ∨
          c.existentialRule k e = some (.ok j))) := by
  have hbanned : c.bannedName e ≠ some (.ok j) := by
    unfold bannedName
    split
    · simp
    · split <;> simp [Attempt.reject]
  obtain hattempt | ⟨-, hj⟩ := attempt_of_classify h
  swap
  · cases hj
  simp only [attempt, Option.orElse_eq_some, justified_eq_some] at hattempt
  rcases hattempt with h | ⟨-, h | ⟨-, h | ⟨hq, ⟨j', h, hj⟩ | ⟨-, hattempt⟩⟩⟩⟩
  · exact .inl h
  · exact .inr (.inl h)
  · exact .inr (.inr (.inl h))
  · cases hj
    exact .inr (.inr (.inr ⟨hq, .inl h⟩))
  rcases hattempt with h | ⟨-, h | ⟨hb, h | ⟨-, h | ⟨-, h⟩⟩⟩⟩
  · exact .inr (.inr (.inr ⟨hq, .inr (.inl h)⟩))
  · exact absurd h hbanned
  · exact .inr (.inr (.inr ⟨hq, .inr (.inr ⟨hb, .inl h⟩)⟩))
  · exact .inr (.inr (.inr ⟨hq, .inr (.inr ⟨hb, .inr h⟩)⟩))
  · exact .inr (.inr (.inr ⟨hq, .inl h⟩))

/-- A justified line is one step from the lines before it. -/
theorem step_of_classify {p : Proof} (hp : p.WellFormed) {safety : Bool} {k : Nat} {e : Expr}
    (he : e.IsFormula) {j : Justification}
    (h : (ofProof p safety).classify k e = some (.ok j)) :
    Step p.hypotheses (p.Before k) e := by
  rcases classify_eq_ok h with h | h | h | ⟨-, h | h | ⟨-, h | h⟩⟩
  · exact .holds (schema_eq_some he h).1
  · obtain ⟨i, j, a, -, hi, hj, ha, hae⟩ := modusPonens_eq_some hp he h
    exact .modusPonens ⟨i, hi, ha⟩ ⟨j, hj, hae⟩
  · exact .holds (quantifierAxiom_eq_ok he h).1
  · exact .holds (induction_eq_ok he h).1
  · obtain ⟨n, hn, -, -⟩ := hypothesis_eq_some hp he h
    exact .given (List.mem_of_getElem? hn)
  · obtain ⟨x, a, b, i, rfl, -, hi, hline, hfree⟩ := universalRule_eq_ok hp he h
    exact .universal ⟨i, hi, hline⟩ hfree
  · obtain ⟨x, a, b, i, rfl, -, hi, hline, hfree⟩ := existentialRule_eq_ok hp he h
    exact .existential ⟨i, hi, hline⟩ hfree

end Context

/-! ## The lines of a check -/

namespace Line

/-- The justification or the error of a line that has one of them and not both. -/
def verdict (l : Line) : Option (Except LineError Justification) :=
  match l.justification?, l.error? with
  | some j, none => some (.ok j)
  | none, some err => some (.error err)
  | _, _ => none

/-- A line is justified when it has a justification and no error. -/
theorem verdict_eq_ok_iff {l : Line} {j : Justification} :
    l.verdict = some (.ok j) ↔ l.justification? = some j ∧ l.error? = none := by
  unfold verdict
  split <;> simp_all

/-- A line is in error when it has an error and no justification. -/
theorem verdict_eq_error_iff {l : Line} {err : LineError} :
    l.verdict = some (.error err) ↔ l.justification? = none ∧ l.error? = some err := by
  unfold verdict
  split <;> simp_all

end Line

/-- The formula of a line is what it was read as. -/
theorem ProofLine.formula?_eq_some_iff {l : ProofLine} {e : Expr} :
    l.formula? = some e ↔ l.parsed = .ok e := by
  unfold formula?
  cases l.parsed <;> simp [Except.toOption]

namespace Context

variable {c : Context} {k : Nat} {l : ProofLine}

/-- The verdict on a line that was read is what it is classified as. -/
theorem verdict_line_of_parsed {e : Expr} (h : l.parsed = .ok e) :
    (c.line k l).verdict = (c.classify k e).map (Except.mapError (LineError.mk (k + 1))) := by
  simp only [Line.verdict, line, h]
  rcases c.classify k e with _ | _ | _ <;> rfl

/-- The verdict on a line that could not be read is the error of reading it. -/
theorem verdict_line_of_malformed {f : SyntaxError} (h : l.parsed = .error f) :
    (c.line k l).verdict = some (.error ⟨k + 1, .malformed f⟩) := by
  simp only [Line.verdict, line, h]
  rfl

theorem mapError_eq_ok_iff {ε ε' α : Type} {r : Except ε α} {f : ε → ε'} {a : α} :
    r.mapError f = .ok a ↔ r = .ok a := by
  cases r <;> simp [Except.mapError]

/-- The verdict is a justification where the line was read and is classified as justified. -/
theorem verdict_line_eq_ok_iff {j : Justification} :
    (c.line k l).verdict = some (.ok j) ↔
      ∃ e, l.parsed = .ok e ∧ c.classify k e = some (.ok j) := by
  cases hparsed : l.parsed with
  | error f => simp [verdict_line_of_malformed hparsed]
  | ok e =>
    rw [verdict_line_of_parsed hparsed, Option.map_eq_some_iff]
    simp [mapError_eq_ok_iff]

/-- The error of a line that was read is the problem it is classified with, on that line. -/
theorem error?_line_eq_some_iff {e : Expr} {err : LineError} (h : l.parsed = .ok e) :
    (c.line k l).error? = some err ↔
      ∃ problem, c.classify k e = some (.error problem) ∧ err = ⟨k + 1, problem⟩ := by
  simp only [line, h]
  rcases c.classify k e with _ | _ | _ <;> simp [Attempt.problem?, eq_comm]

/-- A check gives every line a justification or an error, and not both. -/
theorem exists_verdict_line (c : Context) (k : Nat) (l : ProofLine) :
    ∃ r, (c.line k l).verdict = some r := by
  cases hparsed : l.parsed with
  | error f => exact ⟨_, verdict_line_of_malformed hparsed⟩
  | ok e =>
    obtain ⟨r, hr⟩ := c.exists_classify k e
    rw [verdict_line_of_parsed hparsed, hr]
    exact ⟨_, rfl⟩

/-- A justification of a line is the verdict on it: no error stands beside it. -/
theorem verdict_line_of_justification? {j : Justification}
    (hj : (c.line k l).justification? = some j) : (c.line k l).verdict = some (.ok j) := by
  obtain ⟨r, hr⟩ := exists_verdict_line c k l
  cases r with
  | ok j' =>
    cases (Line.verdict_eq_ok_iff.1 hr).1.symm.trans hj
    exact hr
  | error err => cases (Line.verdict_eq_error_iff.1 hr).1.symm.trans hj

/-- A line has no error where its verdict is a justification. -/
theorem error?_line_eq_none_iff : (c.line k l).error? = none ↔
    ∃ j, (c.line k l).verdict = some (.ok j) := by
  obtain ⟨r, hr⟩ := exists_verdict_line c k l
  cases r with
  | ok j => simp [hr, (Line.verdict_eq_ok_iff.1 hr).2]
  | error err => simp [hr, (Line.verdict_eq_error_iff.1 hr).2]

end Context

namespace Proof

open Sequitur.Expr

/-- The verdict on line `k` is that of the context of the proof. -/
theorem getElem?_check_lines (p : Proof) (safety : Bool) (k : Nat) :
    (p.check safety).lines[k]? = p.lines[k]?.map ((Context.ofProof p safety).line k) :=
  List.getElem?_mapIdx

/-- The formula at place `k` is that of the line there. -/
theorem getElem?_formulas_eq_some_iff {p : Proof} {k : Nat} {e : Expr} :
    p.formulas[k]? = some (some e) ↔ ∃ l, p.lines[k]? = some l ∧ l.parsed = .ok e := by
  simp only [formulas, List.getElem?_map, Option.map_eq_some_iff, ProofLine.formula?_eq_some_iff]

/-- The verdict on a line that was read is its classification. -/
theorem exists_verdict {p : Proof} {k : Nat} {e : Expr} (hk : p.formulas[k]? = some (some e))
    (safety : Bool) : ∃ l, (p.check safety).lines[k]? = some l ∧
      l.verdict =
        ((Context.ofProof p safety).classify k e).map (Except.mapError (LineError.mk (k + 1))) := by
  obtain ⟨l, hl, hparsed⟩ := getElem?_formulas_eq_some_iff.1 hk
  refine ⟨(Context.ofProof p safety).line k l, ?_, Context.verdict_line_of_parsed hparsed⟩
  rw [getElem?_check_lines, hl]
  rfl

/-- A line that is justified was read, and its classification is the justification. -/
theorem classify_of_justification? {p : Proof} {safety : Bool} {k : Nat} {l : Line}
    {j : Justification} (hl : (p.check safety).lines[k]? = some l)
    (hj : l.justification? = some j) :
    ∃ e, p.formulas[k]? = some (some e) ∧
      (Context.ofProof p safety).classify k e = some (.ok j) := by
  rw [getElem?_check_lines, Option.map_eq_some_iff] at hl
  obtain ⟨pl, hpl, rfl⟩ := hl
  obtain ⟨e, hparsed, hclass⟩ :=
    Context.verdict_line_eq_ok_iff.1 (Context.verdict_line_of_justification? hj)
  exact ⟨e, getElem?_formulas_eq_some_iff.2 ⟨pl, hpl, hparsed⟩, hclass⟩

/-! ## Proofs without errors -/

/-- A line has no error exactly when it was read and a rule justifies it. -/
theorem error?_line_eq_none {c : Context} {k : Nat} {l : ProofLine} :
    (c.line k l).error? = none ↔ ∃ e j, l.parsed = .ok e ∧ c.classify k e = some (.ok j) := by
  rw [Context.error?_line_eq_none_iff]
  simp only [Context.verdict_line_eq_ok_iff]
  exact exists_comm

/-- The errors of a check are those of the lines and the one of the goal. -/
theorem mem_errors_iff {p : Proof} {safety : Bool} {err : LineError} :
    err ∈ (p.check safety).errors ↔
      (∃ k l, p.lines[k]? = some l ∧ ((Context.ofProof p safety).line k l).error? = some err) ∨
        p.reachesGoal = false ∧ err = ⟨0, .wrongGoal⟩ := by
  show err ∈ (p.lines.mapIdx (Context.ofProof p safety).line).filterMap Line.error? ++
    (if p.reachesGoal then [] else [⟨0, .wrongGoal⟩]) ↔ _
  rw [List.mem_append, List.mem_filterMap]
  refine or_congr ⟨?_, ?_⟩ (by cases p.reachesGoal <;> simp)
  · rintro ⟨l, hl, herr⟩
    obtain ⟨k, hk, rfl⟩ := List.mem_mapIdx.1 hl
    exact ⟨k, _, List.getElem?_eq_getElem hk, herr⟩
  · rintro ⟨k, l, hl, herr⟩
    obtain ⟨hk, rfl⟩ := List.getElem?_eq_some_iff.1 hl
    exact ⟨_, List.mem_mapIdx.2 ⟨k, hk, rfl⟩, herr⟩

/-- A proof has no errors when every line is read and justified and the last one is the goal. -/
theorem check_errors_eq_nil_iff {p : Proof} {safety : Bool} :
    (p.check safety).errors = [] ↔
      (∀ k l, p.lines[k]? = some l → ∃ e j, l.parsed = .ok e ∧
        (Context.ofProof p safety).classify k e = some (.ok j)) ∧ p.reachesGoal = true := by
  simp only [← error?_line_eq_none, List.eq_nil_iff_forall_not_mem, mem_errors_iff, not_or]
  constructor
  · intro h
    refine ⟨fun k l hl => Option.eq_none_iff_forall_ne_some.2 fun err herr => ?_, ?_⟩
    · exact (h err).1 ⟨k, l, hl, herr⟩
    · by_contra hgoal
      exact (h _).2 ⟨Bool.eq_false_of_not_eq_true hgoal, rfl⟩
  · rintro ⟨hlines, hgoal⟩ err
    refine ⟨?_, by simp [hgoal]⟩
    rintro ⟨k, l, hl, herr⟩
    rw [hlines k l hl] at herr
    cases herr

/-- In a proof without errors every line is one step from the lines before it. -/
theorem step_of_check {p : Proof} (hp : p.WellFormed) {safety : Bool}
    (h : (p.check safety).errors = []) {k : Nat} {e : Expr} (hk : p.formulas[k]? = some (some e)) :
    Step p.hypotheses (p.Before k) e := by
  obtain ⟨l, hl, hle⟩ := getElem?_formulas_eq_some_iff.1 hk
  obtain ⟨e', j, hparsed, hclass⟩ := (check_errors_eq_nil_iff.1 h).1 k l hl
  obtain rfl : e' = e := Except.ok.inj (hparsed.symm.trans hle)
  exact Context.step_of_classify hp (hp.isFormula hk) hclass

/-- Being the same text as the goal is being the goal. -/
theorem reachesGoal_iff {p : Proof} (hp : p.WellFormed) :
    p.reachesGoal = true ↔ p.last? = some p.sequent.goal.formula := by
  unfold reachesGoal
  split
  · next hlast => simp [hlast]
  · next e hlast =>
    have hmem : some e ∈ p.formulas := List.mem_of_getLast? (Option.join_eq_some_iff.1 hlast)
    rw [same_iff (.inl (hp.lines e hmem)) (.inl hp.goal), hlast, Option.some.injEq]

/-- In a proof without errors the goal is the formula of the last line. -/
theorem last?_of_check {p : Proof} (hp : p.WellFormed) {safety : Bool}
    (h : (p.check safety).errors = []) : p.last? = some p.sequent.goal.formula :=
  (reachesGoal_iff hp).1 (check_errors_eq_nil_iff.1 h).2

/-- The last line of a proof without errors is its goal. -/
theorem goal_of_check {p : Proof} (hp : p.WellFormed) {safety : Bool}
    (h : (p.check safety).errors = []) :
    p.formulas[p.formulas.length - 1]? = some (some p.sequent.goal.formula) := by
  rw [← List.getLast?_eq_getElem?]
  exact Option.join_eq_some_iff.1 (last?_of_check hp h)

end Proof

end Sequitur
