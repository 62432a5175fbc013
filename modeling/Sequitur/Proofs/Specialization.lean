import Mathlib
import Sequitur.Proofs.InstantiatedTexts
import Sequitur.Proofs.Renaming

/-!
# Specialising a formula to a numeral

Specialising puts the numeral for `v` in the canonical text of a formula and reads the text again.
In a canonical text no variable stands right after a name (`Expr.IsFormula.not_adjoins`), so the
text is read again exactly if no quantifier binds `v` and no function is called so, and what is read
is the substitution instance: nothing is ever read as another formula (`Text.specialize_eq_ok_iff`).

A numeral is a closed term, and no quantifier captures a variable of it. So the first line that is
given is an instance of the axiom of universal instantiation, and after `@vF` the second follows
from it by modus ponens.
-/

namespace Sequitur

namespace Expr

/-- The instance of universal instantiation for the formula and the numeral, and its conclusion. -/
def specialization (f : Expr) (v : Text) (n : Nat) : List Expr :=
  [.implies (.forAll v f) (f.subst v (.numeral n)), f.subst v (.numeral n)]

/-- A numeral is free for every variable. -/
theorem isQuantifierInstance_numeral (v : Text) (f : Expr) (n : Nat) :
    (implies (.forAll v f) (f.subst v (.numeral n))).IsQuantifierInstance :=
  .inl ⟨v, f, numeral n, ⟨isTerm_numeral n, rfl⟩,
    Substitution.not_capturedIn (fun y hy => absurd hy (not_free_numeral n y)) f⟩

end Expr

/-! ## What is given -/

/-- A text is read for specialization exactly when it is read as a formula. -/
theorem SpecializeError.parse_eq_ok_iff {text : Text} {e : Expr} :
    SpecializeError.parse text = .ok e ↔ text.parseFormula = .ok e := by
  unfold SpecializeError.parse
  cases text.parseFormula <;> simp [Except.mapError]

namespace Text

/-- Specialising succeeds for the formulas in which the variable is free, bound by no quantifier and
the name of no function, and gives the substitution instance. -/
theorem specialize_eq_ok_iff {text v : Text} {n : Int} {lines : List Text} :
    text.specialize v n = .ok lines ↔ ∃ f, text.parseFormula = .ok f ∧ f.Free v ∧ f.Spares v ∧
      lines = (f.specialization v n.toNat).map Expr.canonical := by
  have hinst {f g : Expr} (hf : f.IsFormula) (hfree : f.Free v) :
      SpecializeError.parse (f.canonical.instantiate v n) = .ok g ↔
        f.Spares v ∧ g = f.subst v (.numeral n.toNat) := by
    have hv := Expr.WellFormed.isLowerIdent_of_free (.inl hf) hfree
    rw [SpecializeError.parse_eq_ok_iff]
    exact parseFormula_instantiate_of_not_adjoins (Expr.WellFormed.stripSpace_canonical (.inl hf))
      hf.parse_canonical hv (hf.not_adjoins hv) n
  constructor
  · intro h
    obtain ⟨f, hparse, h⟩ := Grammar.bind_eq_ok.1 h
    rw [SpecializeError.parse_eq_ok_iff] at hparse
    have hf := isFormula_of_parseFormula hparse
    cases hfree : f.isFree v with
    | false =>
      rw [hfree] at h
      cases h
    | true =>
      rw [hfree] at h
      obtain ⟨g, hg, h⟩ := Grammar.bind_eq_ok.1 h
      rw [Expr.isFree_iff] at hfree
      obtain ⟨hspares, rfl⟩ := (hinst hf hfree).1 hg
      exact ⟨f, hparse, hfree, hspares, (Except.ok.inj h).symm⟩
  · rintro ⟨f, hparse, hfree, hspares, rfl⟩
    refine Grammar.bind_eq_ok.2 ⟨f, SpecializeError.parse_eq_ok_iff.2 hparse, ?_⟩
    rw [Expr.isFree_iff.2 hfree]
    have hg := (hinst (isFormula_of_parseFormula hparse) hfree).2 ⟨hspares, rfl⟩
    exact Grammar.bind_eq_ok.2 ⟨_, hg, rfl⟩

end Text

/-! ## Checking what is given -/

/-- A proof written in canonical texts is read as the formulas. -/
theorem Proof.exists_read_canonical {hyps es : List Expr} {g : Expr}
    (hhyps : ∀ h ∈ hyps, h.IsFormula) (hes : ∀ e ∈ es, e.IsFormula) (hg : g.IsFormula) :
    ∃ p, Proof.read (Sequent.format (hyps.map Expr.canonical) g.canonical)
        (es.map Expr.canonical) = .ok p ∧
      p.hypotheses = hyps ∧ p.sequent.goal.formula = g ∧ p.formulas = es.map some := by
  refine ⟨_, Grammar.bind_eq_ok.2 ⟨_, Sequent.parse_format_canonical hhyps hg, rfl⟩, ?_, rfl, ?_⟩
  · show (hyps.map Statement.ofExpr).map Statement.formula = hyps
    rw [List.map_map]
    exact List.map_id _
  · show ((es.map Expr.canonical).map readLine).map ProofLine.formula? = es.map some
    rw [List.map_map, List.map_map]
    exact List.map_congr_left fun e he =>
      ProofLine.formula?_eq_some_iff.2 (hes e he).parse_canonical

/-- After its generalisation, a formula is specialised by an axiom and modus ponens. -/
theorem Expr.accepts_specialization {v : Text} {f : Expr} (hall : (forAll v f).IsFormula) {n : Nat}
    (hinst : (f.subst v (.numeral n)).IsFormula) :
    Accepts [forAll v f] (fun _ => False) (forAll v f :: f.specialization v n) := by
  have haxiom := Context.quantifierAxiom_succeeds (.implies hall hinst)
    (isQuantifierInstance_numeral v f n)
  refine .cons (.given rfl (List.mem_singleton_self _)) ?_
  refine .cons (.quantifierAxiom haxiom) ?_
  exact .cons (.modusPonens (.inl (.inr rfl)) (.inr rfl)) .nil

namespace Text

/-- Specialising succeeds exactly if the text is that of a formula `f` in which `v` is free, bound
by no quantifier and the name of no function. Then it gives the two lines that lead from `@vf` to
`f` with the numeral of `n` for `v`, and the proof that they complete has no errors. -/
theorem specialize_checks (text v : Text) (n : Int) :
    ((∃ lines, text.specialize v n = .ok lines) ↔
      ∃ f, text.parseFormula = .ok f ∧ f.Free v ∧ f.Spares v) ∧
    ∀ lines, text.specialize v n = .ok lines → ∃ f l₁ l₂ p, text.parseFormula = .ok f ∧
      lines = [l₁, l₂] ∧ l₂ = (f.subst v (.numeral n.toNat)).canonical ∧
      Proof.read (Sequent.format [(Expr.forAll v f).canonical] l₂)
        [(Expr.forAll v f).canonical, l₁, l₂] = .ok p ∧
      (p.check false).errors = [] := by
  simp only [specialize_eq_ok_iff]
  refine ⟨?_, ?_⟩
  · constructor
    · rintro ⟨_, f, hparse, hfree, hspares, -⟩
      exact ⟨f, hparse, hfree, hspares⟩
    · rintro ⟨f, hparse, hfree, hspares⟩
      exact ⟨_, f, hparse, hfree, hspares, rfl⟩
  · rintro lines ⟨f, hparse, hfree, -, rfl⟩
    have hf := isFormula_of_parseFormula hparse
    have hinst : (f.subst v (.numeral n.toNat)).IsFormula := hf.subst (Expr.isTerm_numeral n.toNat)
    have hall : (Expr.forAll v f).IsFormula :=
      .forAll (Expr.WellFormed.isLowerIdent_of_free (.inl hf) hfree) hf
    have hlines : ∀ e ∈ Expr.forAll v f :: f.specialization v n.toNat, e.IsFormula := by
      simp only [Expr.specialization, List.forall_mem_cons]
      exact ⟨hall, .implies hall hinst, hinst, nofun⟩
    obtain ⟨p, hread, hhyps, hgoal, hformulas⟩ :=
      Proof.exists_read_canonical (List.forall_mem_singleton.2 hall) hlines hinst
    have haccepts := Expr.accepts_specialization hall hinst
    rw [← hhyps] at haccepts
    exact ⟨f, _, _, p, hparse, rfl, rfl, hread,
      Proof.check_of_accepts hformulas haccepts (congrArg some hgoal.symm)⟩

/-- A text with white space, and a variable that stands after a name as soon as this is gone. -/
theorem specialize_checks_sum :
    ∃ l₁ p, specialize "@y x+y=y+x" "x" 2 = .ok [l₁, "(@y((0''+y)=(y+0'')))"] ∧
      Proof.read "(@x(@y((x+y)=(y+x))))|-(@y((0''+y)=(y+0'')))"
        ["(@x(@y((x+y)=(y+x))))", l₁, "(@y((0''+y)=(y+0'')))"] = .ok p ∧
      (p.check false).errors = [] := by
  have hparse : parseFormula "@y x+y=y+x" = .ok (.forAll "y"
      (.equals (.plus (.var "x") (.var "y")) (.plus (.var "y") (.var "x")))) := by cbv
  have hchecks := specialize_checks "@y x+y=y+x" "x" 2
  obtain ⟨lines, hlines⟩ := hchecks.1.2
    ⟨_, hparse, Expr.isFree_iff.1 (by decide), by decide⟩
  obtain ⟨f, l₁, l₂, p, hf, rfl, hl₂, hread, hok⟩ := hchecks.2 lines hlines
  cases hparse.symm.trans hf
  have htext : l₂ = Text.ofString "(@y((0''+y)=(y+0'')))" := hl₂.trans (by cbv)
  rw [htext] at hlines hread
  exact ⟨l₁, p, hlines, hread, hok⟩

end Text

end Sequitur
