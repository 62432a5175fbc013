import Mathlib
import Sequitur.Proof.Check
import Sequitur.Proofs.FilledTokens
import Sequitur.Proofs.Schemas

/-!
# What the recognisers of axioms recognise

The axioms as trees are the instances of the schemas (`Expr.IsSchemaInstance`), of the two
quantifier axioms with a term that is not captured (`Expr.IsQuantifierInstance`), and of induction
(`Expr.IsInduction`). A formula that is an instance of a quantifier axiom but for a captured term
(`Expr.IsCapturing`) is no axiom, and to be told apart from one that has not the form at all.

The recognisers compare texts and walk over trees in their own ways. On formulas each answers by
these predicates and by nothing else, and what it does not answer is no axiom of its sort.
-/

namespace Sequitur

namespace Expr

/-- The sides of an implication that is a formula are formulas. -/
theorem IsFormula.of_implies {a b : Expr} (h : IsFormula (.implies a b)) :
    a.IsFormula ∧ b.IsFormula := by
  cases h with
  | implies ha hb => exact ⟨ha, hb⟩

/-! ## The axioms as trees -/

/-- An instance of one of the schemas. -/
def IsSchemaInstance (e : Expr) : Prop := ∃ s ∈ Schema.all, s.Instance e

/-- `(@xA)->A[x:=t]`. Where `x` is not free in `A` this is `(@xA)->A`, whatever `t` is. -/
def IsUniversalOf (x : Text) (a t e : Expr) : Prop :=
  t.IsTerm ∧ e = .implies (.forAll x a) (a.subst x t)

/-- `A[x:=t]->(?xA)`. -/
def IsExistentialOf (x : Text) (a t e : Expr) : Prop :=
  t.IsTerm ∧ e = .implies (a.subst x t) (.exist x a)

/-- `(@xA)->A[x:=t]`, where `t` is free for `x` in `A`. -/
def IsUniversalInstance (e : Expr) : Prop :=
  ∃ x a t, IsUniversalOf x a t e ∧ ¬ t.CapturedIn x a

/-- `A[x:=t]->(?xA)`, where `t` is free for `x` in `A`. -/
def IsExistentialInstance (e : Expr) : Prop :=
  ∃ x a t, IsExistentialOf x a t e ∧ ¬ t.CapturedIn x a

/-- An instance of a quantifier axiom. -/
def IsQuantifierInstance (e : Expr) : Prop := e.IsUniversalInstance ∨ e.IsExistentialInstance

/-- An instance of a quantifier axiom but for a term that is captured. -/
def IsCapturing (e : Expr) : Prop :=
  ∃ x a t, (IsUniversalOf x a t e ∨ IsExistentialOf x a t e) ∧ t.CapturedIn x a

/-- `(A[x:=0] & @x(A->A[x:=x']))->A`, where `x` is free in `A` and only variables of `A` are called
`x`. -/
def IsInduction (e : Expr) : Prop :=
  ∃ x a, a.Free x ∧ a.VarOnly x ∧
    e = .implies (.and (a.subst x .zero)
      (.forAll x (.implies a (a.subst x (.successor (.var x)))))) a

/-- The tree is `(C[x:=0] & @x(C->C[x:=x']))->C`, where `x` is free in `C`, no quantifier in `C` is
over `x` and no function in `C` is called `x`. -/
def IsInductionOn (e : Expr) (x : Text) (c : Expr) : Prop :=
  c.Free x ∧ c.Spares x ∧
    e = .implies (.and (c.subst x .zero)
      (.forAll x (.implies c (c.subst x (.successor (.var x)))))) c

/-- The tree has the form `(D & @x(G->H))->C`, where `x` is not free in `C`. -/
def IsVacuousInductionOn (e : Expr) (x : Text) (c : Expr) : Prop :=
  ¬ c.Free x ∧ ∃ d g h, e = .implies (.and d (.forAll x (.implies g h))) c

/-- In an instance of induction that is a formula the parts are of their sorts. -/
theorem isFormula_of_isInductionOn {e c : Expr} {x : Text} (he : e.IsFormula)
    (h : e.IsInductionOn x c) : Text.isLowerIdent x = true ∧ c.IsFormula := by
  obtain ⟨-, -, rfl⟩ := h
  obtain ⟨hleft, hc⟩ := he.of_implies
  cases hleft with
  | and _ hall =>
  cases hall with
  | forAll hx _ => exact ⟨hx, hc⟩

/-- The two ways of saying that a formula is an instance of induction agree. -/
theorem isInduction_iff {e : Expr} (he : e.IsFormula) :
    e.IsInduction ↔ ∃ x c, e.IsInductionOn x c := by
  constructor
  · rintro ⟨x, c, hfree, hvar, rfl⟩
    obtain ⟨hleft, hc⟩ := he.of_implies
    cases hleft with
    | and _ hall =>
    cases hall with
    | forAll hx _ => exact ⟨x, c, hfree, (WellFormed.varOnly_iff_spares hx (.inl hc)).1 hvar, rfl⟩
  · rintro ⟨x, c, hind⟩
    obtain ⟨hx, hc⟩ := isFormula_of_isInductionOn he hind
    obtain ⟨hfree, hspares, rfl⟩ := hind
    exact ⟨x, c, hfree, (WellFormed.varOnly_iff_spares hx (.inl hc)).2 hspares, rfl⟩

end Expr

namespace Context

open Sequitur.Expr

variable {e : Expr}

/-! ## Schemas -/

/-- The rule by which instances of a schema are justified. -/
def schemaRule (s : Schema) : Rule := if s.family = .arithmetic then .arithmetic else .logic

/-- The schemas justify a formula by the first of them that it is an instance of. -/
theorem schema_eq_some_iff (he : e.IsFormula) {r : Except Problem Justification} :
    schema e = some r ↔
      ∃ s : Schema, s.IsFirst e ∧ r = .ok { rule := schemaRule s, number := s.number } := by
  simp only [← Schema.find?_eq_some_iff he]
  unfold schema
  split
  · next hnone => simp [hnone]
  · next s hs =>
    rw [hs]
    constructor
    · intro h
      exact ⟨s, rfl, (Option.some.inj h).symm⟩
    · rintro ⟨_, ⟨⟩, rfl⟩
      rfl

/-- The schemas say nothing exactly of what is an instance of none of them. -/
theorem schema_eq_none_iff (he : e.IsFormula) : schema e = none ↔ ¬ e.IsSchemaInstance := by
  have hnone : schema e = none ↔ Schema.find? e = none := by
    unfold schema
    split
    · next h => simp [h]
    · next h => simp [h, Attempt.justify]
  rw [hnone, Schema.find?_eq_none_iff he, IsSchemaInstance]
  push Not
  rfl

/-! ## Quantifier axioms -/

/-- The answer `r` tells whether some `x`, `a` and `t` stand in the relation `of`, and whether `t`
is captured. -/
structure Decides (of : Text → Expr → Expr → Prop) (r : Except CaptureError Bool) : Prop where
  valid : r = .ok true ↔ ∃ x a t, of x a t ∧ ¬ t.CapturedIn x a
  captured : (∃ c, r = .error c) ↔ ∃ x a t, of x a t ∧ t.CapturedIn x a

/-- Refusal is the answer where nothing stands in the relation. -/
theorem decides_of_not {of : Text → Expr → Expr → Prop} (h : ∀ x a t, ¬ of x a t) :
    Decides of (.ok false) :=
  ⟨by simp [h], by simp [h]⟩

/-- The check of an instance decides a relation that only its own variable and formula can stand
in. -/
theorem decides_check {of : Text → Expr → Expr → Prop} {x : Text} {a inst : Expr}
    (ha : a.IsFormula) (hinst : inst.IsFormula)
    (h : ∀ y b t, of y b t ↔ t.IsTerm ∧ y = x ∧ b = a ∧ inst = a.subst x t) :
    Decides of (Substitution.check a inst x) where
  valid := by
    rw [Substitution.check_eq_ok_true_iff_isTerm ha hinst]
    simp only [h]
    constructor
    · rintro ⟨t, ht, heq, hcap⟩
      exact ⟨x, a, t, ⟨ht, rfl, rfl, heq⟩, hcap⟩
    · rintro ⟨_, _, t, ⟨ht, rfl, rfl, heq⟩, hcap⟩
      exact ⟨t, ht, heq, hcap⟩
  captured := by
    rw [Substitution.exists_check_eq_error_iff ha hinst]
    simp only [h]
    constructor
    · rintro ⟨t, ht, heq, hcap⟩
      exact ⟨x, a, t, ⟨ht, rfl, rfl, heq⟩, hcap⟩
    · rintro ⟨_, _, t, ⟨ht, rfl, rfl, heq⟩, hcap⟩
      exact ⟨t, ht, heq, hcap⟩

/-- The recogniser of the universal axiom decides whether a formula is an instance and whether the
term is captured. -/
theorem decides_universalInstance (he : e.IsFormula) :
    Decides (IsUniversalOf · · · e) (universalInstance e) := by
  unfold universalInstance
  split
  · next x a inst =>
    obtain ⟨hall, hinst⟩ := he.of_implies
    cases hall with
    | forAll _ ha =>
    refine decides_check ha hinst fun y b t => ?_
    simp only [IsUniversalOf, binary.injEq, quantified.injEq, true_and]
    grind
  · next hshape =>
    refine decides_of_not ?_
    rintro x a t ⟨-, rfl⟩
    exact hshape _ _ _ rfl

/-- The recogniser of the existential axiom decides whether a formula is an instance and whether the
term is captured. -/
theorem decides_existentialInstance (he : e.IsFormula) :
    Decides (IsExistentialOf · · · e) (existentialInstance e) := by
  unfold existentialInstance
  split
  · next inst x a =>
    obtain ⟨hinst, hex⟩ := he.of_implies
    cases hex with
    | exist _ ha =>
    refine decides_check ha hinst fun y b t => ?_
    simp only [IsExistentialOf, binary.injEq, quantified.injEq, true_and]
    grind
  · next hshape =>
    refine decides_of_not ?_
    rintro x a t ⟨-, rfl⟩
    exact hshape _ _ _ rfl

/-- A term is captured exactly where one of the recognisers reports it. -/
theorem isCapturing_iff (he : e.IsFormula) : e.IsCapturing ↔
    (∃ c, universalInstance e = .error c) ∨ ∃ c, existentialInstance e = .error c := by
  rw [(decides_universalInstance he).captured, (decides_existentialInstance he).captured]
  unfold IsCapturing
  grind

section
variable (he : e.IsFormula)
include he

/-- An instance of the universal axiom is justified as such. -/
theorem quantifierAxiom_of_universal (h : e.IsUniversalInstance) : quantifierAxiom e =
    .justify { rule := .logic, number := Schema.universalInstantiation } := by
  unfold quantifierAxiom
  rw [(decides_universalInstance he).valid.2 h]

/-- An instance of the existential axiom is justified as such, unless it is one of the universal
axiom. -/
theorem quantifierAxiom_of_existential (hu : ¬ e.IsUniversalInstance)
    (h : e.IsExistentialInstance) : quantifierAxiom e =
      .justify { rule := .logic, number := Schema.existentialGeneralization } := by
  have huniversal := mt (decides_universalInstance he).valid.1 hu
  have hexistential := (decides_existentialInstance he).valid.2 h
  unfold quantifierAxiom
  split
  · next htrue => exact absurd htrue huniversal
  · rw [hexistential]

/-- A captured term ends the search where neither axiom fits. -/
theorem quantifierAxiom_of_capturing (hq : ¬ e.IsQuantifierInstance) (h : e.IsCapturing) :
    ∃ c, quantifierAxiom e = .reject (.capture c) := by
  obtain ⟨hu, hx⟩ := not_or.1 hq
  have hcap := (isCapturing_iff he).1 h
  unfold quantifierAxiom
  split
  · next htrue => exact absurd ((decides_universalInstance he).valid.1 htrue) hu
  · split
    · next htrue => exact absurd ((decides_existentialInstance he).valid.1 htrue) hx
    · split
      · exact ⟨_, rfl⟩
      · exact ⟨_, rfl⟩
      · simp_all

/-- Of a formula that is no instance, with a captured term or without, the quantifier axioms say
nothing. -/
theorem quantifierAxiom_eq_none (hq : ¬ e.IsQuantifierInstance) (hc : ¬ e.IsCapturing) :
    quantifierAxiom e = none := by
  obtain ⟨hu, hx⟩ := not_or.1 hq
  obtain ⟨hcu, hcx⟩ := not_or.1 (mt (isCapturing_iff he).2 hc)
  unfold quantifierAxiom
  split
  · next htrue => exact absurd ((decides_universalInstance he).valid.1 htrue) hu
  · split
    · next htrue => exact absurd ((decides_existentialInstance he).valid.1 htrue) hx
    · split
      · next herror => exact absurd ⟨_, herror⟩ hcu
      · next herror => exact absurd ⟨_, herror⟩ hcx
      · rfl

/-- What the recogniser of the quantifier axioms says, case by case. -/
theorem quantifierAxiom_cases :
    e.IsUniversalInstance ∧ quantifierAxiom e =
        .justify { rule := .logic, number := Schema.universalInstantiation } ∨
      e.IsExistentialInstance ∧ quantifierAxiom e =
        .justify { rule := .logic, number := Schema.existentialGeneralization } ∨
      (¬ e.IsQuantifierInstance ∧ e.IsCapturing ∧ ∃ c, quantifierAxiom e = .reject (.capture c)) ∨
      ¬ e.IsQuantifierInstance ∧ ¬ e.IsCapturing ∧ quantifierAxiom e = none := by
  by_cases hu : e.IsUniversalInstance
  · exact .inl ⟨hu, quantifierAxiom_of_universal he hu⟩
  by_cases hx : e.IsExistentialInstance
  · exact .inr (.inl ⟨hx, quantifierAxiom_of_existential he hu hx⟩)
  have hq : ¬ e.IsQuantifierInstance := not_or.2 ⟨hu, hx⟩
  by_cases hc : e.IsCapturing
  · exact .inr (.inr (.inl ⟨hq, hc, quantifierAxiom_of_capturing he hq hc⟩))
  · exact .inr (.inr (.inr ⟨hq, hc, quantifierAxiom_eq_none he hq hc⟩))

/-- The quantifier axioms say nothing exactly of what is no instance of them, with a captured term
or without. -/
theorem quantifierAxiom_eq_none_iff :
    quantifierAxiom e = none ↔ ¬ e.IsQuantifierInstance ∧ ¬ e.IsCapturing := by
  refine ⟨fun hnone => ?_, fun ⟨hq, hc⟩ => quantifierAxiom_eq_none he hq hc⟩
  rcases quantifierAxiom_cases he with ⟨-, h⟩ | ⟨-, h⟩ | ⟨-, -, c, h⟩ | ⟨hq, hc, -⟩
  · cases h.symm.trans hnone
  · cases h.symm.trans hnone
  · cases h.symm.trans hnone
  · exact ⟨hq, hc⟩

end

/-! ## Induction -/

/-- The texts that induction compares are those of the two substitutions. -/
theorem induction_eq_ok_iff (he : e.IsFormula) {j : Justification} :
    induction e = some (.ok j) ↔
      e.IsInduction ∧ j = { rule := .arithmetic, number := Schema.induction } := by
  constructor
  · intro h
    unfold induction at h
    split at h
    · next base x hyp step concl =>
      obtain ⟨hleft, hc⟩ := he.of_implies
      cases hleft with
      | and hbase hall =>
      cases hall with
      | forAll hx himp =>
      obtain ⟨hhyp, hstep⟩ := himp.of_implies
      dsimp only at h
      split at h
      · cases h
      · next hfree =>
        split at h
        · next htexts =>
          cases h
          obtain ⟨hb, hh, hs⟩ := htexts
          have hfree : concl.Free x := by
            rw [← isFree_iff]
            simpa using hfree
          have hvar : concl.VarOnly x := hc.varOnly_of_replaceIdent hx .zero nofun hbase hb
          have hx' : IsTerm (.successor (.var x)) := .successor (.var hx)
          obtain rfl := (canonical_inj (.inl hhyp) (.inl hc)).1 hh
          have hbase_eq : base.canonical = (hyp.subst x .zero).canonical :=
            hb.trans (hc.replaceIdent_canonical (t := .zero) hvar)
          have hstep_eq : step.canonical = (hyp.subst x (.successor (.var x))).canonical :=
            hs.trans (hc.replaceIdent_canonical (t := .successor (.var x)) hvar)
          obtain rfl := (canonical_inj (.inl hbase) (.inl (hc.subst .zero))).1 hbase_eq
          obtain rfl := (canonical_inj (.inl hstep) (.inl (hc.subst hx'))).1 hstep_eq
          exact ⟨⟨x, hyp, hfree, hvar, rfl⟩, rfl⟩
        · cases h
    · cases h
  · rintro ⟨⟨x, a, hfree, hvar, rfl⟩, rfl⟩
    have ha : a.IsFormula := he.of_implies.2
    have hfree : (!a.isFree x) ≠ true := by simp [isFree_iff.2 hfree]
    have hzero : (a.subst x .zero).canonical = a.canonical.replaceIdent x "0" :=
      (ha.replaceIdent_canonical (t := .zero) hvar).symm
    have hsucc : (a.subst x (.successor (.var x))).canonical =
        a.canonical.replaceIdent x (x ++ "'") :=
      (ha.replaceIdent_canonical (t := .successor (.var x)) hvar).symm
    unfold induction
    dsimp only
    rw [if_neg hfree, if_pos ⟨hzero, rfl, hsucc⟩]
    rfl

/-- The one error is that the variable of induction is not free in the conclusion. -/
theorem induction_eq_error_iff {problem : Problem} : induction e = some (.error problem) ↔
    ∃ x c, e.IsVacuousInductionOn x c ∧ problem = .notFree x c.canonical := by
  unfold induction
  split
  · next d x g h c =>
    have hfree : (!c.isFree x) = true ↔ ¬ c.Free x := by
      rw [← isFree_iff]
      simp
    dsimp only
    split
    · next hnot =>
      constructor
      · rintro ⟨⟩
        exact ⟨x, c, ⟨hfree.1 hnot, d, g, h, rfl⟩, rfl⟩
      · rintro ⟨_, _, ⟨-, _, _, _, ⟨⟩⟩, rfl⟩
        rfl
    · next hnot =>
      refine iff_of_false ?_ ?_
      · split
        · nofun
        · nofun
      · rintro ⟨_, _, ⟨hvacuous, _, _, _, ⟨⟩⟩, -⟩
        exact hnot (hfree.2 hvacuous)
  · next hshape =>
    refine iff_of_false nofun ?_
    rintro ⟨x, c, ⟨-, d, g, h, rfl⟩, -⟩
    exact hshape _ _ _ _ _ rfl

/-- The texts that induction compares are as good as the trees. It justifies the trees that are
instances of the axiom, it is in error where the variable is not free in the conclusion, and it has
nothing to say of any other tree. -/
theorem induction_structural (he : e.IsFormula) :
    (∀ j, induction e = some (.ok j) ↔
      (∃ x c, Text.isLowerIdent x = true ∧ c.IsFormula ∧ e.IsInductionOn x c) ∧
        j = { rule := .arithmetic, number := Schema.induction }) ∧
    (∀ problem, induction e = some (.error problem) ↔
      ∃ x c, e.IsVacuousInductionOn x c ∧ problem = .notFree x c.canonical) ∧
    (induction e = none ↔ ∀ x c, ¬ e.IsInductionOn x c ∧ ¬ e.IsVacuousInductionOn x c) := by
  have hok (j : Justification) : induction e = some (.ok j) ↔
      (∃ x c, e.IsInductionOn x c) ∧ j = { rule := .arithmetic, number := Schema.induction } := by
    rw [induction_eq_ok_iff he, isInduction_iff he]
  refine ⟨fun j => ?_, fun problem => induction_eq_error_iff, ?_, ?_⟩
  · rw [hok]
    refine and_congr_left fun _ => exists_congr fun x => exists_congr fun c => ?_
    refine ⟨fun hind => ?_, fun hind => hind.2.2⟩
    obtain ⟨hx, hc⟩ := isFormula_of_isInductionOn he hind
    exact ⟨hx, hc, hind⟩
  · intro hnone x c
    refine ⟨fun hind => ?_, fun hvacuous => ?_⟩
    · cases hnone.symm.trans ((hok _).2 ⟨⟨x, c, hind⟩, rfl⟩)
    · cases hnone.symm.trans (induction_eq_error_iff.2 ⟨x, c, hvacuous, rfl⟩)
  · intro hnot
    match hsome : induction e with
    | none => rfl
    | some (.ok j) =>
      obtain ⟨⟨x, c, hind⟩, -⟩ := (hok j).1 hsome
      exact absurd hind (hnot x c).1
    | some (.error problem) =>
      obtain ⟨x, c, hvacuous, -⟩ := induction_eq_error_iff.1 hsome
      exact absurd hvacuous (hnot x c).2

/-- Induction over `x`, beside a variable whose name begins with `x`. -/
theorem induction_structural_exist :
    induction (.implies
        (.and (.exist "y" (.equals .zero (.plus (.var "y") (.var "x1"))))
          (.forAll "x" (.implies (.exist "y" (.equals (.var "x") (.plus (.var "y") (.var "x1"))))
            (.exist "y" (.equals (.successor (.var "x")) (.plus (.var "y") (.var "x1")))))))
        (.exist "y" (.equals (.var "x") (.plus (.var "y") (.var "x1"))))) =
      some (.ok { rule := .arithmetic, number := 9 }) := by
  have hx : IsTerm (.var "x") := .var (by decide)
  have hsum : IsTerm (.plus (.var "y") (.var "x1")) := .plus (.var (by decide)) (.var (by decide))
  have hexist {t : Expr} (ht : t.IsTerm) :
      IsFormula (.exist "y" (.equals t (.plus (.var "y") (.var "x1")))) :=
    .exist (by decide) (.equals ht hsum)
  have hfree : Free "x" (.exist "y" (.equals (.var "x") (.plus (.var "y") (.var "x1")))) :=
    .inside (by decide) (by decide) List.mem_cons_self
      (.inside (by decide) (by decide) List.mem_cons_self (.var rfl rfl))
  have hstep := (hexist hx).implies (hexist (.successor hx))
  obtain ⟨hjustified, -⟩ := induction_structural
    (.implies (.and (hexist .zero) (.forAll (x := "x") (by decide) hstep)) (hexist hx))
  refine (hjustified _).2 ⟨⟨"x", _, by decide, hexist hx, hfree, by decide, ?_⟩, rfl⟩
  cbv

end Context

end Sequitur
