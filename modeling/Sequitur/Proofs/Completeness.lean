import Mathlib
import Sequitur.Proofs.Acceptance

/-!
# Classification is complete but for two errors

A line that is one step of a proof from the lines before it is justified, whichever rule it takes,
unless a rule that is tried earlier ends the search with an error. With discharge safety off this
happens in two situations only. In one the line is an instance of a quantifier axiom but for a
captured term (`Proof.Captures`). In the other the line is `(?xA)->(@yB)`, which the existential
rule gives, but `(?xA)->B` stands before it as well and the universal rule, tried first, finds `y`
free in `?xA` (`Proof.Blocked`).

The rules are gone through in the order in which they are tried. Each either justifies the line, or
is known not to answer when the next is looked at.
-/

namespace Sequitur

/-- The line is in error, with an error of this kind. -/
def Line.Fails (l : Line) (kind : ErrorKind) : Prop :=
  ∃ err, l.verdict = some (.error err) ∧ err.problem.kind = kind

namespace Proof

/-! ## The two situations -/

/-- Modus ponens gives `e` from two lines before line `k`. -/
def Detaches (p : Proof) (k : Nat) (e : Expr) : Prop :=
  ∃ a, p.Before k a ∧ p.Before k (.implies a e)

/-- The line is an instance of a quantifier axiom but for a captured term, and neither a schema nor
modus ponens nor the other quantifier axiom gives it. -/
structure Captures (p : Proof) (k : Nat) (e : Expr) : Prop where
  schema : ¬ e.IsSchemaInstance
  modusPonens : ¬ p.Detaches k e
  quantifier : ¬ e.IsQuantifierInstance
  capturing : e.IsCapturing

/-- Nothing that is tried before the quantifier rules says anything of the line. -/
structure LeftToRules (p : Proof) (k : Nat) (e : Expr) : Prop where
  schema : ¬ e.IsSchemaInstance
  modusPonens : ¬ p.Detaches k e
  quantifier : ¬ e.IsQuantifierInstance
  capturing : ¬ e.IsCapturing
  induction : ¬ e.IsInduction
  hypothesis : e ∉ p.hypotheses

/-- The line `e` is `(?xA)->(@yB)` and left to the quantifier rules. It follows by the existential
rule from a line `A->(@yB)`, but there is a line `(?xA)->B` as well, and `y` is free in `?xA`. -/
structure BlockedBy (p : Proof) (k : Nat) (e : Expr) (x : Text) (a : Expr) (y : Text) (b : Expr) :
    Prop extends LeftToRules p k e where
  shape : e = .implies (.exist x a) (.forAll y b)
  existential : p.Before k (.implies a (.forAll y b))
  not_free : ¬ (Expr.forAll y b).Free x
  universal : p.Before k (.implies (.exist x a) b)
  free : (Expr.exist x a).Free y

/-- The existential rule gives the line, and the universal rule bars it. -/
def Blocked (p : Proof) (k : Nat) (e : Expr) : Prop := ∃ x a y b, p.BlockedBy k e x a y b

end Proof

namespace Context

open Attempt Sequitur.Expr

variable {p : Proof} {safety : Bool} {k : Nat} {e : Expr} (hp : p.WellFormed) (he : e.IsFormula)

/-! ## When a rule answers -/

include he in
/-- The schemas justify exactly their instances. -/
theorem schema_succeeds_iff : (schema e).Succeeds ↔ e.IsSchemaInstance := by
  constructor
  · rintro ⟨j, hj⟩
    by_contra hnot
    rw [(schema_eq_none_iff he).2 hnot] at hj
    cases hj
  · intro h
    cases hs : schema e with
    | none => exact absurd h ((schema_eq_none_iff he).1 hs)
    | some r => exact hs ▸ (harmless_schema e).succeeds hs

include he in
/-- The quantifier axioms justify their instances. -/
theorem quantifierAxiom_succeeds (h : e.IsQuantifierInstance) : (quantifierAxiom e).Succeeds := by
  rcases quantifierAxiom_cases he with ⟨-, hq⟩ | ⟨-, hq⟩ | ⟨hnot, -, -⟩ | ⟨hnot, -, -⟩
  · exact ⟨_, hq⟩
  · exact ⟨_, hq⟩
  · exact absurd h hnot
  · exact absurd h hnot

include hp he in
/-- Modus ponens says nothing exactly where two lines before do not give the formula. -/
theorem modusPonens_eq_none_iff :
    (ofProof p safety).modusPonens k e = none ↔ ¬ p.Detaches k e := by
  constructor
  · rintro hnone ⟨a, ha, hae⟩
    obtain ⟨r, hr⟩ : ∃ r, (ofProof p safety).modusPonens k e = some r :=
      modusPonens_of_before ha hae
    rw [hnone] at hr
    cases hr
  · intro hnot
    cases hm : (ofProof p safety).modusPonens k e with
    | none => rfl
    | some r =>
      obtain ⟨i, j, a, -, hi, hj, ha, hae⟩ := modusPonens_eq_some hp he hm
      exact absurd ⟨a, ⟨i, hi, ha⟩, ⟨j, hj, hae⟩⟩ hnot

include hp he in
/-- The hypotheses say nothing exactly of what is no hypothesis. -/
theorem hypothesis_eq_none_iff :
    (ofProof p safety).hypothesis e = none ↔ e ∉ p.hypotheses := by
  constructor
  · intro hnone hmem
    obtain ⟨r, hr⟩ : ∃ r, (ofProof p safety).hypothesis e = some r := hypothesis_of_mem hmem
    rw [hnone] at hr
    cases hr
  · intro hnot
    cases hh : (ofProof p safety).hypothesis e with
    | none => rfl
    | some r =>
      obtain ⟨n, hn, -⟩ := hypothesis_eq_some hp he hh
      exact absurd (List.mem_of_getElem? hn) hnot

include hp he in
/-- The universal rule rejects a line whose premise is there when its variable is free in the left
side. -/
theorem universalRule_eq_error_iff {problem : Problem} :
    (ofProof p safety).universalRule k e = some (.error problem) ↔
      ∃ x a b, e = .implies a (.forAll x b) ∧ p.Before k (.implies a b) ∧ a.Free x ∧
        problem = .occursFree x a.canonical := by
  constructor
  · intro h
    unfold universalRule at h
    split at h
    · next a x b =>
      obtain ⟨ha, hall⟩ := he.of_implies
      cases hall with
      | forAll _ hb =>
      split at h
      · cases h
      · next i hi =>
        obtain ⟨hik, hline⟩ := earlier?_eq_some hp (.implies ha hb) hi
        split at h
        · next hfree =>
          cases h
          exact ⟨x, a, b, rfl, ⟨i, hik, hline⟩, isFree_iff.1 hfree, rfl⟩
        · cases h
    · cases h
  · rintro ⟨x, a, b, rfl, hbefore, hfree, rfl⟩
    obtain ⟨i, hi⟩ : ∃ i, (ofProof p safety).earlier? (.implies a b) k = some i :=
      earlier?_of_before hbefore
    unfold universalRule
    simp only [hi, if_pos (isFree_iff.2 hfree)]
    rfl

/-! ## The errors in the two situations -/

include hp he in
/-- A line in which a term is captured is reported as such. -/
theorem classify_of_captures (safety : Bool) (h : p.Captures k e) :
    ∃ c, (ofProof p safety).classify k e = some (.error (.capture c)) := by
  obtain ⟨c, hc⟩ := quantifierAxiom_of_capturing he h.quantifier h.capturing
  refine ⟨c, ?_⟩
  refine classify_of_attempt ?_
  rw [attempt, (schema_eq_none_iff he).2 h.schema,
    (modusPonens_eq_none_iff hp he).2 h.modusPonens, hc]
  rfl

include hp he in
/-- A line is left to the quantifier rules when nothing before them answers. -/
theorem leftToRules_iff (safety : Bool) :
    p.LeftToRules k e ↔ schema e = none ∧ (ofProof p safety).modusPonens k e = none ∧
      quantifierAxiom e = none ∧ justified (induction e) = none ∧
      (ofProof p safety).hypothesis e = none := by
  have hjustified : justified (induction e) = none ↔ ¬ e.IsInduction := by
    rw [Option.eq_none_iff_forall_ne_some]
    simp only [ne_eq, justified_eq_some, induction_eq_ok_iff he]
    grind
  rw [schema_eq_none_iff he, modusPonens_eq_none_iff hp he, quantifierAxiom_eq_none_iff he,
    hjustified, hypothesis_eq_none_iff hp he]
  constructor
  · rintro ⟨hs, hm, hq, hc, hi, hh⟩
    exact ⟨hs, hm, ⟨hq, hc⟩, hi, hh⟩
  · rintro ⟨hs, hm, ⟨hq, hc⟩, hi, hh⟩
    exact ⟨hs, hm, hq, hc, hi, hh⟩

include hp he in
/-- A line that is left to the quantifier rules is what they say, the universal one first. -/
theorem attempt_of_leftToRules (h : p.LeftToRules k e) :
    (ofProof p false).attempt k e = ((ofProof p false).universalRule k e <|>
      (ofProof p false).existentialRule k e <|> induction e) := by
  obtain ⟨hs, hm, hq, hi, hh⟩ := (leftToRules_iff hp he false).1 h
  rw [attempt, hs, hm, hq, hi, hh, bannedName_of_safety_off]
  rfl

include hp he in
/-- A line that the existential rule gives and the universal rule bars is reported for the variable
of the universal quantifier. -/
theorem classify_of_blockedBy {x y : Text} {a b : Expr} (h : p.BlockedBy k e x a y b) :
    (ofProof p false).classify k e = some (.error (.occursFree y (Expr.exist x a).canonical)) := by
  have hrule : (ofProof p false).universalRule k e =
      some (.error (.occursFree y (Expr.exist x a).canonical)) :=
    (universalRule_eq_error_iff hp he).2 ⟨y, .exist x a, b, h.shape, h.universal, h.free, rfl⟩
  refine classify_of_attempt ?_
  rw [attempt_of_leftToRules hp he h.toLeftToRules, hrule]
  rfl

/-! ## Every other step is justified -/

include hp he in
/-- A step of a proof is justified unless a term is captured or the universal rule bars it. -/
theorem classify_of_step (hstep : Step p.hypotheses (p.Before k) e) (hcap : ¬ p.Captures k e)
    (hblocked : ¬ p.Blocked k e) : ∃ j, (ofProof p false).classify k e = some (.ok j) := by
  refine classify_of_succeeds ?_
  by_cases hschema : e.IsSchemaInstance
  · exact .inl ((schema_succeeds_iff he).2 hschema)
  by_cases hdetach : p.Detaches k e
  · obtain ⟨a, ha, hae⟩ := hdetach
    obtain ⟨r, hr⟩ : ∃ r, (ofProof p false).modusPonens k e = some r :=
      modusPonens_of_before ha hae
    exact .inr (.inl ((harmless_modusPonens _ k e).succeeds hr))
  by_cases hquant : e.IsQuantifierInstance
  · exact .inr (.inr (.inl (quantifierAxiom_succeeds he hquant)))
  have hcapturing : ¬ e.IsCapturing := fun h => hcap ⟨hschema, hdetach, hquant, h⟩
  refine .inr (.inr (.inr ⟨quantifierAxiom_eq_none he hquant hcapturing, ?_⟩))
  by_cases hind : e.IsInduction
  · exact .inl ⟨_, (induction_eq_ok_iff he).2 ⟨hind, rfl⟩⟩
  by_cases hmem : e ∈ p.hypotheses
  · obtain ⟨r, hr⟩ : ∃ r, (ofProof p false).hypothesis e = some r := hypothesis_of_mem hmem
    exact .inr (.inl ((harmless_hypothesis _ e).succeeds hr))
  refine .inr (.inr ⟨bannedName_of_safety_off p e, ?_⟩)
  -- only the quantifier rules are left, and the universal one is asked first
  cases hstep with
  | given h => exact absurd h hmem
  | holds h =>
    rcases (isAxiom_iff he).1 h with h | h | h
    · exact absurd h hschema
    · exact absurd h hquant
    · exact absurd h hind
  | modusPonens ha hae => exact absurd ⟨_, ha, hae⟩ hdetach
  | universal hab hx => exact .inl (universalRule_succeeds hab hx)
  | @existential x a b hab hx =>
    cases hu : (ofProof p false).universalRule k (.implies (.exist x a) b) with
    | none => exact .inr ⟨rfl, existentialRule_succeeds hab hx⟩
    | some r =>
      cases r with
      | ok j => exact .inl ⟨j, rfl⟩
      | error problem =>
        obtain ⟨y, a', b', heq, hbefore, hfree, -⟩ := (universalRule_eq_error_iff hp he).1 hu
        cases heq
        exact absurd ⟨x, a, y, b', ⟨hschema, hdetach, hquant, hcapturing, hind, hmem⟩, rfl, hab,
          hx, hbefore, hfree⟩ hblocked

end Context

/-- A line has no errors of two kinds. -/
theorem Line.Fails.unique {l : Line} {kind kind' : ErrorKind} (h : l.Fails kind)
    (h' : l.Fails kind') : kind = kind' := by
  obtain ⟨err, herr, rfl⟩ := h
  obtain ⟨err', herr', rfl⟩ := h'
  rw [herr] at herr'
  cases herr'
  rfl

/-- The kind of a line's error is that of the problem that was found. -/
theorem Line.fails_of_verdict {l : Line} {k : Nat} {problem : Problem}
    {a : Attempt} (hl : l.verdict = a.map (Except.mapError (LineError.mk k)))
    (ha : a = some (.error problem)) : l.Fails problem.kind := by
  rw [ha] at hl
  exact ⟨⟨k, problem⟩, hl, rfl⟩

namespace Proof

/-- Completeness of the classification, with discharge safety off. A line is justified if and only
if it is one step from the lines before it and neither of the two situations is given. In the first
of them it is reported as a capture and in the second as a free variable; it is reported as
unproved only if it is no step at all. -/
theorem classification_complete {header : Text} {lines : List Text} {p : Proof}
    (hp : Proof.read header lines = .ok p) {k : Nat} {e : Expr}
    (hk : p.formulas[k]? = some (some e)) :
    ∃ l, (p.check false).lines[k]? = some l ∧
      ((∃ j, l.verdict = some (.ok j)) ↔
        Step p.hypotheses (p.Before k) e ∧ ¬ p.Captures k e ∧ ¬ p.Blocked k e) ∧
      (p.Captures k e → l.Fails .capture) ∧
      (p.Blocked k e → l.Fails .freeVariable) ∧
      (l.Fails .unproved → ¬ Step p.hypotheses (p.Before k) e) := by
  have hwf := wellFormed_of_read hp
  have he := hwf.isFormula hk
  obtain ⟨l, hl, hverdict⟩ := exists_verdict hk false
  have hjust : (∃ j, l.verdict = some (.ok j)) ↔
      ∃ j, (Context.ofProof p false).classify k e = some (.ok j) := by
    simp only [hverdict, Option.map_eq_some_iff, Context.mapError_eq_ok_iff, exists_eq_right]
  have hcapture (h : p.Captures k e) : l.Fails .capture := by
    obtain ⟨c, hc⟩ := Context.classify_of_captures hwf he false h
    exact Line.fails_of_verdict hverdict hc
  have hblocked (h : p.Blocked k e) : l.Fails .freeVariable := by
    obtain ⟨x, a, y, b, h⟩ := h
    exact Line.fails_of_verdict hverdict (Context.classify_of_blockedBy hwf he h)
  have hnot (kind : ErrorKind) (h : l.Fails kind) : ¬ ∃ j, l.verdict = some (.ok j) := by
    obtain ⟨err, herr, -⟩ := h
    simp [herr]
  refine ⟨l, hl, ⟨fun hj => ?_, ?_⟩, hcapture, hblocked, fun hunproved hstep => ?_⟩
  · obtain ⟨j, hclass⟩ := hjust.1 hj
    exact ⟨Context.step_of_classify hwf he hclass, fun h => hnot _ (hcapture h) hj,
      fun h => hnot _ (hblocked h) hj⟩
  · rintro ⟨hstep, hcap, hblock⟩
    exact hjust.2 (Context.classify_of_step hwf he hstep hcap hblock)
  · by_cases hcap : p.Captures k e
    · cases hunproved.unique (hcapture hcap)
    by_cases hblock : p.Blocked k e
    · cases hunproved.unique (hblocked hblock)
    exact hnot _ hunproved (hjust.2 (Context.classify_of_step hwf he hstep hcap hblock))

/-- The existential rule gives the last of these lines from the second, and the universal rule bars
it because of the first. -/
theorem classification_complete_blocked :
    ∃ p l e, Proof.read "P(y)->@yQ(y),?xP(y)->Q(y)|-?xP(y)->@yQ(y)"
        ["?xP(y)->Q(y)", "P(y)->@yQ(y)", "?xP(y)->@yQ(y)"] = .ok p ∧
      p.formulas[2]? = some (some e) ∧ (p.check false).lines[2]? = some l ∧
      Step p.hypotheses (p.Before 2) e ∧ p.Blocked 2 e ∧ l.Fails .freeVariable := by
  have hrun : (Proof.read "P(y)->@yQ(y),?xP(y)->Q(y)|-?xP(y)->@yQ(y)"
        ["?xP(y)->Q(y)", "P(y)->@yQ(y)", "?xP(y)->@yQ(y)"]).map
      (fun p => (p.formulas[1]?, p.formulas[2]?, (p.check false).lines[2]?.map Line.verdict)) =
        .ok (some (some (.implies (.predicate "P" [.var "y"])
            (.forAll "y" (.predicate "Q" [.var "y"])))),
          some (some (.implies (.exist "x" (.predicate "P" [.var "y"]))
            (.forAll "y" (.predicate "Q" [.var "y"])))),
          some (some (.error ⟨3, .occursFree "y" "(?xP(y))"⟩))) := by
    cbv
  obtain ⟨p, hp, heq⟩ := exists_of_map_eq_ok hrun
  simp only [Prod.mk.injEq, Option.map_eq_some_iff] at heq
  obtain ⟨h1, h2, l, hl, hverdict⟩ := heq
  obtain ⟨l', hl', hiff, hcapture, -, -⟩ := classification_complete hp h2
  obtain rfl : l = l' := Option.some.inj (hl.symm.trans hl')
  have hfails : l.Fails .freeVariable := ⟨_, hverdict, rfl⟩
  have hfree : ¬ (Expr.forAll "y" (.predicate "Q" [.var "y"])).Free "x" := by
    rw [← Expr.isFree_iff]
    decide
  have hstep : Step p.hypotheses (p.Before 2) _ := .existential ⟨1, by omega, h1⟩ hfree
  refine ⟨p, l, _, hp, h2, hl, hstep, ?_, hfails⟩
  by_contra hnot
  have hcap : ¬ p.Captures 2 _ := fun h => absurd (hfails.unique (hcapture h)) (by decide)
  obtain ⟨j, hj⟩ := hiff.2 ⟨hstep, hcap, hnot⟩
  rw [hverdict] at hj
  cases hj

end Proof

end Sequitur
