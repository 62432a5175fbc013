import Mathlib
import Sequitur.Proofs.Steps

/-!
# Lines that are accepted

`Accepted hyps earlier e` is a condition under which `e`, as a line of a proof with hypotheses
`hyps` and with the lines `earlier` before it, is justified when discharge safety is off
(`classify_of_accepted`). It is that of a step, together with what keeps the rules that are tried
first from ending the search with an error. Accepted lines stay accepted when more stands before
them, so that accepted lists of lines can be put one after the other (`Accepts.append`), and a proof
whose lines are such a list and end in the goal has no errors (`check_of_accepts`).
-/

namespace Sequitur

/-! ## Trying rules in order -/

namespace Attempt

/-- The rule justifies the line. -/
def Succeeds (a : Attempt) : Prop := ∃ j, a = some (.ok j)

/-- The rule does not end the search with an error. -/
def Harmless (a : Attempt) : Prop := ∀ p, a ≠ some (.error p)

theorem harmless_none : Harmless none := nofun

/-- A rule that justifies a line does not end the search with an error. -/
theorem Succeeds.harmless {a : Attempt} (h : a.Succeeds) : a.Harmless := by
  obtain ⟨j, rfl⟩ := h
  rintro p ⟨⟩

/-- A harmless rule that says anything justifies the line. -/
theorem Harmless.succeeds {a : Attempt} (h : a.Harmless) {r : Except Problem Justification}
    (hr : a = some r) : a.Succeeds := by
  cases r with
  | error p => exact absurd hr (h p)
  | ok j => exact ⟨j, hr⟩

/-- A rule that justifies a line settles it, whatever is tried after. -/
theorem Succeeds.orElse {a : Attempt} (h : a.Succeeds) (b : Attempt) :
    Attempt.Succeeds (a <|> b) := by
  obtain ⟨j, rfl⟩ := h
  exact ⟨j, rfl⟩

/-- A rule that does no harm may be tried first. -/
theorem Harmless.orElse {a b : Attempt} (ha : a.Harmless) (hb : b.Succeeds) :
    Attempt.Succeeds (a <|> b) := by
  cases a with
  | none => exact hb
  | some r => exact (ha.succeeds rfl).orElse b

end Attempt

namespace Context

open Attempt

/-- The schemas never end the search with an error. -/
theorem harmless_schema (e : Expr) : Harmless (schema e) := by
  unfold schema
  split
  · exact harmless_none
  · exact Succeeds.harmless ⟨_, rfl⟩

/-- Modus ponens never ends the search with an error. -/
theorem harmless_modusPonens (c : Context) (k : Nat) (e : Expr) : Harmless (c.modusPonens k e) := by
  intro p h
  obtain ⟨j, -, h⟩ := List.exists_of_findSome?_eq_some h
  obtain ⟨a, -, h⟩ := Option.bind_eq_some_iff.1 h
  obtain ⟨i, -, h⟩ := Option.bind_eq_some_iff.1 h
  cases h

/-- An attempt whose errors are dropped does not end the search with one. -/
theorem harmless_justified (a : Attempt) : Harmless (justified a) := by
  intro p h
  obtain ⟨j, -, h⟩ := justified_eq_some.1 h
  cases h

/-- The hypotheses never end the search with an error. -/
theorem harmless_hypothesis (c : Context) (e : Expr) : Harmless (c.hypothesis e) := by
  intro p h
  obtain ⟨n, -, h⟩ := Option.bind_eq_some_iff.1 h
  cases h

/-- With discharge safety off no variable is banned. -/
theorem bannedName_of_safety_off (p : Proof) (e : Expr) :
    (ofProof p false).bannedName e = none := rfl

/-- A line is justified by the first rule that succeeds, when no rule before it rejects the line. -/
theorem classify_of_succeeds {c : Context} {k : Nat} {e : Expr}
    (h : (schema e).Succeeds ∨ (c.modusPonens k e).Succeeds ∨ (quantifierAxiom e).Succeeds ∨
      quantifierAxiom e = none ∧ ((induction e).Succeeds ∨ (c.hypothesis e).Succeeds ∨
        c.bannedName e = none ∧ ((c.universalRule k e).Succeeds ∨
          c.universalRule k e = none ∧ (c.existentialRule k e).Succeeds))) :
    ∃ j, c.classify k e = some (.ok j) := by
  have hattempt : (c.attempt k e).Succeeds := by
    unfold attempt
    rcases h with h | h
    · exact h.orElse _
    refine (harmless_schema e).orElse ?_
    rcases h with h | h
    · exact h.orElse _
    refine (harmless_modusPonens c k e).orElse ?_
    rcases h with h | ⟨hq, h⟩
    · exact h.orElse _
    rw [hq]
    refine harmless_none.orElse ?_
    rcases h with ⟨j, h⟩ | h
    · exact Succeeds.orElse ⟨j, justified_eq_some.2 ⟨j, h, rfl⟩⟩ _
    refine (harmless_justified _).orElse ?_
    rcases h with h | ⟨hb, h⟩
    · exact h.orElse _
    refine (harmless_hypothesis c e).orElse ?_
    rw [hb]
    refine harmless_none.orElse ?_
    rcases h with h | ⟨hu, h⟩
    · exact h.orElse _
    rw [hu]
    exact harmless_none.orElse (h.orElse _)
  obtain ⟨j, hj⟩ := hattempt
  exact ⟨j, classify_of_attempt hj⟩

end Context

/-! ## Accepted lines -/

/-- A line that is justified after the lines `earlier`, with discharge safety off. Past the schemas
and modus ponens the line may not be an instance of a quantifier axiom but for a captured variable;
the existential rule is tried after the universal one and asks that this does not apply. -/
inductive Accepted (hyps : List Expr) (earlier : Expr → Prop) : Expr → Prop
  | schema {e : Expr} : (Context.schema e).Succeeds → Accepted hyps earlier e
  | modusPonens {a e : Expr} : earlier a → earlier (.implies a e) → Accepted hyps earlier e
  | quantifierAxiom {e : Expr} : (Context.quantifierAxiom e).Succeeds → Accepted hyps earlier e
  | induction {e : Expr} : Context.quantifierAxiom e = none → (Context.induction e).Succeeds →
      Accepted hyps earlier e
  | given {e : Expr} : Context.quantifierAxiom e = none → e ∈ hyps → Accepted hyps earlier e
  | universal {x : Text} {a b : Expr} :
      Context.quantifierAxiom (.implies a (.forAll x b)) = none → earlier (.implies a b) →
      ¬ a.Free x → Accepted hyps earlier (.implies a (.forAll x b))
  | existential {x : Text} {a b : Expr} :
      Context.quantifierAxiom (.implies (.exist x a) b) = none → b.kind ≠ .universal →
      earlier (.implies a b) → ¬ b.Free x → Accepted hyps earlier (.implies (.exist x a) b)

/-- More lines before a line do no harm. -/
theorem Accepted.mono {hyps : List Expr} {earlier earlier' : Expr → Prop} {e : Expr}
    (hmono : ∀ a, earlier a → earlier' a) (h : Accepted hyps earlier e) :
    Accepted hyps earlier' e := by
  cases h with
  | schema hs => exact .schema hs
  | modusPonens ha hae => exact .modusPonens (hmono _ ha) (hmono _ hae)
  | quantifierAxiom hq => exact .quantifierAxiom hq
  | induction hq hi => exact .induction hq hi
  | given hq hmem => exact .given hq hmem
  | universal hq hab hx => exact .universal hq (hmono _ hab) hx
  | existential hq hb hab hx => exact .existential hq hb (hmono _ hab) hx

namespace Context

open Attempt Sequitur.Expr

variable {p : Proof} {safety : Bool} {k : Nat} {x : Text} {a b e : Expr}

/-- The universal rule justifies a line whose premise stands before it, if the variable is not free
on the left. -/
theorem universalRule_succeeds (h : p.Before k (.implies a b)) (hx : ¬ a.Free x) :
    ((ofProof p safety).universalRule k (.implies a (.forAll x b))).Succeeds := by
  obtain ⟨i, hi⟩ : ∃ i, (ofProof p safety).earlier? (.implies a b) k = some i :=
    earlier?_of_before h
  rw [← isFree_iff] at hx
  unfold universalRule
  simp only [hi, if_neg hx]
  exact ⟨_, rfl⟩

/-- The existential rule justifies a line whose premise stands before it, if the variable is not
free on the right. -/
theorem existentialRule_succeeds (h : p.Before k (.implies a b)) (hx : ¬ b.Free x) :
    ((ofProof p safety).existentialRule k (.implies (.exist x a) b)).Succeeds := by
  obtain ⟨i, hi⟩ : ∃ i, (ofProof p safety).earlier? (.implies a b) k = some i :=
    earlier?_of_before h
  rw [← isFree_iff] at hx
  unfold existentialRule
  simp only [hi, if_neg hx]
  exact ⟨_, rfl⟩

/-- The universal rule says nothing of an implication to a formula that is not universal. -/
theorem universalRule_eq_none {c : Context} (h : b.kind ≠ .universal) :
    c.universalRule k (.implies a b) = none := by
  unfold universalRule
  split
  · next heq =>
    cases heq
    exact absurd rfl h
  · rfl

/-- An accepted line is justified. -/
theorem classify_of_accepted (h : Accepted p.hypotheses (p.Before k) e) :
    ∃ j, (ofProof p false).classify k e = some (.ok j) := by
  refine classify_of_succeeds ?_
  cases h with
  | schema hs => exact .inl hs
  | modusPonens ha hae =>
    obtain ⟨r, hr⟩ : ∃ r, (ofProof p false).modusPonens k e = some r := modusPonens_of_before ha hae
    exact .inr (.inl ((harmless_modusPonens _ k e).succeeds hr))
  | quantifierAxiom hq => exact .inr (.inr (.inl hq))
  | induction hq hi => exact .inr (.inr (.inr ⟨hq, .inl hi⟩))
  | given hq hmem =>
    obtain ⟨r, hr⟩ : ∃ r, (ofProof p false).hypothesis e = some r := hypothesis_of_mem hmem
    exact .inr (.inr (.inr ⟨hq, .inr (.inl ((harmless_hypothesis _ e).succeeds hr))⟩))
  | universal hq hab hx =>
    exact .inr (.inr (.inr ⟨hq, .inr (.inr ⟨bannedName_of_safety_off p _,
      .inl (universalRule_succeeds hab hx)⟩)⟩))
  | existential hq hb hab hx =>
    exact .inr (.inr (.inr ⟨hq, .inr (.inr ⟨bannedName_of_safety_off p _,
      .inr ⟨universalRule_eq_none hb, existentialRule_succeeds hab hx⟩⟩)⟩))

end Context

/-! ## Accepted lists of lines -/

/-- Every line of the list is accepted after the lines `earlier` and those before it in the list. -/
def Accepts (hyps : List Expr) (earlier : Expr → Prop) (es : List Expr) : Prop :=
  ∀ before e after, es = before ++ e :: after → Accepted hyps (fun a => earlier a ∨ a ∈ before) e

namespace Accepts

variable {hyps es fs : List Expr} {earlier : Expr → Prop}

theorem nil : Accepts hyps earlier [] := by
  intro before e after h
  simp at h

/-- Lists of accepted lines are accepted one after the other, where the second may use the first. -/
theorem append (hes : Accepts hyps earlier es)
    (hfs : Accepts hyps (fun a => earlier a ∨ a ∈ es) fs) : Accepts hyps earlier (es ++ fs) := by
  intro before e after h
  rcases List.append_eq_append_iff.1 h with ⟨middle, rfl, rfl⟩ | ⟨middle, rfl, hmiddle⟩
  · refine (hfs middle e after rfl).mono fun a ha => ?_
    rwa [List.mem_append, ← or_assoc]
  · cases middle with
    | nil =>
      refine (hfs [] e after (by simpa using hmiddle.symm)).mono fun a ha => ?_
      simpa using ha
    | cons b middle =>
      obtain ⟨rfl, -⟩ := List.cons.inj hmiddle
      exact hes before e middle rfl

/-- A list is accepted when its first line is, and the others after it. -/
theorem cons {e : Expr} (he : Accepted hyps earlier e)
    (hes : Accepts hyps (fun a => earlier a ∨ a = e) es) : Accepts hyps earlier (e :: es) := by
  have hsingle : Accepts hyps earlier [e] := by
    intro before a after h
    obtain ⟨rfl, rfl, rfl⟩ : before = [] ∧ a = e ∧ after = [] := by
      cases before <;> simp_all
    exact he.mono fun b hb => .inl hb
  refine hsingle.append ?_
  simpa using hes

end Accepts

/-- A proof has no errors when its lines are accepted one after the other and end in the goal. -/
theorem Proof.check_of_accepts {p : Proof} {es : List Expr} (hlines : p.formulas = es.map some)
    (h : Accepts p.hypotheses (fun _ => False) es)
    (hgoal : es.getLast? = some p.sequent.goal.formula) : (p.check false).errors = [] := by
  refine check_errors_eq_nil_iff.2 ⟨fun k l hl => ?_, ?_⟩
  · have hformula : p.formulas[k]? = some l.formula? := by rw [formulas, List.getElem?_map, hl]; rfl
    rw [hlines, List.getElem?_map, Option.map_eq_some_iff] at hformula
    obtain ⟨e, hk, he⟩ := hformula
    obtain ⟨hlt, hget⟩ := List.getElem?_eq_some_iff.1 hk
    have hsplit : es = es.take k ++ e :: es.drop (k + 1) := by
      rw [← hget, List.getElem_cons_drop, List.take_append_drop]
    have hbefore : ∀ a, False ∨ a ∈ es.take k → p.Before k a := by
      intro a ha
      obtain ⟨i, hi, rfl⟩ := List.mem_take_iff_getElem.1 (ha.resolve_left id)
      refine ⟨i, by omega, ?_⟩
      rw [hlines, List.getElem?_map, List.getElem?_eq_getElem (by omega)]
      rfl
    obtain ⟨j, hj⟩ := Context.classify_of_accepted ((h _ e _ hsplit).mono hbefore)
    exact ⟨e, j, ProofLine.formula?_eq_some_iff.1 he.symm, hj⟩
  · have hlast : p.last? = some p.sequent.goal.formula := by
      rw [last?, hlines, List.getLast?_map, hgoal]
      rfl
    rw [reachesGoal, hlast]
    exact beq_self_eq_true _

end Sequitur
