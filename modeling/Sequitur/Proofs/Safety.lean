import Mathlib
import Sequitur.Proofs.Completeness
import Sequitur.Proofs.Prefixes

/-!
# Discharge safety

With discharge safety on, one more thing is looked at when a line is classified: whether the line
quantifies over a variable that is free in the last hypothesis. This is done after the axioms, modus
ponens and the hypotheses and before the quantifier rules. So the verdicts of a check with it and of
one without it are related line by line. A verdict that is given before that point stays
(`classify_of_firstRules`). Any other becomes an error where the line quantifies over such a
variable, and stays where it does not (`classify_of_firstRules_eq_none`).

The rules are split at that point into `Context.firstRules` and `Context.lastRules`, and a verdict
tells by itself from which part it comes (`prior_iff`).
-/

namespace Sequitur

/-- The tree quantifies over `x`: the variable is bound in it, or the tree is an implication with a
quantifier over `x` on one side, which need not bind anything. -/
def Expr.QuantifiesOver (x : Text) (e : Expr) : Prop :=
  e.Bound x ∨ ∃ l r, e = .implies l r ∧ (l.Binds x ∨ r.Binds x)

namespace Context

open Sequitur.Expr

/-! ## Banned variables -/

/-- The name at a root is listed when the root binds it. -/
theorem mem_quantifiedName {e : Expr} {x : Text} : x ∈ quantifiedName e ↔ e.Binds x := by
  unfold quantifiedName
  split
  · next hq => simp [Binds, hq, eq_comm]
  · next hq => simp [Binds, hq]

/-- The names that are looked at in a line are those it quantifies over. -/
theorem mem_quantifiedNames {e : Expr} {x : Text} :
    x ∈ quantifiedNames e ↔ e.QuantifiesOver x := by
  unfold quantifiedNames QuantifiesOver
  rw [List.mem_append, mem_boundVariables]
  refine or_congr_right ?_
  split
  · next l r =>
    rw [List.mem_append, mem_quantifiedName, mem_quantifiedName]
    simp
  · next hshape =>
    refine iff_of_false (by simp) ?_
    rintro ⟨l, r, rfl, -⟩
    exact hshape l r rfl

section
variable {c : Context} {e : Expr}

/-- No variable of a line is reported exactly when it quantifies over no banned one. -/
theorem bannedName_eq_none_iff :
    c.bannedName e = none ↔ ∀ x, e.QuantifiesOver x → x ∉ c.banned := by
  unfold bannedName
  split
  · next hempty => simp [List.isEmpty_iff.1 hempty]
  · have hfind : (Text.sort (quantifiedNames e)).find? c.banned.contains = none ↔
        ∀ x, e.QuantifiesOver x → x ∉ c.banned := by
      rw [List.find?_eq_none]
      simp only [Text.sort, List.mem_mergeSort, mem_quantifiedNames, List.contains_iff_mem]
    rw [← hfind]
    split <;> simp_all [Attempt.reject]

/-- The error that a banned variable makes names such a variable. -/
theorem bannedName_eq_some {r : Except Problem Justification} (h : c.bannedName e = some r) :
    ∃ x, e.QuantifiesOver x ∧ x ∈ c.banned ∧ r = .error (.banned x c.bannedBy) := by
  unfold bannedName at h
  split at h
  · cases h
  · split at h
    · cases h
    · next x hfind =>
      have hmem := List.mem_of_find?_eq_some hfind
      rw [Text.sort, List.mem_mergeSort, mem_quantifiedNames] at hmem
      exact ⟨x, hmem, List.contains_iff_mem.1 (List.find?_some hfind), (Option.some.inj h).symm⟩

/-- With discharge safety on the free variables of the last hypothesis are banned. -/
theorem banned_ofProof {p : Proof} {h : Statement} (hh : p.sequent.hypotheses.getLast? = some h) :
    (ofProof p true).banned = h.formula.freeVariables ∧ (ofProof p true).bannedBy = h.text := by
  simp [ofProof, hh]

end

/-! ## Before and after the banned variables -/

/-- The rules that are tried before the variables of the line are looked at. -/
def firstRules (c : Context) (k : Nat) (e : Expr) : Attempt :=
  schema e <|> c.modusPonens k e <|> quantifierAxiom e <|> justified (induction e) <|>
    c.hypothesis e

/-- The rules that are tried after it. -/
def lastRules (c : Context) (k : Nat) (e : Expr) : Attempt :=
  c.universalRule k e <|> c.existentialRule k e <|> induction e

/-- The rules in their order, with the banned variables between the two groups. -/
theorem attempt_eq_orElse (c : Context) (k : Nat) (e : Expr) :
    c.attempt k e = (c.firstRules k e <|> c.bannedName e <|> c.lastRules k e) := by
  simp only [attempt, firstRules, lastRules, Option.orElse_eq_orElse, Option.orElse_eq_or,
    Option.or_assoc]

section
variable (p : Proof) (k : Nat) (e : Expr)

/-- Discharge safety does not change the rules that come before the banned variables. -/
theorem firstRules_congr : (ofProof p true).firstRules k e = (ofProof p false).firstRules k e := by
  unfold firstRules
  rw [modusPonens_congr rfl, hypothesis_congr rfl]

/-- Discharge safety does not change the rules that come after the banned variables. -/
theorem lastRules_congr : (ofProof p true).lastRules k e = (ofProof p false).lastRules k e := by
  unfold lastRules
  rw [universalRule_congr rfl, existentialRule_congr rfl]

end

/-- A verdict that is given before the variables of the line are looked at: the line cannot be read,
a term in it is captured, or it is an axiom, the conclusion of modus ponens or a hypothesis. -/
def Prior : Attempt → Prop
  | some (.error problem) => problem.kind = .malformed ∨ problem.kind = .capture
  | some (.ok j) =>
    j.rule = .logic ∨ j.rule = .arithmetic ∨ j.rule = .modusPonens ∨ j.rule = .hypothesis
  | none => False

section
variable {c : Context} {k : Nat} {e : Expr} {r : Except Problem Justification}

/-- What the first rules say is said before the variables of the line are looked at. -/
theorem prior_of_firstRules (h : c.firstRules k e = some r) : Prior (some r) := by
  simp only [firstRules, Option.orElse_eq_some, justified_eq_some] at h
  rcases h with h | ⟨-, h | ⟨-, h | ⟨-, ⟨j, h, rfl⟩ | ⟨-, h⟩⟩⟩⟩
  · unfold schema at h
    split at h
    · cases h
    · next s _ =>
      cases h
      by_cases hf : s.family = .arithmetic <;> simp [Prior, hf]
  · obtain ⟨j, -, h⟩ := List.exists_of_findSome?_eq_some h
    obtain ⟨a, -, h⟩ := Option.bind_eq_some_iff.1 h
    obtain ⟨i, -, h⟩ := Option.bind_eq_some_iff.1 h
    cases h
    simp [Prior]
  · cases r with
    | error problem => exact .inr (kind_of_quantifierAxiom h)
    | ok j =>
      unfold quantifierAxiom at h
      split at h
      · cases h
        simp [Prior]
      · split at h
        · cases h
          simp [Prior]
        · split at h <;> cases h
  · unfold induction at h
    split at h
    · dsimp only at h
      split at h
      · cases h
      · split at h <;> cases h
        simp [Prior]
    · cases h
  · obtain ⟨n, -, h⟩ := Option.bind_eq_some_iff.1 h
    cases h
    simp [Prior]

/-- What the universal rule justifies is marked as its own. -/
theorem rule_of_universalRule {j : Justification} (h : c.universalRule k e = some (.ok j)) :
    j.rule = .universal := by
  unfold universalRule at h
  split at h
  · split at h
    · cases h
    · split at h <;> cases h
      rfl
  · cases h

/-- What the existential rule justifies is marked as its own. -/
theorem rule_of_existentialRule {j : Justification} (h : c.existentialRule k e = some (.ok j)) :
    j.rule = .existential := by
  unfold existentialRule at h
  split at h
  · split at h
    · cases h
    · split at h <;> cases h
      rfl
  · cases h

/-- Where the line is no instance of induction, the last rules justify it by a quantifier rule. -/
theorem rule_of_lastRules {j : Justification} (hi : justified (induction e) = none)
    (h : c.lastRules k e = some (.ok j)) : j.rule = .universal ∨ j.rule = .existential := by
  simp only [lastRules, Option.orElse_eq_some] at h
  rcases h with h | ⟨-, h | ⟨-, h⟩⟩
  · exact .inl (rule_of_universalRule h)
  · exact .inr (rule_of_existentialRule h)
  · cases hi.symm.trans (justified_eq_some.2 ⟨j, h, rfl⟩)

/-- What the last rules say is told apart from what the first ones say. -/
theorem not_prior_of_lastRules (hi : justified (induction e) = none)
    (h : c.lastRules k e = some r) : ¬ Prior (some r) := by
  cases r with
  | error problem =>
    simp only [lastRules, Option.orElse_eq_some] at h
    have hkind : problem.kind = .freeVariable := by
      rcases h with h | ⟨-, h | ⟨-, h⟩⟩
      · exact kind_of_universalRule h
      · exact kind_of_existentialRule h
      · exact kind_of_induction h
    simp [Prior, hkind]
  | ok j => rcases rule_of_lastRules hi h with hrule | hrule <;> simp [Prior, hrule]

end

section
variable {p : Proof} {k : Nat} {e : Expr}

/-- What the rules that are tried first say is the verdict, with discharge safety on or off. -/
theorem classify_of_firstRules {r : Except Problem Justification}
    (h : (ofProof p false).firstRules k e = some r) :
    (ofProof p true).classify k e = some r ∧ (ofProof p false).classify k e = some r := by
  rw [classify_eq_attempt, classify_eq_attempt, attempt_eq_orElse, attempt_eq_orElse,
    firstRules_congr, h]
  exact ⟨rfl, rfl⟩

/-- Where they say nothing, a banned variable is an error, and without one the verdict does not
rest on discharge safety. -/
theorem classify_of_firstRules_eq_none (h : (ofProof p false).firstRules k e = none) :
    (ofProof p true).classify k e =
      ((ofProof p true).bannedName e).or ((ofProof p false).classify k e) := by
  rw [classify_eq_attempt, classify_eq_attempt, attempt_eq_orElse, attempt_eq_orElse,
    firstRules_congr, lastRules_congr, h, bannedName_of_safety_off]
  cases (ofProof p true).bannedName e <;> rfl

/-- A verdict tells by itself whether the rules that are tried first have given it. -/
theorem prior_iff : Prior ((ofProof p false).classify k e) ↔
    ∃ r, (ofProof p false).firstRules k e = some r := by
  constructor
  · intro hprior
    cases hfirst : (ofProof p false).firstRules k e with
    | some r => exact ⟨r, rfl⟩
    | none =>
      have hi : justified (induction e) = none := by
        simp only [firstRules, Option.orElse_eq_none] at hfirst
        exact hfirst.2.2.2.1
      rw [classify_eq_attempt, attempt_eq_orElse, hfirst, bannedName_of_safety_off] at hprior
      cases hlast : (ofProof p false).lastRules k e with
      | none =>
        rw [hlast] at hprior
        simp [Prior, Problem.kind] at hprior
      | some r =>
        rw [hlast] at hprior
        exact absurd hprior (not_prior_of_lastRules hi hlast)
  · rintro ⟨r, hr⟩
    rw [(classify_of_firstRules hr).2]
    exact prior_of_firstRules hr

/-- How the verdicts with and without discharge safety are related. -/
theorem classify_safety {h : Statement} (hh : p.sequent.hypotheses.getLast? = some h) :
    (Prior ((ofProof p false).classify k e) →
      (ofProof p true).classify k e = (ofProof p false).classify k e) ∧
    (¬ Prior ((ofProof p false).classify k e) →
      (∃ x, e.QuantifiesOver x ∧ h.formula.Free x ∧
        (ofProof p true).classify k e = some (.error (.banned x h.text))) ∨
      (∀ x, e.QuantifiesOver x → ¬ h.formula.Free x) ∧
        (ofProof p true).classify k e = (ofProof p false).classify k e) := by
  obtain ⟨hbanned, hby⟩ := banned_ofProof hh
  constructor
  · intro hprior
    obtain ⟨r, hr⟩ := prior_iff.1 hprior
    obtain ⟨hon, hoff⟩ := classify_of_firstRules hr
    rw [hon, hoff]
  · intro hprior
    have hnone : (ofProof p false).firstRules k e = none := by
      by_contra hsome
      exact hprior (prior_iff.2 (Option.ne_none_iff_exists'.1 hsome))
    rw [classify_of_firstRules_eq_none hnone]
    cases hname : (ofProof p true).bannedName e with
    | none =>
      rw [bannedName_eq_none_iff] at hname
      simp only [hbanned, mem_freeVariables] at hname
      exact .inr ⟨hname, rfl⟩
    | some r =>
      obtain ⟨x, hx, hmem, rfl⟩ := bannedName_eq_some hname
      rw [hbanned, mem_freeVariables] at hmem
      exact .inl ⟨x, hx, hmem, by rw [hby]; rfl⟩

end

end Context

/-! ## The lines of the two checks -/

/-- The verdict on the line is given before its variables are looked at. -/
def Line.PrecedesRules (l : Line) : Prop :=
  Context.Prior (l.verdict.map (Except.mapError LineError.problem))

namespace Proof

variable {p : Proof} {h : Statement}

/-- A line's verdict precedes the rules when the attempt it comes from does. -/
theorem precedesRules_iff {l : Line} {n : Nat} {a : Attempt}
    (hl : l.verdict = a.map (Except.mapError (LineError.mk n))) :
    l.PrecedesRules ↔ Context.Prior a := by
  unfold Line.PrecedesRules
  rw [hl]
  rcases a with _ | _ | _ <;> rfl

/-- How the two verdicts on a line are related. -/
theorem line_safety (hh : p.sequent.hypotheses.getLast? = some h) {k : Nat} {off : Line}
    (hoff : (p.check false).lines[k]? = some off) :
    ∃ on, (p.check true).lines[k]? = some on ∧ (off.PrecedesRules → on = off) ∧
      (¬ off.PrecedesRules → ∃ e, off.formula = some e ∧
        ((∃ x, e.QuantifiesOver x ∧ h.formula.Free x ∧
            on.verdict = some (.error ⟨k + 1, .banned x h.text⟩)) ∨
          (∀ x, e.QuantifiesOver x → ¬ h.formula.Free x) ∧ on = off)) := by
  rw [getElem?_check_lines, Option.map_eq_some_iff] at hoff
  obtain ⟨l, hl, rfl⟩ := hoff
  refine ⟨(Context.ofProof p true).line k l, by rw [getElem?_check_lines, hl]; rfl, ?_⟩
  cases hparsed : l.parsed with
  | error f =>
    have hline : (Context.ofProof p true).line k l = (Context.ofProof p false).line k l := by
      simp only [Context.line, hparsed]
    have hprior : ((Context.ofProof p false).line k l).PrecedesRules := by
      unfold Line.PrecedesRules
      rw [Context.verdict_line_of_malformed hparsed]
      exact .inl rfl
    exact ⟨fun _ => hline, fun hnot => absurd hprior hnot⟩
  | ok e =>
    have hprior := precedesRules_iff (Context.verdict_line_of_parsed (c := .ofProof p false)
      (k := k) hparsed)
    have hline (hclass : (Context.ofProof p true).classify k e =
        (Context.ofProof p false).classify k e) :
        (Context.ofProof p true).line k l = (Context.ofProof p false).line k l := by
      simp only [Context.line, hparsed, hclass]
    obtain ⟨hsame, hrest⟩ := Context.classify_safety (k := k) (e := e) hh
    rw [hprior]
    refine ⟨fun h => hline (hsame h), fun h => ⟨e, ?_, ?_⟩⟩
    · exact ProofLine.formula?_eq_some_iff.2 hparsed
    · rcases hrest h with ⟨x, hx, hfree, hclass⟩ | ⟨hnone, hclass⟩
      · refine .inl ⟨x, hx, hfree, ?_⟩
        rw [Context.verdict_line_of_parsed hparsed, hclass]
        rfl
      · exact .inr ⟨hnone, hline hclass⟩

/-- Where no line is in error for a banned variable, the two checks agree on all lines. -/
theorem check_lines_eq (hh : p.sequent.hypotheses.getLast? = some h)
    (hnot : ∀ (k : Nat) (on : Line) (x : Text), (p.check true).lines[k]? = some on →
      h.formula.Free x → on.verdict ≠ some (.error ⟨k + 1, .banned x h.text⟩)) :
    (p.check true).lines = (p.check false).lines := by
  refine List.ext_getElem? fun k => ?_
  cases hoff : (p.check false).lines[k]? with
  | none => simpa [check] using hoff
  | some off =>
    obtain ⟨on, hon, hprior, hrest⟩ := line_safety hh hoff
    rw [hon]
    by_cases hp : off.PrecedesRules
    · rw [hprior hp]
    · obtain ⟨e, -, ⟨x, -, hfree, hverdict⟩ | ⟨-, heq⟩⟩ := hrest hp
      · exact absurd hverdict (hnot k on x hon hfree)
      · rw [heq]

/-- Checks that say the same of the lines report the same errors. -/
theorem check_errors_congr {safety safety' : Bool}
    (hlines : (p.check safety).lines = (p.check safety').lines) :
    (p.check safety).errors = (p.check safety').errors :=
  congrArg (fun ls : List Line => ls.filterMap Line.error? ++
    if p.reachesGoal then [] else [⟨0, .wrongGoal⟩]) hlines

/-- Where the last hypothesis has no free variable, discharge safety makes no difference. -/
theorem check_of_closed (hh : p.sequent.hypotheses.getLast? = some h)
    (hclosed : ∀ x, ¬ h.formula.Free x) : (p.check true).errors = (p.check false).errors :=
  check_errors_congr (check_lines_eq hh fun _ _ x _ hfree => absurd hfree (hclosed x))

/-- Without errors every line is justified. -/
theorem exists_verdict_of_errors_eq_nil {safety : Bool} (hok : (p.check safety).errors = [])
    {k : Nat} {l : Line} (hl : (p.check safety).lines[k]? = some l) :
    ∃ j, l.verdict = some (.ok j) := by
  have herrors : (p.check safety).lines.filterMap Line.error? = [] :=
    (List.append_eq_nil_iff.1 hok).1
  have hnone := List.filterMap_eq_nil_iff.1 herrors l (List.mem_of_getElem? hl)
  rw [getElem?_check_lines, Option.map_eq_some_iff] at hl
  obtain ⟨pl, -, rfl⟩ := hl
  exact Context.error?_line_eq_none_iff.1 hnone

/-- Discharge safety refines the check. A verdict that is given before the quantifier rules are
looked at is the same with it and without it. On any other line there is an error of a free variable
where the line quantifies over a variable that is free in the last hypothesis, and the same verdict
where it does not. So a proof without errors is one without discharge safety, by the same
justifications, and no quantifier rule in it is used over a variable of the last hypothesis. -/
theorem discharge_safety_refines (hh : p.sequent.hypotheses.getLast? = some h) :
    (∀ (k : Nat) (off : Line), (p.check false).lines[k]? = some off →
      ∃ on, (p.check true).lines[k]? = some on ∧ (off.PrecedesRules → on = off) ∧
        (¬ off.PrecedesRules → ∃ e, off.formula = some e ∧
          ((∃ x, e.QuantifiesOver x ∧ h.formula.Free x) → on.Fails .freeVariable ∧
            ∃ x, e.QuantifiesOver x ∧ h.formula.Free x ∧
              on.verdict = some (.error ⟨k + 1, .banned x h.text⟩)) ∧
          ((¬ ∃ x, e.QuantifiesOver x ∧ h.formula.Free x) → on = off))) ∧
    ((p.check true).errors = [] → (p.check false).errors = [] ∧
      (p.check false).lines = (p.check true).lines ∧
      ∀ (k : Nat) (l : Line) (j : Justification), (p.check true).lines[k]? = some l →
        l.justification? = some j → j.rule = .universal ∨ j.rule = .existential →
        ∃ e, l.formula = some e ∧ ∀ x, e.QuantifiesOver x → ¬ h.formula.Free x) := by
  refine ⟨fun k off hoff => ?_, fun hok => ?_⟩
  · obtain ⟨on, hon, hsame, hrest⟩ := line_safety hh hoff
    refine ⟨on, hon, hsame, fun hprior => ?_⟩
    obtain ⟨e, he, ⟨x, hx, hfree, hverdict⟩ | ⟨hnone, heq⟩⟩ := hrest hprior
    · refine ⟨e, he, fun _ => ⟨?_, x, hx, hfree, hverdict⟩, fun hnot => ?_⟩
      · exact Line.fails_of_verdict (a := some (.error (.banned x h.text))) hverdict rfl
      · exact absurd ⟨x, hx, hfree⟩ hnot
    · refine ⟨e, he, ?_, fun _ => heq⟩
      rintro ⟨x, hx, hfree⟩
      exact absurd hfree (hnone x hx)
  · have hlines : (p.check true).lines = (p.check false).lines := by
      refine check_lines_eq hh fun k on x hon _ hverdict => ?_
      obtain ⟨j, hj⟩ := exists_verdict_of_errors_eq_nil hok hon
      cases hverdict.symm.trans hj
    refine ⟨(check_errors_congr hlines).symm.trans hok, hlines.symm, fun k l j hl hj hrule => ?_⟩
    obtain ⟨on, hon, -, hrest⟩ := line_safety hh (hlines ▸ hl)
    cases hon.symm.trans hl
    obtain ⟨j', hverdict⟩ := exists_verdict_of_errors_eq_nil hok hl
    cases (Line.verdict_eq_ok_iff.1 hverdict).1.symm.trans hj
    have hprior : ¬ l.PrecedesRules := by
      unfold Line.PrecedesRules
      rw [hverdict]
      rcases hrule with hrule | hrule <;> simp [Context.Prior, Except.mapError, hrule]
    obtain ⟨e, he, ⟨x, -, -, herror⟩ | ⟨hnone, -⟩⟩ := hrest hprior
    · cases herror.symm.trans hverdict
    · exact ⟨e, he, hnone⟩

/-- The quantifier of the last line binds nothing, and is over the variable of the last
hypothesis. -/
theorem discharge_safety_refines_vacuous :
    ∃ p h off on, Proof.read "A->B,P(y)|-A->@yB" ["A->B", "A->@yB"] = .ok p ∧
      p.sequent.hypotheses.getLast? = some h ∧ (p.check false).errors = [] ∧
      (p.check false).lines[1]? = some off ∧
      off.verdict = some (.ok { rule := .universal, premise := 0 }) ∧
      (p.check true).lines[1]? = some on ∧ on.Fails .freeVariable := by
  have hrun : (Proof.read "A->B,P(y)|-A->@yB" ["A->B", "A->@yB"]).map
      (fun p => ((p.sequent.hypotheses.getLast?.map Statement.formula, (p.check false).errors),
        (p.check false).lines[1]?.map Line.formula, (p.check false).lines[1]?.map Line.verdict)) =
        .ok ((some (.predicate "P" [.var "y"]), []),
          some (some (.implies (.predicate "A" []) (.forAll "y" (.predicate "B" [])))),
          some (some (.ok { rule := .universal, premise := 0 }))) := by
    cbv
  obtain ⟨p, hp, heq⟩ := exists_of_map_eq_ok hrun
  simp only [Prod.mk.injEq, Option.map_eq_some_iff] at heq
  obtain ⟨⟨⟨h, hh, hformula⟩, herrors⟩, ⟨off, hoff, he⟩, off', hoff', hj⟩ := heq
  cases hoff.symm.trans hoff'
  obtain ⟨on, hon, -, hrest⟩ := (discharge_safety_refines hh).1 1 off hoff
  have hprior : ¬ off.PrecedesRules := by
    unfold Line.PrecedesRules
    rw [hj]
    simp [Context.Prior, Except.mapError]
  obtain ⟨e, he', hbanned, -⟩ := hrest hprior
  cases he.symm.trans he'
  have hfree : h.formula.Free "y" := by
    rw [hformula]
    exact .inside (by decide) (by decide) (by simp [Expr.children]; rfl) (.var rfl rfl)
  refine ⟨p, h, off, on, hp, hh, herrors, hoff, hj, hon, (hbanned ⟨"y", ?_, hfree⟩).1⟩
  exact .inr ⟨_, _, rfl, .inr ⟨rfl, rfl⟩⟩

end Proof

end Sequitur
