import Mathlib
import Sequitur.Proofs.Completeness
import Sequitur.Proofs.Prefixes

/-!
# One proof after another

Of two proofs without errors from the same hypotheses, the lines of the first are put before those
of the second (`Proof.append`), and the goal is that of the second. The lines of the first keep
their verdicts. Those of the second are classified again with more before them: what was one step
still is one, so by the completeness of the classification a line can only be lost in one of its two
situations. A capture would have been reported before. But a line `(?xA)->(@yB)` which the second
proof has by the existential rule is blocked when the first proof has a line `(?xA)->B` and `y` is
free in `?xA`. Lines that are obstructed in this way are in error, and nothing else is.
-/

namespace Sequitur

namespace Proof

/-- The lines of one proof before those of another, for the hypotheses and goal of the other. -/
def append (p q : Proof) : Proof := { q with lines := p.lines ++ q.lines }

variable {p q : Proof} {k : Nat} {e : Expr}

/-! ## What stands before a line -/

theorem formulas_append (p q : Proof) : (p.append q).formulas = p.formulas ++ q.formulas :=
  List.map_append

theorem length_formulas (p : Proof) : p.formulas.length = p.lines.length := List.length_map _

/-- The lines of the second proof come after those of the first. -/
theorem getElem?_lines_append (p q : Proof) (k : Nat) :
    (p.append q).lines[p.lines.length + k]? = q.lines[k]? := by
  show (p.lines ++ q.lines)[_]? = _
  rw [List.getElem?_append_right (Nat.le_add_right _ _), Nat.add_sub_cancel_left]

theorem getElem?_formulas_append (p q : Proof) (k : Nat) :
    (p.append q).formulas[p.lines.length + k]? = q.formulas[k]? := by
  rw [formulas, formulas, List.getElem?_map, List.getElem?_map, getElem?_lines_append]

/-- Before a line of the second proof stand all lines of the first and those before it in the
second. -/
theorem before_append_iff :
    (p.append q).Before (p.lines.length + k) e ↔ some e ∈ p.formulas ∨ q.Before k e := by
  constructor
  · rintro ⟨i, hi, hline⟩
    by_cases hlt : i < p.formulas.length
    · rw [formulas_append, List.getElem?_append_left hlt] at hline
      exact .inl (List.mem_of_getElem? hline)
    · rw [length_formulas] at hlt
      obtain ⟨j, rfl⟩ := Nat.exists_eq_add_of_le (Nat.le_of_not_lt hlt)
      rw [getElem?_formulas_append] at hline
      exact .inr ⟨j, by omega, hline⟩
  · rintro (hmem | ⟨j, hj, hline⟩)
    · obtain ⟨i, hlt, hget⟩ := List.getElem_of_mem hmem
      refine ⟨i, by rw [length_formulas] at hlt; omega, ?_⟩
      rw [formulas_append, List.getElem?_append_left hlt, List.getElem?_eq_getElem hlt, hget]
    · exact ⟨p.lines.length + j, by omega, by rw [getElem?_formulas_append, hline]⟩

theorem Before.append (h : q.Before k e) : (p.append q).Before (p.lines.length + k) e :=
  before_append_iff.2 (.inr h)

/-- What modus ponens gives in the second proof it gives after the first. -/
theorem Detaches.append (h : q.Detaches k e) : (p.append q).Detaches (p.lines.length + k) e := by
  obtain ⟨a, ha, hae⟩ := h
  exact ⟨a, ha.append, hae.append⟩

/-- What neither schemas nor axioms nor hypotheses give is left to the quantifier rules after more
lines, unless modus ponens gives it now. -/
theorem leftToRules_append_iff :
    (p.append q).LeftToRules (p.lines.length + k) e ↔
      q.LeftToRules k e ∧ ¬ (p.append q).Detaches (p.lines.length + k) e := by
  constructor
  · intro h
    exact ⟨⟨h.schema, fun hdetach => h.modusPonens hdetach.append, h.quantifier, h.capturing,
      h.induction, h.hypothesis⟩, h.modusPonens⟩
  · rintro ⟨h, hdetach⟩
    exact ⟨h.schema, hdetach, h.quantifier, h.capturing, h.induction, h.hypothesis⟩

/-- Two well-formed proofs in a row are well-formed. -/
theorem WellFormed.append (hp : p.WellFormed) (hq : q.WellFormed) : (p.append q).WellFormed := by
  refine ⟨fun e he => ?_, hq.hypotheses, hq.goal⟩
  rw [formulas_append, List.mem_append] at he
  exact he.elim (hp.lines e) (hq.lines e)

/-- Line `k` of `q` is `(?xA)->(@yB)` and `q` has it by the existential rule. But `p` has a line
`(?xA)->B`, `y` is free in `?xA`, and after the lines of `p` modus ponens does not give the line
either. -/
structure Obstructs (p q : Proof) (k : Nat) (x : Text) (a : Expr) (y : Text) (b : Expr) : Prop where
  line : q.formulas[k]? = some (some (.implies (.exist x a) (.forAll y b)))
  existential : ∃ l j, (q.check false).lines[k]? = some l ∧ l.verdict = some (.ok j) ∧
    j.rule = .existential
  universal : some (.implies (.exist x a) b) ∈ p.formulas
  free : (Expr.exist x a).Free y
  not_detaches : ¬ (p.append q).Detaches (p.lines.length + k)
    (.implies (.exist x a) (.forAll y b))

end Proof

/-! ## The lines again -/

namespace Context

variable {p q : Proof} {k : Nat} {e : Expr} {j : Justification}

/-- A line that is justified by the existential rule is left to the quantifier rules, and it is that
rule which answers. -/
theorem leftToRules_of_existential (hp : p.WellFormed) (he : e.IsFormula)
    (h : (ofProof p false).classify k e = some (.ok j)) (hj : j.rule = .existential) :
    p.LeftToRules k e ∧ (ofProof p false).existentialRule k e = some (.ok j) := by
  have hinstance : ¬ j.isInstance = true := by simp [Justification.isInstance, hj]
  obtain hattempt | ⟨-, herror⟩ := attempt_of_classify h
  swap
  · cases herror
  simp only [attempt, Option.orElse_eq_some, bannedName_of_safety_off] at hattempt
  rcases hattempt with h | ⟨hs, h | ⟨hm, h | ⟨hq, h | ⟨hi, h | ⟨hh, hattempt⟩⟩⟩⟩⟩
  · obtain ⟨-, j', hr, hj'⟩ := schema_eq_some he h
    cases hr
    exact absurd hj' hinstance
  · obtain ⟨i, j', a, hr, -⟩ := modusPonens_eq_some hp he h
    cases hr
    cases hj
  · exact absurd (quantifierAxiom_eq_ok he h).2 hinstance
  · obtain ⟨j', h, hr⟩ := justified_eq_some.1 h
    cases hr
    exact absurd (induction_eq_ok he h).2 hinstance
  · obtain ⟨n, -, -, hr⟩ := hypothesis_eq_some hp he h
    cases hr
    cases hj
  have hleft := (leftToRules_iff hp he false).2 ⟨hs, hm, hq, hi, hh⟩
  rcases hattempt with h | ⟨-, h | ⟨-, h | ⟨-, h⟩⟩⟩
  · cases h
  · obtain ⟨x, a, b, i, -, rfl, -⟩ := universalRule_eq_ok hp he h
    cases hj
  · exact ⟨hleft, h⟩
  · exact absurd (induction_eq_ok he h).2 hinstance

/-- A line that the universal rule cannot give, for its variable is free, is justified by the
existential rule, and the premise of the universal rule is not there. -/
theorem existential_of_leftToRules (hp : p.WellFormed) {x y : Text} {a b : Expr}
    (he : (Expr.implies (.exist x a) (.forAll y b)).IsFormula)
    (hleft : p.LeftToRules k (.implies (.exist x a) (.forAll y b)))
    (hfree : (Expr.exist x a).Free y)
    (h : (ofProof p false).classify k (.implies (.exist x a) (.forAll y b)) = some (.ok j)) :
    j.rule = .existential ∧ ¬ p.Before k (.implies (.exist x a) b) := by
  have hrules := (attempt_of_classify h).resolve_right (by simp)
  rw [attempt_of_leftToRules hp he hleft] at hrules
  constructor
  · simp only [Option.orElse_eq_some] at hrules
    rcases hrules with h | ⟨-, h | ⟨-, h⟩⟩
    · obtain ⟨y', a', b', i, heq, -, -, -, hnot⟩ := universalRule_eq_ok hp he h
      cases heq
      exact absurd hfree hnot
    · obtain ⟨x', a', b', i, -, rfl, -⟩ := existentialRule_eq_ok hp he h
      rfl
    · exact absurd ((induction_eq_ok_iff he).1 h).1 hleft.induction
  · intro hbefore
    rw [(universalRule_eq_error_iff hp he).2 ⟨y, .exist x a, b, rfl, hbefore, hfree, rfl⟩] at hrules
    cases hrules

/-- A line of the second proof is in error after the lines of the first just where it is
obstructed. -/
theorem classify_append_eq_error_iff (hp : p.WellFormed) (hq : q.WellFormed)
    (hk : q.formulas[k]? = some (some e)) (hclass : (ofProof q false).classify k e = some (.ok j))
    {problem : Problem} :
    (ofProof (p.append q) false).classify (p.lines.length + k) e = some (.error problem) ↔
      ∃ x a y b, p.Obstructs q k x a y b ∧
        problem = .occursFree y (Expr.exist x a).canonical := by
  have he := hq.isFormula hk
  have happ := hp.append hq
  obtain ⟨l, hl, hverdict⟩ := Proof.exists_verdict hk false
  rw [hclass] at hverdict
  constructor
  · intro herror
    have hstep : Step (p.append q).hypotheses ((p.append q).Before (p.lines.length + k)) e :=
      (step_of_classify hq he hclass).mono fun a ha => ha.append
    have hcap : ¬ (p.append q).Captures (p.lines.length + k) e := by
      intro h
      obtain ⟨c, hc⟩ := classify_of_captures hq he false
        ⟨h.schema, fun hdetach => h.modusPonens hdetach.append, h.quantifier, h.capturing⟩
      cases hc.symm.trans hclass
    have hblocked : (p.append q).Blocked (p.lines.length + k) e := by
      by_contra hnot
      obtain ⟨j', hj'⟩ := classify_of_step happ he hstep hcap hnot
      cases hj'.symm.trans herror
    obtain ⟨x, a, y, b, hblocked⟩ := hblocked
    cases herror.symm.trans (classify_of_blockedBy happ he hblocked)
    obtain ⟨hleft, hdetach⟩ := Proof.leftToRules_append_iff.1 hblocked.toLeftToRules
    obtain rfl := hblocked.shape
    obtain ⟨hrule, hnot⟩ := existential_of_leftToRules hq he hleft hblocked.free hclass
    have huniversal := (Proof.before_append_iff.1 hblocked.universal).resolve_right hnot
    exact ⟨x, a, y, b, ⟨hk, ⟨l, j, hl, hverdict, hrule⟩, huniversal, hblocked.free, hdetach⟩, rfl⟩
  · rintro ⟨x, a, y, b, h, rfl⟩
    cases hk.symm.trans h.line
    obtain ⟨l', j', hl', hverdict', hrule⟩ := h.existential
    cases hl.symm.trans hl'
    cases hverdict.symm.trans hverdict'
    obtain ⟨hleft, hexists⟩ := leftToRules_of_existential hq he hclass hrule
    obtain ⟨x', a', b', i, heq, -, hi, hline, hx⟩ := existentialRule_eq_ok hq he hexists
    cases heq
    exact classify_of_blockedBy happ he
      ⟨Proof.leftToRules_append_iff.2 ⟨hleft, h.not_detaches⟩, rfl,
        Proof.Before.append ⟨i, hi, hline⟩, hx, Proof.before_append_iff.2 (.inl h.universal),
        h.free⟩

/-- The lines of the first proof are classified as before. -/
theorem classify_append_left (hhyps : p.hypotheses = q.hypotheses) (hk : k ≤ p.lines.length)
    (e : Expr) :
    (ofProof (p.append q) false).classify k e = (ofProof p false).classify k e := by
  have htake : (p.append q).formulas.take k = p.formulas.take k := by
    rw [Proof.formulas_append, List.take_append_of_le_length (by rwa [Proof.length_formulas])]
  exact classify_congr (q := p.append q) hhyps.symm rfl rfl htake e

end Context

/-! ## The whole proof -/

namespace Proof

variable {p q : Proof}

/-- Two proofs in a row reach the goal that the second reaches. -/
theorem reachesGoal_append (h : q.reachesGoal = true) : (p.append q).reachesGoal = true := by
  have hne : q.formulas ≠ [] := by
    intro hnil
    simp [reachesGoal, last?, hnil] at h
  have hlast : (p.append q).last? = q.last? := by
    rw [last?, last?, formulas_append, List.getLast?_append_of_ne_nil _ hne]
  unfold reachesGoal at h ⊢
  rw [hlast]
  exact h

/-- Valid proofs compose, but for obstructed lines. Two proofs without errors from the same
hypotheses, one after the other, are read as one proof of what the second proves. Its errors are
those of the obstructed lines of the second, and each names the variable that is free. -/
theorem check_append {header₁ header₂ : Text} {lines₁ lines₂ : List Text} {p₁ p₂ : Proof}
    (h₁ : Proof.read header₁ lines₁ = .ok p₁) (h₂ : Proof.read header₂ lines₂ = .ok p₂)
    (hhyps : p₁.hypotheses = p₂.hypotheses) (hok₁ : (p₁.check false).errors = [])
    (hok₂ : (p₂.check false).errors = []) :
    Proof.read header₂ (lines₁ ++ lines₂) = .ok (p₁.append p₂) ∧
      ∀ err, err ∈ ((p₁.append p₂).check false).errors ↔
        ∃ k x a y b, p₁.Obstructs p₂ k x a y b ∧
          err = ⟨lines₁.length + k + 1, .occursFree y (Expr.exist x a).canonical⟩ := by
  have hwf₁ := wellFormed_of_read h₁
  have hwf₂ := wellFormed_of_read h₂
  have hlength : p₁.lines.length = lines₁.length := by rw [lines_of_read h₁, List.length_map]
  obtain ⟨hlines₁, -⟩ := check_errors_eq_nil_iff.1 hok₁
  obtain ⟨hlines₂, hgoal⟩ := check_errors_eq_nil_iff.1 hok₂
  constructor
  · rw [append, lines_of_read h₁, lines_of_read h₂, ← List.map_append]
    exact read_of_read h₂ _
  intro err
  rw [mem_errors_iff, reachesGoal_append hgoal, ← hlength]
  simp only [Bool.true_eq_false, false_and, or_false]
  constructor
  · rintro ⟨i, l, hl, herr⟩
    by_cases hi : i < p₁.lines.length
    · -- a line of the first proof is justified as it was
      rw [append, List.getElem?_append_left hi] at hl
      obtain ⟨e, j, hparsed, hclass⟩ := hlines₁ i l hl
      obtain ⟨problem, hproblem, -⟩ := (Context.error?_line_eq_some_iff hparsed).1 herr
      rw [Context.classify_append_left hhyps hi.le, hclass] at hproblem
      cases hproblem
    · obtain ⟨k, rfl⟩ := Nat.exists_eq_add_of_le (Nat.le_of_not_lt hi)
      rw [getElem?_lines_append] at hl
      obtain ⟨e, j, hparsed, hclass⟩ := hlines₂ k l hl
      have hk := getElem?_formulas_eq_some_iff.2 ⟨l, hl, hparsed⟩
      obtain ⟨problem, hproblem, rfl⟩ := (Context.error?_line_eq_some_iff hparsed).1 herr
      obtain ⟨x, a, y, b, h, rfl⟩ :=
        (Context.classify_append_eq_error_iff hwf₁ hwf₂ hk hclass).1 hproblem
      exact ⟨k, x, a, y, b, h, rfl⟩
  · rintro ⟨k, x, a, y, b, h, rfl⟩
    obtain ⟨l, hl, hparsed⟩ := getElem?_formulas_eq_some_iff.1 h.line
    obtain ⟨e, j, hparsed', hclass⟩ := hlines₂ k l hl
    cases hparsed.symm.trans hparsed'
    refine ⟨p₁.lines.length + k, l, by rw [getElem?_lines_append, hl],
      (Context.error?_line_eq_some_iff hparsed).2 ⟨_, ?_, rfl⟩⟩
    exact (Context.classify_append_eq_error_iff hwf₁ hwf₂ h.line hclass).2 ⟨x, a, y, b, h, rfl⟩

/-- The existential rule gives the last line from the one before it. After the first line the
universal rule would give it too, and does. -/
theorem check_append_generalization :
    ∃ p₁ p₂ : Proof, Proof.read "P(y)->@zQ(z),?xP(y)->Q(z)|-?xP(y)->Q(z)" ["?xP(y)->Q(z)"] =
        .ok p₁ ∧
      Proof.read "P(y)->@zQ(z),?xP(y)->Q(z)|-?xP(y)->@zQ(z)" ["P(y)->@zQ(z)", "?xP(y)->@zQ(z)"] =
        .ok p₂ ∧
      (p₁.check false).errors = [] ∧ (p₂.check false).errors = [] ∧
      Proof.read "P(y)->@zQ(z),?xP(y)->Q(z)|-?xP(y)->@zQ(z)"
        ["?xP(y)->Q(z)", "P(y)->@zQ(z)", "?xP(y)->@zQ(z)"] = .ok (p₁.append p₂) ∧
      ((p₁.append p₂).check false).errors = [] := by
  have hrun₁ : (Proof.read "P(y)->@zQ(z),?xP(y)->Q(z)|-?xP(y)->Q(z)" ["?xP(y)->Q(z)"]).map
      (fun p => (p.hypotheses, (p.check false).errors)) =
        .ok ([.implies (.predicate "P" [.var "y"]) (.forAll "z" (.predicate "Q" [.var "z"])),
          .implies (.exist "x" (.predicate "P" [.var "y"])) (.predicate "Q" [.var "z"])], []) := by
    cbv
  have hrun₂ : (Proof.read "P(y)->@zQ(z),?xP(y)->Q(z)|-?xP(y)->@zQ(z)"
        ["P(y)->@zQ(z)", "?xP(y)->@zQ(z)"]).map
      (fun p => (p.hypotheses, (p.check false).errors, p.formulas)) =
        .ok ([.implies (.predicate "P" [.var "y"]) (.forAll "z" (.predicate "Q" [.var "z"])),
          .implies (.exist "x" (.predicate "P" [.var "y"])) (.predicate "Q" [.var "z"])], [],
          [some (.implies (.predicate "P" [.var "y"]) (.forAll "z" (.predicate "Q" [.var "z"]))),
          some (.implies (.exist "x" (.predicate "P" [.var "y"]))
            (.forAll "z" (.predicate "Q" [.var "z"])))]) := by
    cbv
  obtain ⟨p₁, h₁, heq₁⟩ := exists_of_map_eq_ok hrun₁
  obtain ⟨p₂, h₂, heq₂⟩ := exists_of_map_eq_ok hrun₂
  simp only [Prod.mk.injEq] at heq₁ heq₂
  obtain ⟨hhyps₁, hok₁⟩ := heq₁
  obtain ⟨hhyps₂, hok₂, hformulas⟩ := heq₂
  obtain ⟨hread, herrors⟩ := check_append h₁ h₂ (hhyps₁.trans hhyps₂.symm) hok₁ hok₂
  refine ⟨p₁, p₂, h₁, h₂, hok₁, hok₂, hread, List.eq_nil_iff_forall_not_mem.2 fun err herr => ?_⟩
  obtain ⟨k, x, a, y, b, hobstructs, -⟩ := (herrors err).1 herr
  have hline := hobstructs.line
  rw [hformulas] at hline
  rcases k with _ | _ | k
  · cases hline
  · cases hline
    have hfree := hobstructs.free
    rw [← Expr.isFree_iff] at hfree
    revert hfree
    decide
  · cases hline

/-- Valid proofs need not compose: with one more proved line before it, the last line of a valid
proof is rejected. -/
theorem composition_fails :
    ∃ p₁ p₂ p : Proof, Proof.read "P(y)->@yQ(y),?xP(y)->Q(y)|-?xP(y)->Q(y)" ["?xP(y)->Q(y)"] =
        .ok p₁ ∧
      Proof.read "P(y)->@yQ(y),?xP(y)->Q(y)|-?xP(y)->@yQ(y)" ["P(y)->@yQ(y)", "?xP(y)->@yQ(y)"] =
        .ok p₂ ∧
      Proof.read "P(y)->@yQ(y),?xP(y)->Q(y)|-?xP(y)->@yQ(y)"
        (["?xP(y)->Q(y)"] ++ ["P(y)->@yQ(y)", "?xP(y)->@yQ(y)"]) = .ok p ∧
      p₁.hypotheses = p₂.hypotheses ∧ (p₁.check false).errors = [] ∧ (p₂.check false).errors = [] ∧
      (p.check false).errors = [⟨3, .occursFree "y" "(?xP(y))"⟩] := by
  have hrun₁ : (Proof.read "P(y)->@yQ(y),?xP(y)->Q(y)|-?xP(y)->Q(y)" ["?xP(y)->Q(y)"]).map
      (fun p => (p.hypotheses, (p.check false).errors)) =
        .ok ([.implies (.predicate "P" [.var "y"]) (.forAll "y" (.predicate "Q" [.var "y"])),
          .implies (.exist "x" (.predicate "P" [.var "y"])) (.predicate "Q" [.var "y"])], []) := by
    cbv
  have hrun₂ : (Proof.read "P(y)->@yQ(y),?xP(y)->Q(y)|-?xP(y)->@yQ(y)"
        ["P(y)->@yQ(y)", "?xP(y)->@yQ(y)"]).map
      (fun p => (p.hypotheses, (p.check false).errors)) =
        .ok ([.implies (.predicate "P" [.var "y"]) (.forAll "y" (.predicate "Q" [.var "y"])),
          .implies (.exist "x" (.predicate "P" [.var "y"])) (.predicate "Q" [.var "y"])], []) := by
    cbv
  have hrun : (Proof.read "P(y)->@yQ(y),?xP(y)->Q(y)|-?xP(y)->@yQ(y)"
        (["?xP(y)->Q(y)"] ++ ["P(y)->@yQ(y)", "?xP(y)->@yQ(y)"])).map
      (fun p => (p.check false).errors) = .ok [⟨3, .occursFree "y" "(?xP(y))"⟩] := by
    cbv
  obtain ⟨p₁, h₁, heq₁⟩ := exists_of_map_eq_ok hrun₁
  obtain ⟨p₂, h₂, heq₂⟩ := exists_of_map_eq_ok hrun₂
  obtain ⟨p, h, herrors⟩ := exists_of_map_eq_ok hrun
  simp only [Prod.mk.injEq] at heq₁ heq₂
  exact ⟨p₁, p₂, p, h₁, h₂, h, heq₁.1.trans heq₂.1.symm, heq₁.2, heq₂.2, herrors⟩

end Proof

end Sequitur
