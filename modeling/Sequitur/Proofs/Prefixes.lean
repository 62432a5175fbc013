import Mathlib
import Sequitur.Proofs.Acceptance

/-!
# A check goes from left to right

The index of a proof is built over all its lines, the later ones and those in error included,
before the first line is classified. Even so the verdict on a line rests on nothing but the
hypotheses, the line and the lines before it (`Context.line_congr`): what the look-ups find among
all lines and then ask to be earlier is what a search among the earlier lines finds. It follows that
checking the first lines of a proof gives the first verdicts of the whole check.

A verdict is a justification or an error, and the error of a line that was read is never one of
reading nor one of the whole proof (`Context.kind_of_classify`). So the errors of a check are those
of its lines, each with the number of its line, and after them the one of the goal.
-/

namespace Sequitur

/-- A search comes to the same when it says the same of every element. -/
theorem findSome?_congr {α β : Type} {l : List α} {f g : α → Option β} (h : ∀ a ∈ l, f a = g a) :
    l.findSome? f = l.findSome? g := by
  induction l with
  | nil => rfl
  | cons a l ih =>
    rw [List.findSome?_cons, List.findSome?_cons, h a (by simp), ih fun b hb => h b (by simp [hb])]

namespace Context

/-! ## What a verdict rests on -/

section
variable {p q : Proof} {safety safety' : Bool} {k : Nat}

/-- The lines before line `k` decide whether a formula is found there. -/
theorem earlier?_congr (safety safety' : Bool) (h : q.formulas.take k = p.formulas.take k)
    (e : Expr) :
    (ofProof q safety').earlier? e k = (ofProof p safety).earlier? e k := by
  rw [earlier?_eq_findIdx?, earlier?_eq_findIdx?, h]

/-- The lines before line `k` decide what modus ponens says of it. -/
theorem modusPonens_congr (h : q.formulas.take k = p.formulas.take k) (e : Expr) :
    (ofProof q safety').modusPonens k e = (ofProof p safety).modusPonens k e := by
  have hantecedent (j : Nat) (hj : j < k) :
      (ofProof q safety').antecedent? j = (ofProof p safety).antecedent? j := by
    have hline : q.formulas[j]? = p.formulas[j]? := by
      rw [← List.getElem?_take_of_lt hj, h, List.getElem?_take_of_lt hj]
    unfold antecedent?
    rw [show (ofProof q safety').lines = q.formulas from rfl, hline]
    rfl
  unfold modusPonens
  rw [takeWhile_implications, takeWhile_implications, h, ← takeWhile_implications p safety]
  refine findSome?_congr fun j hj => ?_
  have hjk : j < k := by simpa using List.mem_takeWhile_imp hj
  simp only [hantecedent j hjk, earlier?_congr safety safety' h]

/-- The lines before line `k` decide what the universal rule says of it. -/
theorem universalRule_congr (h : q.formulas.take k = p.formulas.take k) (e : Expr) :
    (ofProof q safety').universalRule k e = (ofProof p safety).universalRule k e := by
  unfold universalRule
  simp only [earlier?_congr safety safety' h]

/-- The lines before line `k` decide what the existential rule says of it. -/
theorem existentialRule_congr (h : q.formulas.take k = p.formulas.take k) (e : Expr) :
    (ofProof q safety').existentialRule k e = (ofProof p safety).existentialRule k e := by
  unfold existentialRule
  simp only [earlier?_congr safety safety' h]

/-- The hypotheses alone decide what they say of a line. -/
theorem hypothesis_congr (h : q.hypotheses = p.hypotheses) (e : Expr) :
    (ofProof q safety').hypothesis e = (ofProof p safety).hypothesis e := by
  have hfind : (ofProof q safety').index.hypothesis? e.canonical =
      (ofProof p safety).index.hypothesis? e.canonical := by
    show (Index.ofProof q).hypothesis? _ = (Index.ofProof p).hypothesis? _
    rw [Index.hypothesis?_ofProof, Index.hypothesis?_ofProof, h]
  unfold hypothesis
  rw [hfind]

/-- The classification of line `k` rests on the hypotheses, the banned variables and the lines
before it. -/
theorem classify_congr (hhyps : q.hypotheses = p.hypotheses)
    (hbanned : (ofProof q safety').banned = (ofProof p safety).banned)
    (hby : (ofProof q safety').bannedBy = (ofProof p safety).bannedBy)
    (h : q.formulas.take k = p.formulas.take k) (e : Expr) :
    (ofProof q safety').classify k e = (ofProof p safety).classify k e := by
  have hname : (ofProof q safety').bannedName e = (ofProof p safety).bannedName e := by
    unfold bannedName
    rw [hbanned, hby]
  unfold classify attempt
  rw [modusPonens_congr h, hypothesis_congr hhyps, hname, universalRule_congr h,
    existentialRule_congr h]

/-- The verdict on line `k` rests on the hypotheses, the line and the lines before it. -/
theorem line_congr (hhyps : q.sequent.hypotheses = p.sequent.hypotheses)
    (h : q.formulas.take k = p.formulas.take k) (l : ProofLine) :
    (ofProof q safety).line k l = (ofProof p safety).line k l := by
  have hclassify (e : Expr) : (ofProof q safety).classify k e = (ofProof p safety).classify k e :=
    classify_congr (congrArg (List.map Statement.formula) hhyps) (by simp only [ofProof, hhyps])
      (by simp only [ofProof, hhyps]) h e
  unfold line
  simp only [hclassify]

end

/-! ## What a verdict says -/

section
variable {c : Context} {k : Nat} {e : Expr} {problem : Problem}

/-- The rules that can end the search with an error. -/
theorem classify_eq_error (h : c.classify k e = some (.error problem)) :
    quantifierAxiom e = some (.error problem) ∨ c.bannedName e = some (.error problem) ∨
      c.universalRule k e = some (.error problem) ∨
      c.existentialRule k e = some (.error problem) ∨ induction e = some (.error problem) ∨
      problem = .unproved := by
  obtain hattempt | ⟨-, hproblem⟩ := attempt_of_classify h
  swap
  · cases hproblem
    simp
  simp only [attempt, Option.orElse_eq_some] at hattempt
  rcases hattempt with h | ⟨-, h | ⟨-, h | ⟨-, h | ⟨-, h | ⟨-, hattempt⟩⟩⟩⟩⟩
  · exact absurd h (harmless_schema e problem)
  · exact absurd h (harmless_modusPonens c k e problem)
  · exact .inl h
  · exact absurd h (harmless_justified _ problem)
  · exact absurd h (harmless_hypothesis c e problem)
  rcases hattempt with h | ⟨-, h | ⟨-, h | ⟨-, h⟩⟩⟩
  · exact .inr (.inl h)
  · exact .inr (.inr (.inl h))
  · exact .inr (.inr (.inr (.inl h)))
  · exact .inr (.inr (.inr (.inr (.inl h))))

/-- The quantifier axioms report captured terms only. -/
theorem kind_of_quantifierAxiom (h : quantifierAxiom e = some (.error problem)) :
    problem.kind = .capture := by
  unfold quantifierAxiom at h
  split at h
  · cases h
  · split at h
    · cases h
    · split at h <;> cases h <;> rfl

/-- Banned variables are reported as free variables. -/
theorem kind_of_bannedName (h : c.bannedName e = some (.error problem)) :
    problem.kind = .freeVariable := by
  unfold bannedName at h
  split at h
  · cases h
  · split at h <;> cases h
    rfl

/-- The universal rule reports free variables only. -/
theorem kind_of_universalRule (h : c.universalRule k e = some (.error problem)) :
    problem.kind = .freeVariable := by
  unfold universalRule at h
  split at h
  · split at h
    · cases h
    · split at h <;> cases h
      rfl
  · cases h

/-- The existential rule reports free variables only. -/
theorem kind_of_existentialRule (h : c.existentialRule k e = some (.error problem)) :
    problem.kind = .freeVariable := by
  unfold existentialRule at h
  split at h
  · split at h
    · cases h
    · split at h <;> cases h
      rfl
  · cases h

/-- Induction reports free variables only. -/
theorem kind_of_induction (h : induction e = some (.error problem)) :
    problem.kind = .freeVariable := by
  unfold induction at h
  split at h
  · dsimp only at h
    split at h
    · cases h
      rfl
    · split at h <;> cases h
  · cases h

/-- The kinds of error that the classification of a line can end in. -/
theorem kind_of_classify (h : c.classify k e = some (.error problem)) :
    problem.kind = .capture ∨ problem.kind = .freeVariable ∨ problem.kind = .unproved := by
  rcases classify_eq_error h with h | h | h | h | h | rfl
  · exact .inl (kind_of_quantifierAxiom h)
  · exact .inr (.inl (kind_of_bannedName h))
  · exact .inr (.inl (kind_of_universalRule h))
  · exact .inr (.inl (kind_of_existentialRule h))
  · exact .inr (.inl (kind_of_induction h))
  · exact .inr (.inr rfl)

end

end Context

/-- A verdict on the line `text` at position `k`: a justification or an error and not both, an error
of reading just where the text cannot be read, and no error but with the number of the line. -/
structure Line.Settled (k : Nat) (text : Text) (l : Line) : Prop where
  index : l.index = k
  source : l.source = text.stripSpace
  exclusive : Xor (∃ j, l.justification? = some j) (∃ err, l.error? = some err)
  malformed : (∃ err, l.error? = some err ∧ err.problem.kind = .malformed) ↔
    ∃ f, text.parseFormula = .error f
  number : ∀ err, l.error? = some err → err.line = k + 1 ∧ err.problem.kind ≠ .wrongGoal

/-- Every context settles every line. -/
theorem Context.settled_line (c : Context) (k : Nat) (text : Text) :
    (c.line k (Proof.readLine text)).Settled k text := by
  have hparsed : (Proof.readLine text).parsed = text.parseFormula := rfl
  cases htext : text.parseFormula with
  | error f =>
    have hverdict := verdict_line_of_malformed (c := c) (k := k) (hparsed.trans htext)
    obtain ⟨hjustification, herror⟩ := Line.verdict_eq_error_iff.1 hverdict
    refine ⟨rfl, rfl, .inr ⟨⟨_, herror⟩, ?_⟩, ?_, ?_⟩
    · simp [hjustification]
    · simp [herror, htext, Problem.kind]
    · simp [herror, Problem.kind]
  | ok e =>
    have hverdict := verdict_line_of_parsed (c := c) (k := k) (hparsed.trans htext)
    -- A class there is, since a line that no rule answers is still not proved.
    obtain ⟨r, hclass⟩ := c.exists_classify k e
    rw [hclass] at hverdict
    cases r with
    | error problem =>
      obtain ⟨hjustification, herror⟩ := Line.verdict_eq_error_iff.1 hverdict
      have hkind := kind_of_classify hclass
      refine ⟨rfl, rfl, .inr ⟨⟨_, herror⟩, ?_⟩, ?_, ?_⟩
      · simp [hjustification]
      · simp only [herror, htext, Option.some.injEq, exists_eq_left']
        grind
      · simp only [herror, Option.some.injEq]
        grind
    | ok j =>
      obtain ⟨hjustification, herror⟩ := Line.verdict_eq_ok_iff.1 hverdict
      refine ⟨rfl, rfl, .inl ⟨⟨j, hjustification⟩, ?_⟩, ?_, ?_⟩
      · simp [herror]
      · simp [herror, htext]
      · simp [herror]

namespace Proof

/-! ## Reading the first lines -/

section
variable {header : Text} {lines : List Text} {p : Proof}

/-- The lines of a proof that was read are its lines, each read on its own. -/
theorem lines_of_read (h : Proof.read header lines = .ok p) : p.lines = lines.map readLine := by
  obtain ⟨s, -, h⟩ := Grammar.bind_eq_ok.1 h
  cases h
  rfl

/-- Under a header that can be read, any lines are read. -/
theorem read_of_read (h : Proof.read header lines = .ok p) (lines' : List Text) :
    Proof.read header lines' = .ok { p with lines := lines'.map readLine } := by
  obtain ⟨s, hs, h⟩ := Grammar.bind_eq_ok.1 h
  cases h
  exact Grammar.bind_eq_ok.2 ⟨s, hs, rfl⟩

end

/-! ## Checking the first lines -/

section
variable {p q : Proof} (hhyps : q.sequent.hypotheses = p.sequent.hypotheses) (safety : Bool)
include hhyps

/-- The verdict on a line depends on no line after it. -/
theorem getElem?_check_congr {k : Nat} (h : q.lines.take (k + 1) = p.lines.take (k + 1)) :
    (q.check safety).lines[k]? = (p.check safety).lines[k]? := by
  have hline : q.lines[k]? = p.lines[k]? := by
    rw [← List.getElem?_take_of_lt (Nat.lt_succ_self k), h,
      List.getElem?_take_of_lt (Nat.lt_succ_self k)]
  have hbefore : q.lines.take k = p.lines.take k := by
    have htake := congrArg (List.take k) h
    rwa [List.take_take, List.take_take, min_eq_left (Nat.le_succ k)] at htake
  have hformulas : q.formulas.take k = p.formulas.take k := by
    rw [formulas, formulas, ← List.map_take, hbefore, List.map_take]
  rw [getElem?_check_lines, getElem?_check_lines, hline]
  exact congrArg (Option.map · _) (funext (Context.line_congr hhyps hformulas))

/-- The verdicts on the first lines of a proof are the first of its verdicts. -/
theorem check_lines_take {m : Nat} (h : q.lines = p.lines.take m) :
    (q.check safety).lines = (p.check safety).lines.take m := by
  refine List.ext_getElem? fun k => ?_
  rw [List.getElem?_take]
  split
  · next hk =>
    refine getElem?_check_congr hhyps safety ?_
    rw [h, List.take_take, min_eq_left hk]
  · next hk =>
    rw [getElem?_check_lines, h, List.getElem?_take, if_neg hk]
    rfl

end

/-! ## The errors of a check -/

/-- The last formula of a proof that was read is that of the last line. -/
theorem last?_of_read {header : Text} {lines : List Text} {p : Proof}
    (h : Proof.read header lines = .ok p) {e : Expr} :
    p.last? = some e ↔ ∃ text, lines.getLast? = some text ∧ text.parseFormula = .ok e := by
  rw [last?, Option.join_eq_some_iff, formulas, lines_of_read h, List.getLast?_map,
    List.getLast?_map, Option.map_map, Option.map_eq_some_iff]
  exact exists_congr fun text => and_congr_right fun _ => ProofLine.formula?_eq_some_iff

/-- A check goes from left to right. The first lines of a proof get the same verdicts without the
others, and the verdict on a line rests on the hypotheses and the lines up to it alone. Every line
is settled, and the errors are those of the lines in their order, followed by the one of the goal
where the last line is missing, cannot be read or is not the goal. -/
theorem check_left_to_right {header : Text} {lines : List Text} {p : Proof}
    (hp : Proof.read header lines = .ok p) (safety : Bool) :
    (∀ m, ∃ q, Proof.read header (lines.take m) = .ok q ∧
      (q.check safety).lines = (p.check safety).lines.take m) ∧
    (∀ header' lines' q k, Proof.read header' lines' = .ok q →
      q.sequent.hypotheses = p.sequent.hypotheses → lines'.take (k + 1) = lines.take (k + 1) →
      (q.check safety).lines[k]? = (p.check safety).lines[k]?) ∧
    (p.check safety).lines.length = lines.length ∧
    (∀ (k : Nat) (text : Text), lines[k]? = some text →
      ∃ l, (p.check safety).lines[k]? = some l ∧ l.Settled k text) ∧
    ∃ last, (p.check safety).errors = (p.check safety).lines.filterMap Line.error? ++ last ∧
      ((∃ text, lines.getLast? = some text ∧ text.parseFormula = .ok p.sequent.goal.formula) ∧
          last = [] ∨
        (¬ ∃ text, lines.getLast? = some text ∧ text.parseFormula = .ok p.sequent.goal.formula) ∧
          last = [⟨0, .wrongGoal⟩]) := by
  have hlines := lines_of_read hp
  refine ⟨fun m => ?_, ?_, ?_, fun k text hk => ?_, _, rfl, ?_⟩
  · let q : Proof := { p with lines := (lines.take m).map readLine }
    have hq : q.lines = p.lines.take m := by rw [hlines, ← List.map_take]
    exact ⟨q, read_of_read hp _, check_lines_take (q := q) (p := p) rfl safety hq⟩
  · intro header' lines' q k hq hhyps htake
    refine getElem?_check_congr hhyps safety ?_
    rw [lines_of_read hq, hlines, ← List.map_take, htake, List.map_take]
  · show (p.lines.mapIdx _).length = _
    rw [List.length_mapIdx, hlines, List.length_map]
  · refine ⟨_, ?_, Context.settled_line (Context.ofProof p safety) k text⟩
    rw [getElem?_check_lines, hlines, List.getElem?_map, hk]
    rfl
  · rw [← last?_of_read hp, ← reachesGoal_iff (wellFormed_of_read hp)]
    cases p.reachesGoal <;> simp

/-- The first line stays unproved, with or without the later ones that would prove it. -/
theorem check_left_to_right_detachment :
    ∃ p q, Proof.read "A->B,A|-B" ["B", "A->B", "A", "(B", "B"] = .ok p ∧
      Proof.read "A->B,A|-B" ["B"] = .ok q ∧
      (q.check false).lines = (p.check false).lines.take 1 ∧
      (p.check false).errors = (p.check false).lines.filterMap Line.error? ∧
      (p.check false).errors.map LineError.line = [1, 4] := by
  have hrun : (Proof.read "A->B,A|-B" ["B", "A->B", "A", "(B", "B"]).map
      (fun p => ((p.check false).errors.map LineError.line, p.sequent.goal.formula)) =
        .ok ([1, 4], .predicate "B" []) := by
    cbv
  obtain ⟨p, hp, heq⟩ := exists_of_map_eq_ok hrun
  simp only [Prod.mk.injEq] at heq
  obtain ⟨herrors, hgoal⟩ := heq
  obtain ⟨hfirst, -, -, -, last, hlast, hcases⟩ := check_left_to_right hp false
  obtain ⟨q, hq, hlines⟩ := hfirst 1
  have hread : Text.parseFormula "B" = .ok p.sequent.goal.formula := by
    rw [hgoal]
    cbv
  obtain ⟨-, rfl⟩ | ⟨hnot, -⟩ := hcases
  · rw [List.append_nil] at hlast
    exact ⟨p, q, hp, hq, hlines, hlast, herrors⟩
  · exact absurd ⟨_, rfl, hread⟩ hnot

end Proof

end Sequitur
