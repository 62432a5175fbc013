import Mathlib
import Sequitur.Proofs.Verification

/-!
# Discharging all hypotheses

A proof from closed hypotheses can be turned into one from no hypotheses, by discharging them from
the last to the first: the text of each rewritten proof is the file of the next round
(`Engine.dischargeAll`). One round (`dischargeOnce_of_closed`) needs that the discharge-safe check
finds no error. For a closed hypothesis that is the plain check (`Proof.check_of_closed`), and the
plain check is what verifies the proof that the round before has written. So the rounds follow one
another, and in each of them the last hypothesis moves to the left of the goal.
-/

namespace Sequitur

/-! ## Rounds of discharging -/

/-- What can go wrong in a round. -/
inductive RoundError where
  | source (error : SourceError)
  | deduction (error : DeductionError)
  deriving DecidableEq, Repr

namespace Engine

/-- Discharges the last hypothesis of a proof file and keeps the rewritten proof only. -/
def dischargeOnce (e : Engine) (s : Source) : Except RoundError Rewriting × Engine :=
  match e.deduce s with
  | (.error error, e) => (.error (.source error), e)
  | (.ok d, e) => (d.outcome.mapError .deduction, e)

/-- Discharges the last hypothesis of a proof file and, `n` times more, that of the file which the
text of the rewritten proof is. -/
def dischargeAll (e : Engine) (s : Source) : Nat → Except RoundError Rewriting × Engine
  | 0 => e.dischargeOnce s
  | n + 1 =>
    match e.dischargeOnce s with
    | (.error error, e) => (.error error, e)
    | (.ok w, e) =>
      match Source.parse s.file w.text with
      | .error error => (.error (.source error), e)
      | .ok s => e.dischargeAll s n

/-- Discharging leaves the configuration. -/
theorem config_deduce (e : Engine) (s : Source) : (e.deduce s).2.config = e.config := by
  unfold deduce checkSource
  cases Proof.read s.header s.lines with
  | error error => rfl
  | ok p =>
    dsimp only [addCheck]
    cases (p.check true).discharge e.config.templates with
    | error error => rfl
    | ok w =>
      dsimp only
      split_ifs with hverify
      · cases w.recheck <;> rfl
      · rfl

/-- Where a file is read, a round gives the outcome of its deduction. -/
theorem dischargeOnce_eq (e : Engine) (s : Source) {d : Deduction} (hd : (e.deduce s).1 = .ok d) :
    e.dischargeOnce s = (d.outcome.mapError .deduction, (e.deduce s).2) := by
  unfold dischargeOnce
  generalize e.deduce s = run at hd ⊢
  obtain ⟨answer, e'⟩ := run
  cases hd
  rfl

end Engine

/-! ## One round -/

/-- The rewritten proof `w` is read as `q`, from its parts and from its text, and has no errors. -/
structure Rewriting.Yields (w : Rewriting) (q : Proof) : Prop where
  stripped : w.Stripped
  read : Proof.read w.header w.lines = .ok q
  errors : (q.check false).errors = []

/-- The goal with the hypotheses to the left of it, `H₁->(H₂->…(Hₙ->F))`. -/
def Proof.implication (p : Proof) : Expr := p.hypotheses.foldr .implies p.sequent.goal.formula

namespace Engine

variable {e : Engine} {s : Source} {p : Proof} {safety : Bool} {n : Nat}

/-- A round for a closed hypothesis goes through. It moves the hypothesis to the left of the goal,
which leaves the implication as it is. -/
theorem dischargeOnce_of_closed (ht : e.config.templates.withDefaults = .builtIn)
    (hread : Proof.read s.header s.lines = .ok p) (hok : (p.check safety).errors = [])
    (hn : p.hypotheses.length = n + 1) (hclosed : ∀ h ∈ p.hypotheses, ∀ x, ¬ h.Free x) :
    ∃ w e' q, e.dischargeOnce s = (.ok w, e') ∧ e'.config = e.config ∧ w.Yields q ∧
      q.hypotheses.length = n ∧ (∀ h ∈ q.hypotheses, ∀ x, ¬ h.Free x) ∧
      q.implication = p.implication ∧ q.sequent.goal = .ofExpr q.sequent.goal.formula := by
  obtain ⟨h, hh⟩ : ∃ h, p.sequent.hypotheses.getLast? = some h := by
    cases hlast : p.sequent.hypotheses.getLast? with
    | none => simp [Proof.hypotheses, List.getLast?_eq_none_iff.1 hlast] at hn
    | some h => exact ⟨h, rfl⟩
  have hsafe : (p.check true).errors = [] := by
    cases safety with
    | true => exact hok
    | false =>
      have hmem : h.formula ∈ p.hypotheses := List.mem_map_of_mem (List.mem_of_getLast? hh)
      rw [Proof.check_of_closed hh (hclosed _ hmem), hok]
  obtain ⟨w, hdischarges⟩ := Proof.exists_dischargesLast hread hh hsafe ht
  have hw := hdischarges.output
  obtain ⟨r, hr, herrors⟩ := hdischarges.verified
  obtain ⟨q, hq, rfl⟩ := Rewriting.recheck_eq_ok_iff.1 hr
  obtain ⟨h', hh', hheader⟩ := Result.parse_header hread hw
  cases hh.symm.trans hh'
  have hsequent := Except.ok.inj ((Proof.parse_of_read hq).1.symm.trans hheader)
  have hstripped := Result.stripped_of_discharge (Proof.wellFormed_of_read hread)
    (Proof.stripped_of_read hread) hw
  have hhyps : p.hypotheses = q.hypotheses ++ [h.formula] := by
    rw [Proof.hypotheses, Proof.hypotheses, hsequent, ← List.dropLast_append_getLast? h hh,
      List.map_append, List.dropLast_concat, List.map_singleton]
  refine ⟨w, (e.deduce s).2, q, ?_, config_deduce e s, ⟨hstripped, hq, herrors⟩, ?_, ?_, ?_, ?_⟩
  · rw [dischargeOnce_eq e s (deduce_of_read hread e), Deduction.outcome_eq_ok_iff.2 ⟨hw, ?_⟩]
    · rfl
    · dsimp only
      split
      · rw [hw]
        exact Unverified.ofRecheck_eq_none_iff.2 ⟨_, hr, herrors⟩
      · rfl
  · rw [hhyps, List.length_append] at hn
    exact Nat.succ.inj hn
  · intro a ha
    exact hclosed a (by rw [hhyps]; exact List.mem_append_left _ ha)
  · rw [Proof.implication, Proof.implication, hhyps, List.foldr_append, hsequent]
    rfl
  · rw [hsequent]
    rfl

/-- The rounds follow one another: what a round writes is a file that the next one reads. -/
theorem exists_dischargeAll (ht : e.config.templates.withDefaults = .builtIn)
    (hread : Proof.read s.header s.lines = .ok p) (hok : (p.check safety).errors = [])
    (hn : p.hypotheses.length = n + 1) (hclosed : ∀ h ∈ p.hypotheses, ∀ x, ¬ h.Free x) :
    ∃ w e' q, e.dischargeAll s n = (.ok w, e') ∧ w.Yields q ∧ q.sequent.hypotheses = [] ∧
      q.sequent.goal = .ofExpr p.implication := by
  induction n generalizing e s p safety with
  | zero =>
    obtain ⟨w, e', q, hrun, -, hq, hlength, -, himp, hgoal⟩ :=
      dischargeOnce_of_closed ht hread hok hn hclosed
    have hnil : q.sequent.hypotheses = [] :=
      List.map_eq_nil_iff.1 (List.length_eq_zero_iff.1 hlength)
    have hformula : q.implication = q.sequent.goal.formula := by
      rw [Proof.implication, Proof.hypotheses, hnil]
      rfl
    exact ⟨w, e', q, hrun, hq, hnil, by rw [hgoal, ← himp, hformula]⟩
  | succ n ih =>
    obtain ⟨w, e', q, hrun, hconfig, hq, hlength, hothers, himp, -⟩ :=
      dischargeOnce_of_closed ht hread hok hn hclosed
    obtain ⟨w', e'', q', hrun', hq', hnil, hgoal⟩ :=
      ih (e := e') (s := ⟨s.file, w.header, w.lines⟩) (hconfig ▸ ht) hq.read hq.errors hlength
        hothers
    refine ⟨w', e'', q', ?_, hq', hnil, by rw [hgoal, himp]⟩
    rw [dischargeAll, hrun]
    dsimp only
    rw [Source.parse_text hq.stripped]
    exact hrun'

end Engine

/-- Without a hypothesis there is nothing to discharge, and discharge safety makes no
difference. -/
theorem Proof.check_of_hypotheses_eq_nil {p : Proof} (h : p.sequent.hypotheses = [])
    (safety : Bool) : p.check safety = p.check false := by
  cases safety <;> simp [check, Context.ofProof, h]

/-- Discharging the hypotheses one after the other never fails when they are closed, and ends in
a proof of `H₁->(H₂->…(Hₙ->F))` from nothing: no check of its text finds an error. -/
theorem Engine.discharge_all_closed {e : Engine} {s : Source} {p : Proof} {safety : Bool} {n : Nat}
    (ht : e.config.templates.withDefaults = .builtIn)
    (hread : Proof.read s.header s.lines = .ok p) (hok : (p.check safety).errors = [])
    (hn : p.hypotheses.length = n + 1) (hclosed : ∀ h ∈ p.hypotheses, ∀ x, ¬ h.Free x) :
    ∃ w e' q, e.dischargeAll s n = (.ok w, e') ∧ Proof.read w.header w.lines = .ok q ∧
      q.sequent.hypotheses = [] ∧
      q.sequent.goal = .ofExpr (p.hypotheses.foldr .implies p.sequent.goal.formula) ∧
      ∀ (checker : Engine) (file : Text), (checker.check file w.text).1 =
          .ok ⟨file, w.header, .checked (q.check checker.config.dischargeSafety)⟩ ∧
        (q.check checker.config.dischargeSafety).errors = [] := by
  obtain ⟨w, e', q, hrun, hq, hnil, hgoal⟩ := exists_dischargeAll ht hread hok hn hclosed
  refine ⟨w, e', q, hrun, hq.read, hnil, hgoal, fun checker file => ⟨?_, ?_⟩⟩
  · exact check_text hq.stripped hq.read checker file
  · rw [Proof.check_of_hypotheses_eq_nil hnil, hq.errors]

/-- Both hypotheses of a proof that instantiates one of them and generalises again. -/
theorem Engine.discharge_all_closed_generalization :
    ∃ p w e' q, Proof.read "@x(Q->P(x)),Q|-@xP(x)"
        ["@x(Q->P(x))", "@x(Q->P(x))->(Q->P(x))", "Q->P(x)", "Q->@xP(x)", "Q", "@xP(x)"] = .ok p ∧
      (p.check false).errors = [] ∧
      (Engine.mk {} none).dischargeAll ⟨"a.proof", "@x(Q->P(x)),Q|-@xP(x)",
        ["@x(Q->P(x))", "@x(Q->P(x))->(Q->P(x))", "Q->P(x)", "Q->@xP(x)", "Q", "@xP(x)"]⟩ 1 =
          (.ok w, e') ∧
      Proof.read w.header w.lines = .ok q ∧ q.sequent.hypotheses = [] ∧
      q.sequent.goal.text = "((@x(Q->P(x)))->(Q->(@xP(x))))" ∧ (q.check false).errors = [] := by
  have hrun : (Proof.read "@x(Q->P(x)),Q|-@xP(x)"
      ["@x(Q->P(x))", "@x(Q->P(x))->(Q->P(x))", "Q->P(x)", "Q->@xP(x)", "Q", "@xP(x)"]).map
      (fun p => (p.hypotheses, p.sequent.goal.formula, (p.check false).errors)) =
        .ok ([.forAll "x" (.implies (.predicate "Q" []) (.predicate "P" [.var "x"])),
            .predicate "Q" []], .forAll "x" (.predicate "P" [.var "x"]), []) := by
    cbv
  obtain ⟨p, hp, heq⟩ := Proof.exists_of_map_eq_ok hrun
  simp only [Prod.mk.injEq] at heq
  obtain ⟨hhyps, hgoal, herrors⟩ := heq
  have hnone : ∀ h ∈ p.hypotheses, h.freeVariables = [] := by
    rw [hhyps]
    decide
  have hclosed : ∀ h ∈ p.hypotheses, ∀ x, ¬ h.Free x := by
    intro h hh x hfree
    have hmem := Expr.mem_freeVariables.2 hfree
    rw [hnone h hh] at hmem
    cases hmem
  obtain ⟨w, e', q, hall, hq, hnil, hqgoal, hcheck⟩ :=
    discharge_all_closed (e := ⟨{}, none⟩) (s := ⟨"a.proof", _, _⟩) (n := 1) rfl hp herrors
      (by rw [hhyps]; rfl) hclosed
  refine ⟨p, w, e', q, hp, herrors, hall, hq, hnil, ?_, (hcheck ⟨{}, none⟩ "b.proof").2⟩
  rw [hqgoal, hhyps, hgoal]
  decide

end Sequitur
