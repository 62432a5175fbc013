import Mathlib
import Sequitur.Engine
import Sequitur.Proofs.Deduction

/-!
# Verified rewritings

The text of a rewritten proof is read back as that proof: its hypotheses, goal and lines are
stripped texts (`Result.stripped_of_discharge`), so every one of them stands on a line of its own,
loses nothing to the removal of white space, and the header and the lines come out of the file as
they went in (`Source.parse_text`). This does not depend on the templates, for the lines of a filled
template are stripped and empty lines are dropped. What was verified is then what is read, so a
rewritten proof that the engine returns with verification on has no errors when its text is
checked, and its sequent is the one that discharging the last hypothesis promises.
-/

namespace Sequitur

/-! ## Reading the lines of a file back -/

/-- Hypotheses, goal and lines have no white space, and no line is empty. -/
structure Rewriting.Stripped (w : Rewriting) : Prop where
  hypotheses : ∀ t ∈ w.hypotheses, t.Stripped
  goal : w.goal.Stripped
  lines : ∀ t ∈ w.lines, t.Stripped ∧ t ≠ []

theorem Rewriting.Stripped.header {w : Rewriting} (hw : w.Stripped) : w.header.Stripped :=
  Sequent.stripped_format_iff.2 ⟨hw.hypotheses, hw.goal⟩

namespace Source

/-- The empty line at the end of a file is dropped, and no other line. -/
theorem dropTrailingEmpty_append {ts : List Text} (h : ∀ t ∈ ts, t ≠ []) :
    dropTrailingEmpty (ts ++ [[]]) = ts := by
  have hself : ts.reverse.dropWhile List.isEmpty = ts.reverse := by
    rw [List.dropWhile_eq_self_iff]
    intro hpos hempty
    exact h _ (List.mem_reverse.1 (List.getElem_mem hpos)) (List.isEmpty_iff.1 hempty)
  rw [dropTrailingEmpty, List.reverse_append, List.reverse_singleton, List.singleton_append,
    List.dropWhile_cons_of_pos rfl, hself, List.reverse_reverse]

/-- The text of a rewritten proof is a file with its header and its lines. -/
theorem parse_text {w : Rewriting} (hw : w.Stripped) (file : Text) :
    parse file w.text = .ok ⟨file, w.header, w.lines⟩ := by
  have hstripped : ∀ t ∈ w.header :: w.lines, t.Stripped :=
    List.forall_mem_cons.2 ⟨hw.header, fun t ht => (hw.lines t ht).1⟩
  have hinfix : Text.hasInfix Sequent.turnstile w.header = true := by
    rw [Rewriting.header, Sequent.format, List.append_assoc]
    exact Text.hasInfix_append _ _ _
  have hne : ∀ t ∈ w.header :: w.lines, t ≠ [] := by
    refine List.forall_mem_cons.2 ⟨fun hnil => ?_, fun t ht => (hw.lines t ht).2⟩
    rw [hnil] at hinfix
    exact absurd hinfix (by decide)
  have hlines : (w.text.splitOn Byte.newline).map Text.stripSpace =
      (w.header :: w.lines) ++ [[]] := by
    rw [Rewriting.text, Text.splitOn_flatMap fun t ht => (hstripped t ht).newline_not_mem,
      List.map_append, List.map_singleton, Text.stripped_nil.stripSpace_eq]
    rw [List.map_congr_left fun t ht => (hstripped t ht).stripSpace_eq, List.map_id']
  rw [parse, hlines, dropTrailingEmpty_append hne]
  exact if_pos hinfix

end Source

/-! ## What discharging writes -/

/-- The lines of a filled template are stripped and not empty. -/
theorem Template.stripped_of_mem_fill {template : Text} {f : Filling} {t : Text}
    (h : t ∈ fill template f) : t.Stripped ∧ t ≠ [] := by
  obtain ⟨hmem, hne⟩ := List.mem_filter.1 h
  obtain ⟨line, -, rfl⟩ := List.mem_map.1 hmem
  exact ⟨Text.stripped_stripSpace line, by simpa using hne⟩

namespace Discharge

variable {p : Proof} {t : Templates} {h e : Expr} {j : Justification} {lines : List Text}

/-- Every fragment is a filled template. -/
theorem exists_fill_of_fragment? (hf : fragment? p t h e j = some lines) :
    ∃ template filling, lines = Template.fill template filling := by
  unfold fragment? at hf
  dsimp only at hf
  split_ifs at hf with hself hinstance
  · exact ⟨_, _, (Option.some.inj hf).symm⟩
  · exact ⟨_, _, (Option.some.inj hf).symm⟩
  · split at hf
    · obtain ⟨a, -, rfl⟩ := Option.map_eq_some_iff.1 hf
      exact ⟨_, _, rfl⟩
    · exact ⟨_, _, (Option.some.inj hf).symm⟩
    · exact ⟨_, _, (Option.some.inj hf).symm⟩
    · cases hf

/-- Every fragment is a template filled in. -/
theorem exists_fill {l : Line} (hf : fragment p t h l = .ok lines) :
    ∃ template filling, lines = Template.fill template filling := by
  unfold fragment at hf
  split at hf
  · split at hf
    · next hfragment =>
      cases hf
      exact exists_fill_of_fragment? hfragment
    · cases hf
  · cases hf

end Discharge

namespace Result

variable {r : Result} {t : Templates} {w : Rewriting}

/-- What a rewritten proof consists of. -/
theorem exists_of_discharge (hw : r.discharge t = .ok w) :
    ∃ h f fragments, r.proof.sequent.hypotheses.getLast? = some h ∧ r.errors = [] ∧
      r.proof.last? = some f ∧
      r.lines.mapM (Discharge.fragment r.proof t.withDefaults h.formula) = .ok fragments ∧
      w = { hypotheses := r.proof.sequent.hypotheses.dropLast.map Statement.text
            goal := (Expr.implies h.formula f).canonical
            lines := fragments.flatten } := by
  unfold discharge at hw
  dsimp only at hw
  split at hw
  · cases hw
  next h hh =>
  split at hw
  · cases hw
  next herrors =>
  split at hw
  · cases hw
  next f hf =>
  obtain ⟨fragments, hfragments, hw⟩ := Grammar.bind_eq_ok.1 hw
  exact ⟨h, f, fragments, hh, by simpa using herrors, hf, hfragments, (Except.ok.inj hw).symm⟩

/-- Whatever the templates are, what is written is stripped. -/
theorem stripped_of_discharge (hp : r.proof.WellFormed)
    (hs : ∀ s ∈ r.proof.sequent.hypotheses, s.text.Stripped) (hw : r.discharge t = .ok w) :
    w.Stripped := by
  obtain ⟨h, f, fragments, hh, -, hf, hfragments, rfl⟩ := exists_of_discharge hw
  refine ⟨fun text htext => ?_, ?_, fun text htext => ?_⟩
  · obtain ⟨s, hmem, rfl⟩ := List.mem_map.1 htext
    exact hs s (List.mem_of_mem_dropLast hmem)
  · have hformula : (Expr.implies h.formula f).IsFormula := by
      refine .implies (hp.hypotheses _ (List.mem_map_of_mem (List.mem_of_getLast? hh))) ?_
      exact hp.lines f (List.mem_of_getLast? (Option.join_eq_some_iff.1 hf))
    exact Text.stripped_of_visible hformula.visible
  · obtain ⟨lines, hlines, hmem⟩ := List.mem_flatten.1 htext
    obtain ⟨l, -, hl⟩ := Grammar.exists_of_mapM hfragments lines hlines
    obtain ⟨template, filling, rfl⟩ := Discharge.exists_fill hl
    exact Template.stripped_of_mem_fill hmem

end Result

/-! ## What the engine does -/

/-- A rewritten proof is verified exactly when it is read and has no errors. -/
theorem Unverified.ofRecheck_eq_none_iff {x : Except SequentError Result} :
    ofRecheck x = none ↔ ∃ r, x = .ok r ∧ r.errors = [] := by
  cases x with
  | error e => simp [ofRecheck]
  | ok r => simp [ofRecheck, Result.ok]

/-- A deduction succeeds exactly when there is a rewritten proof and nothing speaks against it. -/
theorem Deduction.outcome_eq_ok_iff {d : Deduction} {w : Rewriting} :
    d.outcome = .ok w ↔ d.output = .ok w ∧ d.recheck.bind Unverified.ofRecheck = none := by
  unfold outcome
  cases d.output with
  | error e => simp
  | ok out => cases d.recheck.bind Unverified.ofRecheck <;> simp

/-- A rewritten proof is checked again by reading its texts, with discharge safety off. -/
theorem Rewriting.recheck_eq_ok_iff {w : Rewriting} {r : Result} :
    w.recheck = .ok r ↔ ∃ q, Proof.read w.header w.lines = .ok q ∧ r = q.check false := by
  unfold recheck
  rw [Grammar.bind_eq_ok]
  constructor
  · rintro ⟨q, hq, hr⟩
    exact ⟨q, hq, (Except.ok.inj hr).symm⟩
  · rintro ⟨q, hq, rfl⟩
    exact ⟨q, hq, rfl⟩

/-- The sequent of a proof that was read is that of its header. -/
theorem Proof.parse_of_read {header : Text} {lines : List Text} {p : Proof}
    (hread : Proof.read header lines = .ok p) :
    Sequent.parse header = .ok p.sequent ∧ p.header = header.stripSpace := by
  obtain ⟨s, hs, h⟩ := Grammar.bind_eq_ok.1 hread
  cases h
  exact ⟨hs, rfl⟩

namespace Engine

variable {s : Source} {p : Proof}

/-- Discharging the last hypothesis of a proof file whose sequent can be read. -/
theorem deduce_of_read (hp : Proof.read s.header s.lines = .ok p) (e : Engine) :
    (e.deduce s).1 = .ok
      { file := s.file
        source := p.check true
        output := (p.check true).discharge e.config.templates
        recheck := if e.config.verify then
            ((p.check true).discharge e.config.templates).toOption.map Rewriting.recheck
          else none } := by
  unfold deduce checkSource
  rw [hp]
  dsimp only [addCheck]
  cases (p.check true).discharge e.config.templates with
  | error error => simp [Except.toOption]
  | ok out => cases hverify : e.config.verify <;> simp [addDischarge, hverify, Except.toOption]

/-- Where a deduction is made, the source was read. -/
theorem read_of_deduce {e : Engine} {d : Deduction} (hd : (e.deduce s).1 = .ok d) :
    ∃ p, Proof.read s.header s.lines = .ok p := by
  cases hp : Proof.read s.header s.lines with
  | error error =>
    unfold deduce checkSource at hd
    rw [hp] at hd
    cases hd
  | ok p => exact ⟨p, rfl⟩

/-- The text of a rewritten proof is checked as the proof that is read from its parts. -/
theorem check_text {w : Rewriting} (hw : w.Stripped) {q : Proof}
    (hq : Proof.read w.header w.lines = .ok q) (e : Engine) (file : Text) :
    (e.check file w.text).1 =
      .ok ⟨file, w.header, .checked (q.check e.config.dischargeSafety)⟩ := by
  have hheader : q.header = w.header :=
    (Proof.parse_of_read hq).2.trans hw.header.stripSpace_eq
  unfold check checkSource
  rw [Source.parse_text hw]
  dsimp only
  rw [hq, ← hheader]
  rfl

end Engine

namespace Statement

/-- A formula in its canonical text. -/
def ofExpr (e : Expr) : Statement := ⟨e.canonical, e⟩

variable {e : Expr} (he : e.IsFormula)
include he

theorem isRead_ofExpr : (ofExpr e).IsRead := he.parse_canonical

theorem stripped_ofExpr : (ofExpr e).text.Stripped := Text.stripped_of_visible he.visible

end Statement

theorem Statement.stripped_eq {s : Statement} (h : s.text.Stripped) : s.stripped = s := by
  rw [stripped, h.stripSpace_eq]

/-- A sequent put together from canonical texts is read as the formulas. -/
theorem Sequent.parse_format_canonical {es : List Expr} {g : Expr} (hes : ∀ e ∈ es, e.IsFormula)
    (hg : g.IsFormula) :
    parse (format (es.map Expr.canonical) g.canonical) = .ok ⟨es.map .ofExpr, .ofExpr g⟩ := by
  have hread : ∀ s ∈ es.map Statement.ofExpr, s.IsRead ∧ s.stripped = s := by
    intro s hs
    obtain ⟨e, he, rfl⟩ := List.mem_map.1 hs
    exact ⟨Statement.isRead_ofExpr (hes e he),
      Statement.stripped_eq (Statement.stripped_ofExpr (hes e he))⟩
  have hparse := parse_format (fun s hs => (hread s hs).1) (Statement.isRead_ofExpr hg)
  rw [List.map_congr_left fun s hs => (hread s hs).2, List.map_id', List.map_map,
    Statement.stripped_eq (Statement.stripped_ofExpr hg)] at hparse
  exact hparse

section
variable {header : Text} {lines : List Text} {p : Proof} {safety : Bool} {t : Templates}
  {w : Rewriting}

/-- The hypotheses of a proof that was read have stripped texts. -/
theorem Proof.stripped_of_read (hread : Proof.read header lines = .ok p) :
    ∀ s ∈ p.sequent.hypotheses, s.text.Stripped :=
  (Sequent.stripped_of_parse (parse_of_read hread).1).1

/-- The header of a rewritten proof claims, from the other hypotheses, that the last one implies
the goal. -/
theorem Result.parse_header (hread : Proof.read header lines = .ok p)
    (hw : (p.check safety).discharge t = .ok w) :
    ∃ h, p.sequent.hypotheses.getLast? = some h ∧ Sequent.parse w.header = .ok
      ⟨p.sequent.hypotheses.dropLast, .ofExpr (.implies h.formula p.sequent.goal.formula)⟩ := by
  obtain ⟨h, f, fragments, hh, hok, hf, -, rfl⟩ := exists_of_discharge hw
  have hp := Proof.wellFormed_of_read hread
  have hisRead := (Proof.isRead_of_read hread).1
  have hstripped := Proof.stripped_of_read hread
  cases hf.symm.trans (Proof.last?_of_check hp hok)
  have hformula : (Expr.implies h.formula p.sequent.goal.formula).IsFormula :=
    .implies (hisRead h (List.mem_of_getLast? hh)).isFormula hp.goal
  have hparse := Sequent.parse_format
    (fun s hs => hisRead s (List.mem_of_mem_dropLast hs)) (Statement.isRead_ofExpr hformula)
  rw [Statement.stripped_eq (Statement.stripped_ofExpr hformula), List.map_congr_left fun s hs =>
    Statement.stripped_eq (hstripped s (List.mem_of_mem_dropLast hs)), List.map_id'] at hparse
  exact ⟨h, hh, hparse⟩

end

/-- A rewritten proof can be trusted when it was verified, whatever the templates are. Its text is
a proof file in which the plain check finds no error, and which is read as the very proof that was
verified: the hypotheses are those of the source but for the last one, `h`, and the goal is that
`h` implies the goal of the source. -/
theorem Engine.verified_output_checks {e : Engine} {s : Source} {d : Deduction} {w : Rewriting}
    (hverify : e.config.verify = true) (hd : (e.deduce s).1 = .ok d) (hw : d.outcome = .ok w) :
    ∃ p h r, Proof.read s.header s.lines = .ok p ∧ p.sequent.hypotheses.getLast? = some h ∧
      d.recheck = some (.ok r) ∧ r.errors = [] ∧
      r.proof.sequent =
        ⟨p.sequent.hypotheses.dropLast, .ofExpr (.implies h.formula p.sequent.goal.formula)⟩ ∧
      ∀ (e' : Engine) (file : Text), ((e'.setDischargeSafety false).check file w.text).1 =
        .ok ⟨file, w.header, .checked r⟩ := by
  obtain ⟨p, hread⟩ := read_of_deduce hd
  rw [deduce_of_read hread, hverify, if_pos rfl] at hd
  cases hd
  obtain ⟨hout, hrecheck⟩ := Deduction.outcome_eq_ok_iff.1 hw
  dsimp only at hout hrecheck
  rw [hout] at hrecheck
  obtain ⟨r, hr, herrors⟩ := Unverified.ofRecheck_eq_none_iff.1 hrecheck
  obtain ⟨q, hq, rfl⟩ := Rewriting.recheck_eq_ok_iff.1 hr
  have hstripped := Result.stripped_of_discharge (Proof.wellFormed_of_read hread)
    (Proof.stripped_of_read hread) hout
  obtain ⟨h, hh, hheader⟩ := Result.parse_header hread hout
  have hsequent := Except.ok.inj ((Proof.parse_of_read hq).1.symm.trans hheader)
  refine ⟨p, h, q.check false, hread, hh, ?_, herrors, hsequent, fun e' file => ?_⟩
  · rw [hout]
    exact congrArg some hr
  · exact check_text hstripped hq _ file

/-- A template that is wrong in general, and right here because `A->A` is a hypothesis. -/
theorem Engine.verified_output_checks_override :
    ∃ d r, ((Engine.mk
        { templates := { itself := " " ++ (Pattern.H.implies .H).text ++ "\n\n" } } none).deduce
        ⟨"a.proof", "A->A,A|-A", ["A"]⟩).1 = .ok d ∧
      d.outcome = .ok ⟨["A->A"], "(A->A)", ["(A->A)"]⟩ ∧ d.recheck = some (.ok r) ∧ r.errors = [] ∧
      ∀ (e' : Engine) (file : Text),
        ((e'.setDischargeSafety false).check file "A->A|-(A->A)\n(A->A)\n").1 =
          .ok ⟨file, "A->A|-(A->A)", .checked r⟩ := by
  have hrun : ((Engine.mk
      { templates := { itself := " " ++ (Pattern.H.implies .H).text ++ "\n\n" } } none).deduce
      ⟨"a.proof", "A->A,A|-A", ["A"]⟩).1.map Deduction.outcome =
        .ok (.ok ⟨["A->A"], "(A->A)", ["(A->A)"]⟩) := by
    cbv
  obtain ⟨d, hd, hw⟩ := Proof.exists_of_map_eq_ok hrun
  obtain ⟨p, h, r, -, -, hrecheck, herrors, -, hcheck⟩ := verified_output_checks rfl hd hw
  exact ⟨d, r, hd, hw, hrecheck, herrors, hcheck⟩

end Sequitur
