import Mathlib
import Sequitur.Proofs.RenamedTexts
import Sequitur.Proofs.Safety

/-!
# Names do not matter

The verdicts on a renamed proof are those on the proof, but for the names in its errors. Rules that
justify lines and never reject them say the same of a renamed line, and rules that can reject it
agree up to the wording (`Attempt.outline`). For the axioms this is so because their instances are
renamed to instances. For the rules that look lines up it is so because two formulas are the same
just where the renamed ones are, and then the look-ups find the same lines. The rules are tried in
the same order, which gives the verdict on a line (`Context.classify_rename`) and then on all lines.
-/

namespace Sequitur

/-- What a rule says of a line, with nothing of an error but its kind. -/
def Attempt.outline (a : Attempt) : Option (Except ErrorKind Justification) :=
  a.map (Except.mapError Problem.kind)

/-- The outline of one rule after another is that of the two outlines. -/
theorem Attempt.outline_orElse (a b : Attempt) :
    Attempt.outline (a <|> b) = (a.outline <|> b.outline) := by
  cases a <;> rfl

/-- Dropping the errors of attempts of one outline leaves attempts of one outline. -/
theorem Attempt.outline_justified {a b : Attempt} (h : a.outline = b.outline) :
    Attempt.outline (Context.justified a) = Attempt.outline (Context.justified b) := by
  rcases a with _ | _ | j <;> rcases b with _ | _ | j' <;>
    simp_all [Attempt.outline, Context.justified, Except.mapError]

/-! ## Axioms -/

section
variable (ρ : Renaming) {e : Expr} (he : e.IsFormula)
include he

/-- A renamed formula is an instance of the same schema first. -/
theorem Schema.find?_rename : Schema.find? (e.rename ρ.map) = Schema.find? e := by
  refine Option.ext fun s => ?_
  rw [find?_eq_some_iff (he.rename ρ), find?_eq_some_iff he]
  refine exists_congr fun before => exists_congr fun after => and_congr_right fun hall => ?_
  refine and_congr (instance_rename_iff ρ (by simp [hall]) he) (forall₂_congr fun r hr => ?_)
  exact not_congr (instance_rename_iff ρ (by simp [hall, hr]) he)

/-- The schemas say the same of a renamed formula. -/
theorem Context.schema_rename : Context.schema (e.rename ρ.map) = Context.schema e := by
  unfold Context.schema
  rw [Schema.find?_rename ρ he]

end

namespace Substitution

open Sequitur.Expr

/-- The two answers are of one sort: acceptance, a captured term or refusal. -/
def Alike (r r' : Except CaptureError Bool) : Prop :=
  (r = .ok true ↔ r' = .ok true) ∧ ((∃ c, r = .error c) ↔ ∃ c, r' = .error c)

/-- The check reports an error exactly for instances by a term that is captured. -/
theorem exists_check_eq_error_iff_isInstanceBy {a b : Expr} {x : Text} (ha : a.IsFormula)
    (hb : b.IsFormula) :
    (∃ c, check a b x = .error c) ↔ ∃ t, IsInstanceBy a b x t ∧ t.CapturedIn x a := by
  constructor
  · rintro ⟨c, hc⟩
    obtain ⟨t, ht, hcap, -⟩ := (check_eq_error_iff_isInstanceBy ha hb).1 hc
    exact ⟨t, ht, hcap⟩
  · rintro ⟨t, ht, hcap⟩
    exact ⟨_, (check_eq_error_iff_isInstanceBy ha hb).2 ⟨t, ht, hcap, rfl⟩⟩

/-- The check of an instance gives an answer of the same sort after renaming. -/
theorem check_rename (ρ : Renaming) {a b : Expr} {x : Text} (ha : a.IsFormula) (hb : b.IsFormula)
    (hx : Text.isLowerIdent x = true) :
    Alike (check (a.rename ρ.map) (b.rename ρ.map) (ρ.map x)) (check a b x) := by
  have hfree := WellFormed.free_rename_iff ρ hx (.inl ha)
  have hinst (P : Expr → Prop) : (∃ t, IsInstanceBy (a.rename ρ.map) (b.rename ρ.map) (ρ.map x) t ∧
      P t) ↔ ∃ s, IsInstanceBy a b x s ∧ P (s.rename ρ.map) := by
    simp only [isInstanceBy_rename_iff ρ ha hb hx]
    constructor
    · rintro ⟨_, ⟨s, hs, rfl⟩, h⟩
      exact ⟨s, hs, h⟩
    · rintro ⟨s, hs, h⟩
      exact ⟨_, ⟨s, hs, rfl⟩, h⟩
  have hcap {s : Expr} (hs : IsInstanceBy a b x s) :
      (s.rename ρ.map).CapturedIn (ρ.map x) (a.rename ρ.map) ↔ s.CapturedIn x a :=
    WellFormed.capturedIn_rename_iff ρ hx (.inr hs.2.1) (.inl ha)
  constructor
  · rw [check_eq_ok_true_iff_isInstanceBy (ha.rename ρ) (hb.rename ρ),
      check_eq_ok_true_iff_isInstanceBy ha hb, hfree, WellFormed.rename_inj ρ (.inl hb) (.inl ha),
      hinst]
    exact or_congr_right (exists_congr fun s => and_congr_right fun hs => not_congr (hcap hs))
  · rw [exists_check_eq_error_iff_isInstanceBy (ha.rename ρ) (hb.rename ρ),
      exists_check_eq_error_iff_isInstanceBy ha hb, hinst]
    exact exists_congr fun s => and_congr_right hcap

end Substitution

namespace Expr

/-- In a formula of the form of induction the parts are of their sorts. -/
theorem IsFormula.of_induction {base hyp step c : Expr} {x : Text}
    (h : (Expr.implies (.and base (.forAll x (.implies hyp step))) c).IsFormula) :
    Text.isLowerIdent x = true ∧ base.IsFormula ∧ hyp.IsFormula ∧ step.IsFormula ∧
      c.IsFormula := by
  obtain ⟨hleft, hc⟩ := h.of_implies
  cases hleft with
  | and hbase hall =>
  cases hall with
  | forAll hx himp =>
  obtain ⟨hhyp, hstep⟩ := himp.of_implies
  exact ⟨hx, hbase, hhyp, hstep, hc⟩

/-- A tree that gets the form of induction by renaming has it. -/
theorem rename_eq_induction {f : Text → Text} {e d g h a : Expr} {x : Text}
    (heq : e.rename f = .implies (.and d (.forAll x (.implies g h))) a) :
    ∃ y base hyp step c, e = .implies (.and base (.forAll y (.implies hyp step))) c ∧ f y = x ∧
      base.rename f = d ∧ hyp.rename f = g ∧ step.rename f = h ∧ c.rename f = a := by
  obtain ⟨l, c, rfl, hl, hc⟩ := rename_eq_binary heq
  obtain ⟨base, r, rfl, hbase, hr⟩ := rename_eq_binary hl
  obtain ⟨y, s, rfl, hy, hs⟩ := rename_eq_quantified hr
  obtain ⟨hyp, step, rfl, hhyp, hstep⟩ := rename_eq_binary hs
  exact ⟨y, base, hyp, step, c, rfl, hy, hbase, hhyp, hstep, hc⟩

end Expr

namespace Context

open Sequitur.Expr

section
variable (ρ : Renaming) {e : Expr} (he : e.IsFormula)
include he

/-- The recogniser of the universal axiom gives an answer of the same sort after renaming. -/
theorem universalInstance_rename :
    Substitution.Alike (universalInstance (e.rename ρ.map)) (universalInstance e) := by
  unfold universalInstance
  split
  · next x a inst heq =>
    obtain ⟨l, b, rfl, hl, rfl⟩ := rename_eq_binary heq
    obtain ⟨y, c, rfl, rfl, rfl⟩ := rename_eq_quantified hl
    obtain ⟨hall, hb⟩ := he.of_implies
    cases hall with
    | forAll hy hc => exact Substitution.check_rename ρ hc hb hy
  · next hshape =>
    split
    · next x a inst => exact absurd rfl (hshape _ _ _)
    · exact ⟨Iff.rfl, Iff.rfl⟩

/-- The recogniser of the existential axiom gives an answer of the same sort after renaming. -/
theorem existentialInstance_rename :
    Substitution.Alike (existentialInstance (e.rename ρ.map)) (existentialInstance e) := by
  unfold existentialInstance
  split
  · next inst x a heq =>
    obtain ⟨b, r, rfl, rfl, hr⟩ := rename_eq_binary heq
    obtain ⟨y, c, rfl, rfl, rfl⟩ := rename_eq_quantified hr
    obtain ⟨hb, hex⟩ := he.of_implies
    cases hex with
    | exist hy hc => exact Substitution.check_rename ρ hc hb hy
  · next hshape =>
    split
    · next inst x a => exact absurd rfl (hshape _ _ _)
    · exact ⟨Iff.rfl, Iff.rfl⟩

/-- The quantifier axioms say the same of a renamed formula, up to the wording. -/
theorem quantifierAxiom_rename :
    Attempt.outline (quantifierAxiom (e.rename ρ.map)) = Attempt.outline (quantifierAxiom e) := by
  have he' := he.rename ρ
  obtain ⟨hu, huc⟩ := universalInstance_rename ρ he
  obtain ⟨hx, hxc⟩ := existentialInstance_rename ρ he
  have hu : (e.rename ρ.map).IsUniversalInstance ↔ e.IsUniversalInstance :=
    (decides_universalInstance he').valid.symm.trans (hu.trans (decides_universalInstance he).valid)
  have hx : (e.rename ρ.map).IsExistentialInstance ↔ e.IsExistentialInstance :=
    (decides_existentialInstance he').valid.symm.trans
      (hx.trans (decides_existentialInstance he).valid)
  have hc : (e.rename ρ.map).IsCapturing ↔ e.IsCapturing := by
    rw [isCapturing_iff he', isCapturing_iff he, huc, hxc]
  by_cases huniversal : e.IsUniversalInstance
  · rw [quantifierAxiom_of_universal he huniversal,
      quantifierAxiom_of_universal he' (hu.2 huniversal)]
  by_cases hexistential : e.IsExistentialInstance
  · rw [quantifierAxiom_of_existential he huniversal hexistential,
      quantifierAxiom_of_existential he' (mt hu.1 huniversal) (hx.2 hexistential)]
  have hq : ¬ e.IsQuantifierInstance := not_or.2 ⟨huniversal, hexistential⟩
  have hq' : ¬ (e.rename ρ.map).IsQuantifierInstance :=
    not_or.2 ⟨mt hu.1 huniversal, mt hx.1 hexistential⟩
  by_cases hcapturing : e.IsCapturing
  · obtain ⟨c, h⟩ := quantifierAxiom_of_capturing he hq hcapturing
    obtain ⟨c', h'⟩ := quantifierAxiom_of_capturing he' hq' (hc.2 hcapturing)
    rw [h, h']
    rfl
  · rw [quantifierAxiom_eq_none he hq hcapturing,
      quantifierAxiom_eq_none he' hq' (mt hc.1 hcapturing)]

/-- A renamed formula is an instance of induction when the formula is. -/
theorem isInduction_rename_iff : (e.rename ρ.map).IsInduction ↔ e.IsInduction := by
  constructor
  · rintro ⟨x, a, hfree, hvar, heq⟩
    obtain ⟨y, base, hyp, step, c, rfl, rfl, hbase, hhyp, hstep, rfl⟩ := rename_eq_induction heq
    obtain ⟨hy, hbaseF, hhypF, hstepF, hc⟩ := he.of_induction
    have hwf : c.WellFormed := .inl hc
    have hinj {d g : Expr} (hd : d.IsFormula) (hg : g.IsFormula) :=
      (WellFormed.rename_inj ρ (.inl hd) (.inl hg)).1
    have hsubst (t : Expr) := hwf.rename_subst (hwf.separates ρ hy) t
    -- the three parts are compared with the conclusion as renamed trees, and so are equal to it
    obtain rfl := hinj hhypF hc hhyp
    obtain rfl := hinj hbaseF (hc.subst .zero) (hbase.trans (hsubst .zero).symm)
    obtain rfl := hinj hstepF (hc.subst (.successor (.var hy)))
      (hstep.trans (hsubst (.successor (.var y))).symm)
    exact ⟨y, hyp, (hwf.free_rename_iff ρ hy).1 hfree, (hwf.varOnly_rename_iff ρ hy).1 hvar, rfl⟩
  · rintro ⟨x, a, hfree, hvar, rfl⟩
    obtain ⟨hx, -, -, -, ha⟩ := he.of_induction
    have hwf : a.WellFormed := .inl ha
    have hsubst (t : Expr) := hwf.rename_subst (hwf.separates ρ hx) t
    refine ⟨ρ.map x, a.rename ρ.map, (hwf.free_rename_iff ρ hx).2 hfree,
      (hwf.varOnly_rename_iff ρ hx).2 hvar, ?_⟩
    show Expr.implies (.and ((a.subst x .zero).rename ρ.map) (.forAll (ρ.map x)
      (.implies _ ((a.subst x (.successor (.var x))).rename ρ.map)))) _ = _
    rw [hsubst, hsubst]
    rfl

/-- A renamed formula has the form of induction over a variable that is not free when the formula
has. -/
theorem isVacuousInduction_rename_iff : (∃ x c, (e.rename ρ.map).IsVacuousInductionOn x c) ↔
    ∃ x c, e.IsVacuousInductionOn x c := by
  constructor
  · rintro ⟨x, a, hfree, d, g, h, heq⟩
    obtain ⟨y, base, hyp, step, c, rfl, rfl, -, -, -, rfl⟩ := rename_eq_induction heq
    obtain ⟨hy, -, -, -, hc⟩ := he.of_induction
    exact ⟨y, c, mt (WellFormed.free_rename_iff ρ hy (.inl hc)).2 hfree, base, hyp, step, rfl⟩
  · rintro ⟨x, c, hfree, d, g, h, rfl⟩
    obtain ⟨hx, -, -, -, hc⟩ := he.of_induction
    exact ⟨ρ.map x, c.rename ρ.map, mt (WellFormed.free_rename_iff ρ hx (.inl hc)).1 hfree,
      _, _, _, rfl⟩

/-- Induction says the same of a renamed formula, up to the wording. -/
theorem induction_rename :
    Attempt.outline (induction (e.rename ρ.map)) = Attempt.outline (induction e) := by
  have hok (j : Justification) :
      induction (e.rename ρ.map) = some (.ok j) ↔ induction e = some (.ok j) := by
    rw [induction_eq_ok_iff (he.rename ρ), induction_eq_ok_iff he, isInduction_rename_iff ρ he]
  have herror : (∃ problem, induction (e.rename ρ.map) = some (.error problem)) ↔
      ∃ problem, induction e = some (.error problem) := by
    have h (a : Expr) : (∃ problem, induction a = some (.error problem)) ↔
        ∃ x c, a.IsVacuousInductionOn x c := by
      simp only [induction_eq_error_iff]
      constructor
      · rintro ⟨_, x, c, hvacuous, -⟩
        exact ⟨x, c, hvacuous⟩
      · rintro ⟨x, c, hvacuous⟩
        exact ⟨_, x, c, hvacuous, rfl⟩
    rw [h, h, isVacuousInduction_rename_iff ρ he]
  match hind : induction e with
  | some (.ok j) => rw [(hok j).2 hind]
  | some (.error problem) =>
    obtain ⟨problem', hind'⟩ := herror.2 ⟨problem, hind⟩
    rw [hind']
    show some (Except.error problem'.kind) = some (Except.error problem.kind)
    rw [kind_of_induction hind, kind_of_induction hind']
  | none =>
    match hind' : induction (e.rename ρ.map) with
    | none => rfl
    | some (.ok j) => cases hind.symm.trans ((hok j).1 hind')
    | some (.error problem) =>
      obtain ⟨_, h⟩ := herror.1 ⟨problem, hind'⟩
      cases hind.symm.trans h

/-- A renamed formula quantifies over a renamed variable when the formula quantifies over the
variable. -/
theorem quantifiesOver_rename_iff {x : Text} (hx : Text.isLowerIdent x = true) :
    (e.rename ρ.map).QuantifiesOver (ρ.map x) ↔ e.QuantifiesOver x := by
  refine or_congr (WellFormed.bound_rename_iff ρ hx (.inl he)) ⟨?_, ?_⟩
  · rintro ⟨l', r', heq, h⟩
    obtain ⟨l, r, rfl, rfl, rfl⟩ := rename_eq_binary heq
    obtain ⟨hl, hr⟩ := he.of_implies
    rw [WellFormed.binds_rename_iff ρ hx (.inl hl), WellFormed.binds_rename_iff ρ hx (.inl hr)] at h
    exact ⟨l, r, rfl, h⟩
  · rintro ⟨l, r, rfl, h⟩
    obtain ⟨hl, hr⟩ := he.of_implies
    refine ⟨l.rename ρ.map, r.rename ρ.map, rfl, ?_⟩
    rwa [WellFormed.binds_rename_iff ρ hx (.inl hl), WellFormed.binds_rename_iff ρ hx (.inl hr)]

end

end Context

/-! ## Look-ups -/

/-- A search for a place comes to the same when it says the same of every element. -/
theorem findIdx?_congr {α : Type} {l : List α} {f g : α → Bool} (h : ∀ a ∈ l, f a = g a) :
    l.findIdx? f = l.findIdx? g := by
  induction l with
  | nil => rfl
  | cons a l ih =>
    rw [List.findIdx?_cons, List.findIdx?_cons, h a (by simp), ih fun b hb => h b (by simp [hb])]

/-- Renamed formulas have the same text when the formulas have. -/
theorem Expr.canonical_rename_beq (ρ : Renaming) {a b : Expr} (ha : a.IsFormula)
    (hb : b.IsFormula) :
    ((a.rename ρ.map).canonical == (b.rename ρ.map).canonical) = (a.canonical == b.canonical) := by
  rw [Bool.eq_iff_iff, beq_iff_eq, beq_iff_eq, canonical_inj (.inl ha) (.inl hb),
    canonical_inj (.inl (ha.rename ρ)) (.inl (hb.rename ρ)),
    WellFormed.rename_inj ρ (.inl ha) (.inl hb)]

namespace Index

open Sequitur.Expr

section
variable (ρ : Renaming) {e : Expr} (he : e.IsFormula) {line : Option Expr}
  (hline : ∀ a, line = some a → a.IsFormula)
include he hline

/-- A renamed line has the text of a renamed formula when the line has that of the formula. -/
theorem hasText_rename : hasText (e.rename ρ.map).canonical (line.map (Expr.rename ρ.map)) =
    hasText e.canonical line := by
  cases line with
  | none => rfl
  | some a => exact canonical_rename_beq ρ (hline a rfl) he

/-- A renamed line leads to a renamed formula when the line leads to the formula. -/
theorem leadsTo_rename : leadsTo (e.rename ρ.map).canonical (line.map (Expr.rename ρ.map)) =
    leadsTo e.canonical line := by
  cases line with
  | none => rfl
  | some a =>
    cases a with
    | binary k l r =>
      cases k with
      | implication => exact canonical_rename_beq ρ (hline _ rfl).of_implies.2 he
      | _ => rfl
    | _ => rfl

end

/-- The positions of the implications stay when lines are changed and lead to the same. -/
theorem positions_map {key key' : Text} {f : Option Expr → Option Expr} {lines : List (Option Expr)}
    (h : ∀ line ∈ lines, leadsTo key' (f line) = leadsTo key line) (k : Nat) :
    positions key' k (lines.map f) = positions key k lines := by
  induction lines generalizing k with
  | nil => rfl
  | cons line lines ih =>
    show (if leadsTo key' (f line) then _ else _) = if leadsTo key line then _ else _
    rw [h line (by simp), ih fun l hl => h l (by simp [hl])]

end Index

namespace Context

open Sequitur.Expr

section
variable {ρ : Renaming} {p q : Proof} (hp : p.WellFormed) (hq : p.IsRenamed ρ.map q) {safety : Bool}
  {k : Nat} {e : Expr}

/-- A quantifier rule over `x`: the premise is an earlier line, and `x` must not be free in the
`side` that the quantifier leaves out. -/
def ruleOver (c : Context) (k : Nat) (rule : Rule) (x : Text) (side premise : Expr) : Attempt :=
  (c.earlier? premise k).bind fun i =>
    if side.isFree x then Attempt.reject (.occursFree x side.canonical)
    else Attempt.justify { rule := rule, premise := i }

/-- The universal rule is the rule over its variable, with the left side left out. -/
theorem universalRule_forAll (c : Context) (x : Text) (a b : Expr) :
    c.universalRule k (.implies a (.forAll x b)) = c.ruleOver k .universal x a (.implies a b) := by
  rw [universalRule, ruleOver]
  cases c.earlier? (.implies a b) k <;> rfl

/-- The existential rule is the rule over its variable, with the right side left out. -/
theorem existentialRule_exist (c : Context) (x : Text) (a b : Expr) :
    c.existentialRule k (.implies (.exist x a) b) =
      c.ruleOver k .existential x b (.implies a b) := by
  rw [existentialRule, ruleOver]
  cases c.earlier? (.implies a b) k <;> rfl

include hq

/-- The left side of a renamed line is the renamed left side. -/
theorem antecedent?_rename (j : Nat) : (ofProof q safety).antecedent? j =
    ((ofProof p safety).antecedent? j).map (Expr.rename ρ.map) := by
  refine Option.ext fun a => ?_
  rw [Option.map_eq_some_iff, antecedent?_eq_some]
  simp only [antecedent?_eq_some]
  show (∃ b, q.formulas[j]? = _) ↔ ∃ c, (∃ b, p.formulas[j]? = _) ∧ _
  rw [hq.formulas, List.getElem?_map]
  constructor
  · rintro ⟨b, hb⟩
    obtain ⟨line, hline, heq⟩ := Option.map_eq_some_iff.1 hb
    obtain ⟨e, rfl, he⟩ := Option.map_eq_some_iff.1 heq
    obtain ⟨l, r, rfl, hl, -⟩ := rename_eq_binary he
    exact ⟨l, ⟨r, hline⟩, hl⟩
  · rintro ⟨l, ⟨r, hline⟩, rfl⟩
    rw [hline]
    exact ⟨r.rename ρ.map, rfl⟩

include hp

/-- A renamed formula is found in the same line of the renamed proof. -/
theorem earlier?_rename (he : e.IsFormula) (k : Nat) :
    (ofProof q safety).earlier? (e.rename ρ.map) k = (ofProof p safety).earlier? e k := by
  rw [earlier?_eq_findIdx?, earlier?_eq_findIdx?, hq.formulas, ← List.map_take, List.findIdx?_map]
  refine findIdx?_congr fun line hline => Index.hasText_rename ρ he ?_
  rintro a rfl
  exact hp.lines a (List.mem_of_mem_take hline)

/-- Modus ponens justifies a renamed line by the same two lines. -/
theorem modusPonens_rename (he : e.IsFormula) :
    (ofProof q safety).modusPonens k (e.rename ρ.map) = (ofProof p safety).modusPonens k e := by
  have hpositions : Index.positions (e.rename ρ.map).canonical 0 (q.formulas.take k) =
      Index.positions e.canonical 0 (p.formulas.take k) := by
    rw [hq.formulas, ← List.map_take]
    refine Index.positions_map (fun line hline => Index.leadsTo_rename ρ he ?_) 0
    rintro a rfl
    exact hp.lines a (List.mem_of_mem_take hline)
  unfold modusPonens
  rw [takeWhile_implications, takeWhile_implications, hpositions]
  refine findSome?_congr fun j _ => ?_
  rw [antecedent?_rename hq]
  cases hj : (ofProof p safety).antecedent? j with
  | none => rfl
  | some a =>
    obtain ⟨b, hb⟩ := antecedent?_eq_some.1 hj
    have ha : a.IsFormula := (hp.isFormula hb).of_implies.1
    show ((ofProof q safety).earlier? (a.rename ρ.map) k).bind _ = _
    rw [earlier?_rename hp hq ha]
    rfl

/-- A renamed line is the same hypothesis. -/
theorem hypothesis_rename (he : e.IsFormula) :
    (ofProof q safety).hypothesis (e.rename ρ.map) = (ofProof p safety).hypothesis e := by
  have hfind : (ofProof q safety).index.hypothesis? (e.rename ρ.map).canonical =
      (ofProof p safety).index.hypothesis? e.canonical := by
    show (Index.ofProof q).hypothesis? _ = (Index.ofProof p).hypothesis? _
    rw [Index.hypothesis?_ofProof, Index.hypothesis?_ofProof, hq.hypotheses, List.findIdx?_map]
    exact findIdx?_congr fun h hh => canonical_rename_beq ρ (hp.hypotheses h hh) he
  unfold hypothesis
  rw [hfind]

/-- A rule over a variable says the same of renamed formulas, up to the wording. -/
theorem ruleOver_rename {rule : Rule} {x : Text} {side a b : Expr}
    (hx : Text.isLowerIdent x = true) (hside : side.IsFormula) (ha : a.IsFormula)
    (hb : b.IsFormula) :
    Attempt.outline ((ofProof q safety).ruleOver k rule (ρ.map x) (side.rename ρ.map)
      (.implies (a.rename ρ.map) (b.rename ρ.map))) =
    Attempt.outline ((ofProof p safety).ruleOver k rule x side (.implies a b)) := by
  have hfree : (side.rename ρ.map).isFree (ρ.map x) = side.isFree x := by
    rw [Bool.eq_iff_iff, isFree_iff, isFree_iff, WellFormed.free_rename_iff ρ hx (.inl hside)]
  have hearlier : (ofProof q safety).earlier? ((implies a b).rename ρ.map) k =
      (ofProof p safety).earlier? (.implies a b) k := earlier?_rename hp hq (.implies ha hb) k
  rw [Expr.rename] at hearlier
  unfold ruleOver
  rw [hearlier, hfree]
  cases (ofProof p safety).earlier? (.implies a b) k with
  | none => rfl
  | some i => cases side.isFree x <;> rfl

/-- The universal rule says the same of a renamed line, up to the wording. -/
theorem universalRule_rename (he : e.IsFormula) :
    Attempt.outline ((ofProof q safety).universalRule k (e.rename ρ.map)) =
      Attempt.outline ((ofProof p safety).universalRule k e) := by
  by_cases hshape : ∃ a x b, e = .implies a (.forAll x b)
  · obtain ⟨a, x, b, rfl⟩ := hshape
    obtain ⟨ha, hall⟩ := he.of_implies
    cases hall with
    | forAll hx hb =>
      rw [Expr.rename, Expr.rename, universalRule_forAll, universalRule_forAll]
      exact ruleOver_rename hp hq hx ha ha hb
  · rw [universalRule, universalRule]
    · intro a x b heq
      exact hshape ⟨a, x, b, heq⟩
    · intro a x b heq
      obtain ⟨l, r, rfl, -, hr⟩ := rename_eq_binary heq
      obtain ⟨y, c, rfl, -, -⟩ := rename_eq_quantified hr
      exact hshape ⟨l, y, c, rfl⟩

/-- The existential rule says the same of a renamed line, up to the wording. -/
theorem existentialRule_rename (he : e.IsFormula) :
    Attempt.outline ((ofProof q safety).existentialRule k (e.rename ρ.map)) =
      Attempt.outline ((ofProof p safety).existentialRule k e) := by
  by_cases hshape : ∃ x a b, e = .implies (.exist x a) b
  · obtain ⟨x, a, b, rfl⟩ := hshape
    obtain ⟨hex, hb⟩ := he.of_implies
    cases hex with
    | exist hx ha =>
      rw [Expr.rename, Expr.rename, existentialRule_exist, existentialRule_exist]
      exact ruleOver_rename hp hq hx hb ha hb
  · rw [existentialRule, existentialRule]
    · intro x a b heq
      exact hshape ⟨x, a, b, heq⟩
    · intro x a b heq
      obtain ⟨l, r, rfl, hl, -⟩ := rename_eq_binary heq
      obtain ⟨y, c, rfl, -, -⟩ := rename_eq_quantified hl
      exact hshape ⟨y, c, r, rfl⟩

end

/-! ## Banned variables -/

/-- With discharge safety on the banned variables are those free in the last hypothesis. -/
theorem mem_banned_iff {p : Proof} {safety : Bool} {x : Text} :
    x ∈ (ofProof p safety).banned ↔
      safety = true ∧ ∃ h, p.hypotheses.getLast? = some h ∧ h.Free x := by
  cases safety with
  | false => simp [ofProof]
  | true =>
    cases hlast : p.sequent.hypotheses.getLast? with
    | none => simp [ofProof, Proof.hypotheses, hlast]
    | some h => simp [ofProof, Proof.hypotheses, hlast, mem_freeVariables]

section
variable {ρ : Renaming} {p q : Proof} (hp : p.WellFormed) (hq : p.IsRenamed ρ.map q) {safety : Bool}
  {k : Nat} {e : Expr}
include hp hq

/-- The banned variables of the renamed proof are the renamed ones. -/
theorem mem_banned_rename_iff {y : Text} :
    y ∈ (ofProof q safety).banned ↔ ∃ x ∈ (ofProof p safety).banned, ρ.map x = y := by
  simp only [mem_banned_iff, hq.hypotheses, List.getLast?_map, Option.map_eq_some_iff]
  have hwf {h : Expr} (hlast : p.hypotheses.getLast? = some h) : h.WellFormed :=
    .inl (hp.hypotheses h (List.mem_of_getLast? hlast))
  constructor
  · rintro ⟨hsafety, _, ⟨h, hlast, rfl⟩, hfree⟩
    obtain ⟨x, hx, rfl⟩ := (hwf hlast).exists_of_free_rename ρ hfree
    exact ⟨x, ⟨hsafety, h, hlast, hx⟩, rfl⟩
  · rintro ⟨x, ⟨hsafety, h, hlast, hfree⟩, rfl⟩
    have hx := (hwf hlast).isLowerIdent_of_free hfree
    exact ⟨hsafety, _, ⟨h, hlast, rfl⟩, ((hwf hlast).free_rename_iff ρ hx).2 hfree⟩

/-- A renamed line is reported for a banned variable when the line is. -/
theorem bannedName_rename (he : e.IsFormula) :
    Attempt.outline ((ofProof q safety).bannedName (e.rename ρ.map)) =
      Attempt.outline ((ofProof p safety).bannedName e) := by
  have hnone : (ofProof q safety).bannedName (e.rename ρ.map) = none ↔
      (ofProof p safety).bannedName e = none := by
    rw [bannedName_eq_none_iff, bannedName_eq_none_iff]
    simp only [mem_banned_rename_iff hp hq]
    have hover {x : Text} (hx : x ∈ (ofProof p safety).banned) :
        (e.rename ρ.map).QuantifiesOver (ρ.map x) ↔ e.QuantifiesOver x := by
      obtain ⟨-, h, hlast, hfree⟩ := mem_banned_iff.1 hx
      have hh : h.WellFormed := .inl (hp.hypotheses h (List.mem_of_getLast? hlast))
      exact quantifiesOver_rename_iff ρ he (hh.isLowerIdent_of_free hfree)
    constructor
    · intro h x hx hbanned
      exact h (ρ.map x) ((hover hbanned).2 hx) ⟨x, hbanned, rfl⟩
    · rintro h _ hx ⟨x, hbanned, rfl⟩
      exact h x ((hover hbanned).1 hx) hbanned
  cases hc : (ofProof p safety).bannedName e with
  | none => rw [hnone.2 hc]
  | some r =>
    cases hc' : (ofProof q safety).bannedName (e.rename ρ.map) with
    | none => cases hc.symm.trans (hnone.1 hc')
    | some r' =>
      -- `y` need not be what `x` is renamed to: the names are sorted before one is picked
      obtain ⟨x, -, -, rfl⟩ := bannedName_eq_some hc
      obtain ⟨y, -, -, rfl⟩ := bannedName_eq_some hc'
      rfl

/-! ## Verdicts -/

/-- The verdict on a renamed line is that on the line, but for the wording of an error. -/
theorem classify_rename (he : e.IsFormula) :
    Attempt.outline ((ofProof q safety).classify k (e.rename ρ.map)) =
      Attempt.outline ((ofProof p safety).classify k e) := by
  unfold classify attempt
  simp only [Attempt.outline_orElse, schema_rename ρ he, modusPonens_rename hp hq he,
    quantifierAxiom_rename ρ he, Attempt.outline_justified (induction_rename ρ he),
    hypothesis_rename hp hq he, bannedName_rename hp hq he, universalRule_rename hp hq he,
    existentialRule_rename hp hq he, induction_rename ρ he]

end

end Context

/-- The justification of a line and the kind of its error. -/
def Line.outline (l : Line) : Option Justification × Option ErrorKind :=
  (l.justification?, l.error?.map fun err => err.problem.kind)

/-- Lines of which the same is said, up to the wording, have the same outline. -/
theorem Context.outline_line {c c' : Context} {k : Nat} {l l' : ProofLine} {e e' : Expr}
    (hl : l.parsed = .ok e) (hl' : l'.parsed = .ok e')
    (h : Attempt.outline (c.classify k e) = Attempt.outline (c'.classify k e')) :
    (c.line k l).outline = (c'.line k l').outline := by
  simp only [Line.outline, line, hl, hl']
  generalize c.classify k e = a at h ⊢
  generalize c'.classify k e' = a' at h ⊢
  rcases a with _ | _ | _ <;> rcases a' with _ | _ | _ <;>
    simp_all [Attempt.outline, Attempt.justification?, Attempt.problem?, Except.mapError]

namespace Proof

open Sequitur.Expr

/-- The only error of a proof whose kind is that of a wrong goal is the one of its goal. -/
theorem exists_wrongGoal_iff {header : Text} {lines : List Text} {p : Proof}
    (hread : Proof.read header lines = .ok p) {safety : Bool} :
    (∃ err ∈ (p.check safety).errors, err.problem.kind = .wrongGoal) ↔ p.reachesGoal = false := by
  constructor
  · rintro ⟨err, herr, hkind⟩
    rcases mem_errors_iff.1 herr with ⟨k, l, hl, hline⟩ | ⟨hgoal, -⟩
    · have hmem := List.mem_of_getElem? hl
      rw [lines_of_read hread] at hmem
      obtain ⟨text, -, rfl⟩ := List.mem_map.1 hmem
      exact absurd hkind (((Context.ofProof p safety).settled_line k text).number err hline).2
    · exact hgoal
  · intro hgoal
    exact ⟨_, mem_errors_iff.2 (.inr ⟨hgoal, rfl⟩), rfl⟩

section
variable {ρ : Renaming} {p q : Proof} (hp : p.WellFormed) (hq : p.IsRenamed ρ.map q)
include hp hq

/-- The verdicts on the lines of a renamed proof have the outlines of those on the proof. -/
theorem outline_check_rename (hlines : ∀ o ∈ p.formulas, ∃ e, o = some e) (safety : Bool) :
    (q.check safety).lines.map Line.outline = (p.check safety).lines.map Line.outline := by
  refine List.ext_getElem? fun k => ?_
  rw [List.getElem?_map, List.getElem?_map]
  have hk' : q.formulas[k]? = p.formulas[k]?.map (Option.map (Expr.rename ρ.map)) := by
    rw [hq.formulas, List.getElem?_map]
  cases hk : p.formulas[k]? with
  | none =>
    have hnone {r : Proof} (h : r.formulas[k]? = none) : (r.check safety).lines[k]? = none := by
      rw [formulas, List.getElem?_map, Option.map_eq_none_iff] at h
      rw [getElem?_check_lines, h]
      rfl
    rw [hk] at hk'
    rw [hnone hk, hnone hk']
  | some o =>
    obtain ⟨e, rfl⟩ := hlines o (List.mem_of_getElem? hk)
    rw [hk] at hk'
    obtain ⟨l, hl, hparsed⟩ := getElem?_formulas_eq_some_iff.1 hk
    obtain ⟨l', hl', hparsed'⟩ := getElem?_formulas_eq_some_iff.1 hk'
    have hclass : Attempt.outline ((Context.ofProof q safety).classify k (e.rename ρ.map)) =
        Attempt.outline ((Context.ofProof p safety).classify k e) :=
      Context.classify_rename hp hq (hp.isFormula hk)
    rw [getElem?_check_lines, getElem?_check_lines, hl, hl', Option.map_some, Option.map_some,
      Option.map_some, Option.map_some, Context.outline_line hparsed' hparsed hclass]

/-- A renamed proof reaches its goal when the proof does. -/
theorem reachesGoal_rename (hq' : q.WellFormed) : q.reachesGoal = p.reachesGoal := by
  have hlast : q.last? = p.last?.map (Expr.rename ρ.map) := by
    unfold last?
    rw [hq.formulas, List.getLast?_map]
    cases p.formulas.getLast? <;> rfl
  rw [Bool.eq_iff_iff, reachesGoal_iff hq', reachesGoal_iff hp, hlast, hq.goal,
    Option.map_eq_some_iff]
  constructor
  · rintro ⟨e, he, heq⟩
    have hmem : some e ∈ p.formulas := List.mem_of_getLast? (Option.join_eq_some_iff.1 he)
    rwa [(WellFormed.rename_inj ρ (.inl (hp.lines e hmem)) (.inl hp.goal)).1 heq] at he
  · intro hgoal
    exact ⟨_, hgoal, rfl⟩

end

/-- No identifier is special. Where all lines of a proof can be read, its texts are read again when
every identifier in them is renamed, apart from each other and each in its case. However a proof of
the renamed formulas is written, each of its lines has the justification of the line it comes from
or an error of the same kind, and its goal is missed just where the goal was. -/
theorem check_invariant_under_renaming {header : Text} {lines : List Text} {p : Proof}
    (hread : Proof.read header lines = .ok p) (hlines : ∀ o ∈ p.formulas, ∃ e, o = some e)
    (ρ : Renaming) :
    (∃ q, Proof.read (p.renamed ρ.map).header (p.renamed ρ.map).lines = .ok q ∧
      p.IsRenamed ρ.map q) ∧
    ∀ (header' : Text) (lines' : List Text) (q : Proof), Proof.read header' lines' = .ok q →
      p.IsRenamed ρ.map q → ∀ safety,
        (q.check safety).lines.map Line.outline = (p.check safety).lines.map Line.outline ∧
        ((∃ err ∈ (q.check safety).errors, err.problem.kind = .wrongGoal) ↔
          ∃ err ∈ (p.check safety).errors, err.problem.kind = .wrongGoal) := by
  refine ⟨exists_read_renamed ρ hread hlines, fun header' lines' q hread' hq safety => ?_⟩
  have hp := wellFormed_of_read hread
  refine ⟨outline_check_rename hp hq hlines safety, ?_⟩
  rw [exists_wrongGoal_iff hread', exists_wrongGoal_iff hread,
    reachesGoal_rename hp hq (wellFormed_of_read hread')]

/-- With `1` put after every name: a hypothesis, a captured term, an instance of induction, a banned
variable and a goal that is not reached. -/
theorem check_invariant_under_renaming_one :
    ∃ p q, Proof.read "A(x),x1=x|-A(x1)" ["A(x)", "(@x?x1x=x1)->?x1x1=x1",
        "(0=x1&@x(x=x1->x'=x1))->x=x1", "A(x)->@xA(x)"] = .ok p ∧
      Proof.read "A1(x1),x11=x1|-A1(x11)" ["A1(x1)", "(@x1?x11x1=x11)->?x11x11=x11",
        "(0=x11&@x1(x1=x11->x1'=x11))->x1=x11",
        "A1(x1)->@x1A1(x1)"] = .ok q ∧
      (q.check true).lines.map Line.outline = (p.check true).lines.map Line.outline ∧
      (q.check true).lines.map Line.outline = [(some { rule := .hypothesis, number := 1 }, none),
        (none, some .capture), (some { rule := .arithmetic, number := Schema.induction }, none),
        (none, some .freeVariable)] ∧
      ∃ err ∈ (q.check true).errors, err.problem.kind = .wrongGoal := by
  have hrun : (Proof.read "A(x),x1=x|-A(x1)" ["A(x)", "(@x?x1x=x1)->?x1x1=x1",
        "(0=x1&@x(x=x1->x'=x1))->x=x1", "A(x)->@xA(x)"]).map
      (fun p => (p.formulas.all Option.isSome, (p.renamed (Renaming.appending "1" rfl).map).header,
        (p.renamed (Renaming.appending "1" rfl).map).lines,
        (p.check true).lines.map Line.outline, p.reachesGoal)) =
      .ok (true, "A1(x1),x11=x1|-A1(x11)", ["A1(x1)", "(@x1?x11x1=x11)->?x11x11=x11",
        "(0=x11&@x1(x1=x11->x1'=x11))->x1=x11",
        "A1(x1)->@x1A1(x1)"], [(some { rule := .hypothesis, number := 1 }, none),
        (none, some .capture), (some { rule := .arithmetic, number := Schema.induction }, none),
        (none, some .freeVariable)], false) := by
    cbv
  obtain ⟨p, hp, heq⟩ := exists_of_map_eq_ok hrun
  simp only [Prod.mk.injEq] at heq
  obtain ⟨hsome, hheader, htexts, houtline, hgoal⟩ := heq
  have hlines : ∀ o ∈ p.formulas, ∃ e, o = some e := fun o ho =>
    Option.isSome_iff_exists.1 (List.all_eq_true.1 hsome o ho)
  obtain ⟨⟨q, hread, hq⟩, hcheck⟩ := check_invariant_under_renaming hp hlines (.appending "1" rfl)
  obtain ⟨hsame, hwrong⟩ := hcheck _ _ q hread hq true
  rw [hheader, htexts] at hread
  exact ⟨p, q, hp, hread, hsame, hsame.trans houtline,
    hwrong.2 ((exists_wrongGoal_iff hp).2 hgoal)⟩

end Proof

end Sequitur
