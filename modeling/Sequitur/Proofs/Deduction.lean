import Mathlib
import Sequitur.Deduction.Discharge
import Sequitur.Proofs.Fragments
import Sequitur.Proofs.Safety

/-!
# The deduction theorem

Discharging the last hypothesis `H` of a proof without errors gives a proof without errors of
`H->F` from the other hypotheses, where `F` is the last line.

Each of the built-in fragments is a derivation, whatever the placeholders stand for. That is a
computation on patterns (`Pattern.derives`): but for one line in three of them every pattern is an
instance of a schema or follows by modus ponens. The line that is left is the source line itself,
or the use of a quantifier rule with `H` moved to the other side of the implication, where discharge
safety has made sure that the variable is not free in `H` (`not_free_of_bannedName`).

So the fragment of a line `L` can be filled in, is read again and is accepted after lines that have
`H->A` for every `A` before `L`, and it ends in `H->L` (`exists_fragment`, one case for each way in
which the line is justified). Going through the lines of the source proof, what has been emitted so
far is accepted and has these implications (`Rewritten`).
-/

namespace Sequitur

/-! ## Derivations of patterns -/

/-- An instance of a schema is justified. -/
theorem Context.schema_succeeds {i : Nat} {s : Schema} (hs : Schema.all[i]? = some s)
    (σ : Text → Expr) : (Context.schema (s.formula.instantiate σ)).Succeeds := by
  have hfind : (Schema.find? (s.formula.instantiate σ)).isSome = true :=
    List.find?_isSome.2 ⟨s, List.mem_of_getElem? hs, Schema.isInstanceOf_instantiate s.formula σ⟩
  obtain ⟨t, ht⟩ := Option.isSome_iff_exists.1 hfind
  unfold Context.schema
  rw [ht]
  exact ⟨_, rfl⟩

namespace Pattern

/-- `a->(b->a)` -/
def isWeakening : Pattern → Bool
  | implies a (implies _ c) => c == a
  | _ => false

/-- `(a->b)->((a->(b->c))->(a->c))` -/
def isDistribution : Pattern → Bool
  | implies (implies a b) (implies (implies c (implies d e)) (implies f g)) =>
    c == a && f == a && d == b && g == e
  | _ => false

/-- `a->(b->(a&b))` -/
def isPairing : Pattern → Bool
  | implies a (implies b c) => c == a.and b
  | _ => false

/-- `(a&b)->a` or `(a&b)->b` -/
def isProjection : Pattern → Bool
  | implies (and a b) c => c == a || c == b
  | _ => false

/-- An instance of one of the schemas the fragments use. -/
def isLogic (p : Pattern) : Bool :=
  p.isWeakening || p.isDistribution || p.isPairing || p.isProjection

/-- The conclusion of modus ponens from known patterns. -/
def follows (known : List Pattern) (p : Pattern) : Bool :=
  known.any fun
    | implies q r => r == p && known.contains q
    | _ => false

/-- Each of the patterns is an instance of a schema or follows from the known ones and those before
it. -/
def derives : List Pattern → List Pattern → Bool
  | _, [] => true
  | known, p :: ps => (p.isLogic || p.follows known) && derives (p :: known) ps

/-- The letters of a schema. -/
def letters (a b c : Expr) (x : Text) : Expr :=
  if x = Text.ofString "A" then a else if x = Text.ofString "B" then b else c

/-- A pattern of the schemas that the fragments use is justified by a schema, whatever the letters
are. -/
theorem schema_of_isLogic (v : Values) {p : Pattern} (h : p.isLogic = true) :
    (Context.schema (p.expr v)).Succeeds := by
  simp only [isLogic, Bool.or_eq_true] at h
  rcases h with ((h | h) | h) | h
  · unfold isWeakening at h
    split at h
    · next a b c =>
      obtain rfl := eq_of_beq h
      exact Context.schema_succeeds (i := 0) rfl (letters (c.expr v) (b.expr v) (c.expr v))
    · cases h
  · unfold isDistribution at h
    split at h
    · next a b c d e f g =>
      simp only [Bool.and_eq_true, beq_iff_eq] at h
      obtain ⟨⟨⟨rfl, rfl⟩, rfl⟩, rfl⟩ := h
      exact Context.schema_succeeds (i := 1) rfl (letters (f.expr v) (d.expr v) (g.expr v))
    · cases h
  · unfold isPairing at h
    split at h
    · next a b c =>
      obtain rfl := eq_of_beq h
      exact Context.schema_succeeds (i := 2) rfl (letters (a.expr v) (b.expr v) (a.expr v))
    · cases h
  · unfold isProjection at h
    split at h
    · next a b c =>
      simp only [Bool.or_eq_true, beq_iff_eq] at h
      rcases h with rfl | rfl
      · exact Context.schema_succeeds (i := 3) rfl (letters (c.expr v) (b.expr v) (c.expr v))
      · exact Context.schema_succeeds (i := 4) rfl (letters (a.expr v) (c.expr v) (c.expr v))
    · cases h

section
variable {v : Values} {hyps : List Expr} {earlier : Expr → Prop}

/-- A derivation of patterns is accepted, whatever the placeholders stand for. -/
theorem accepts_of_derives {known ps : List Pattern} (h : derives known ps = true)
    (hknown : ∀ q ∈ known, earlier (q.expr v)) : Accepts hyps earlier (ps.map (expr v)) := by
  induction ps generalizing known earlier with
  | nil => exact .nil
  | cons p ps ih =>
    rw [derives, Bool.and_eq_true, Bool.or_eq_true] at h
    obtain ⟨hp, hps⟩ := h
    have hline : Accepted hyps earlier (p.expr v) := by
      rcases hp with hp | hp
      · exact .schema (schema_of_isLogic v hp)
      · obtain ⟨q, hq, hqp⟩ := List.any_eq_true.1 hp
        split at hqp
        · next q r =>
          rw [Bool.and_eq_true, beq_iff_eq, List.contains_iff_mem] at hqp
          obtain ⟨rfl, hmem⟩ := hqp
          exact .modusPonens (hknown q hmem) (hknown _ hq)
        · cases hqp
    refine .cons hline (ih hps fun q hq => ?_)
    rcases List.mem_cons.1 hq with rfl | hq
    · exact .inr rfl
    · exact .inl (hknown q hq)

/-! ## The built-in fragments -/

/-- The fragment for the hypothesis itself is accepted. -/
theorem accepts_itself : Accepts hyps earlier (itselfFragment.map (expr v)) :=
  accepts_of_derives (show derives [] itselfFragment = true by decide) nofun

/-- The fragment for an axiom or another hypothesis is accepted where the line is. -/
theorem accepts_given (hA : Accepted hyps earlier v.left) :
    Accepts hyps earlier (givenFragment.map (expr v)) := by
  refine .cons hA (accepts_of_derives (show derives [A] givenFragment.tail = true by decide) ?_)
  simp [expr]

/-- The fragment for modus ponens is accepted after the fragments of its premises. -/
theorem accepts_modusPonens (hA : earlier (.implies v.hypothesis v.left))
    (hAB : earlier (.implies v.hypothesis (.implies v.left v.right))) :
    Accepts hyps earlier (modusPonensFragment.map (expr v)) := by
  have hderives :
      derives [H.implies A, H.implies (A.implies B)] modusPonensFragment = true := by decide
  refine accepts_of_derives hderives ?_
  simp [expr, hA, hAB]

/-- The premise of the quantifier rule stands in the fragment, so that what is after the rule may
use all that is before it and the conclusion of the rule. -/
theorem accepts_of_rule {known before after : List Pattern} {rule : Pattern}
    (hbefore : derives known before = true)
    (hafter : derives (rule :: before ++ known) after = true)
    (hknown : ∀ q ∈ known, earlier (q.expr v))
    (hrule : Accepted hyps (fun a => earlier a ∨ a ∈ before.map (expr v)) (rule.expr v)) :
    Accepts hyps earlier ((before ++ rule :: after).map (expr v)) := by
  rw [List.map_append]
  refine (accepts_of_derives hbefore hknown).append (.cons hrule ?_)
  refine accepts_of_derives hafter fun q hq => ?_
  rcases List.mem_append.1 hq with hq | hq
  · rcases List.mem_cons.1 hq with rfl | hq
    · exact .inr rfl
    · exact .inl (.inr (List.mem_map_of_mem hq))
  · exact .inl (.inl (hknown q hq))

/-- The universal rule is used on `(H&A)->B`. -/
theorem accepts_universal (hAB : earlier (.implies v.hypothesis (.implies v.left v.right)))
    (hH : ¬ v.hypothesis.Free v.name) (hA : ¬ v.left.Free v.name) :
    Accepts hyps earlier (universalFragment.map (expr v)) := by
  have hfragment : universalFragment = universalFragment.take 10 ++
      (H.and A).implies B.all :: universalFragment.drop 11 := rfl
  have hmem : (H.and A).implies B ∈ universalFragment.take 10 := by decide
  have hknown : ∀ q ∈ [H.implies (A.implies B)], earlier (q.expr v) :=
    List.forall_mem_singleton.2 hAB
  have hfree : ¬ Expr.Free v.name (.and v.hypothesis v.left) :=
    Expr.not_free_binary (by decide) hH hA
  rw [hfragment]
  refine accepts_of_rule (by decide) (by decide) hknown ?_
  exact .universal rfl (.inr (List.mem_map_of_mem hmem)) hfree

/-- The existential rule is used on `A->(H->B)`. -/
theorem accepts_existential (hAB : earlier (.implies v.hypothesis (.implies v.left v.right)))
    (hH : ¬ v.hypothesis.Free v.name) (hB : ¬ v.right.Free v.name) :
    Accepts hyps earlier (existentialFragment.map (expr v)) := by
  have hfragment : existentialFragment = existentialFragment.take 12 ++
      A.some.implies (H.implies B) :: existentialFragment.drop 13 := rfl
  have hmem : A.implies (H.implies B) ∈ existentialFragment.take 12 := by decide
  have hknown : ∀ q ∈ [H.implies (A.implies B)], earlier (q.expr v) :=
    List.forall_mem_singleton.2 hAB
  have hfree : ¬ Expr.Free v.name (.implies v.hypothesis v.right) :=
    Expr.not_free_binary (by decide) hH hB
  rw [hfragment]
  refine accepts_of_rule (by decide) (by decide) hknown ?_
  exact .existential rfl nofun (.inr (List.mem_map_of_mem hmem)) hfree

end

end Pattern

/-! ## The fragment of a line -/

/-- The texts are read as lines that are accepted after the lines `earlier` and end in `h->l`. -/
def Discharges (hyps : List Expr) (earlier : Expr → Prop) (h l : Expr) (texts : List Text) : Prop :=
  ∃ es : List Expr, texts.map Text.parseFormula = es.map .ok ∧ Accepts hyps earlier es ∧
    es.getLast? = some (.implies h l)

namespace Discharge

open Sequitur.Expr

/-- A variable over which a quantifier rule was used is not free in the hypothesis that is to be
discharged. -/
theorem not_free_of_bannedName {p : Proof} {h e : Expr} (hh : p.hypotheses.getLast? = some h)
    (hb : (Context.ofProof p true).bannedName e = none) {x : Text}
    (hx : x ∈ Context.quantifiedNames e) : ¬ h.Free x := by
  rw [Proof.hypotheses, List.getLast?_map, Option.map_eq_some_iff] at hh
  obtain ⟨s, hs, rfl⟩ := hh
  have hout := Context.bannedName_eq_none_iff.1 hb x (Context.mem_quantifiedNames.1 hx)
  rwa [(Context.banned_ofProof hs).1, mem_freeVariables] at hout

section
variable {hyps : List Expr} {earlier : Expr → Prop} {h a b : Expr} {x : Text}

/-- A template whose patterns are accepted and end in `h->l` discharges the line `l`. -/
theorem discharges_fill {ps : List Pattern} {f : Filling} {v : Pattern.Values} {l : Expr}
    (hne : ps ≠ []) (hf : ∀ p ∈ ps, p.Filled f v)
    (haccepts : Accepts hyps earlier (ps.map (Pattern.expr v)))
    (hl : (ps.map (Pattern.expr v)).getLast? = some (.implies h l)) :
    Discharges hyps earlier h l (Template.fill (Pattern.template ps) f) :=
  ⟨_, Pattern.parse_fill hne hf, haccepts, hl⟩

/-- `H->H` from nothing. -/
theorem discharges_itself (hh : h.IsFormula) : Discharges hyps earlier h h
    (Template.fill Templates.builtIn.itself { hypothesis := h.canonical }) := by
  let v : Pattern.Values := ⟨h, h, h, [120], hh, hh, hh, rfl⟩
  have hf : ∀ p ∈ Pattern.itselfFragment, p.Filled { hypothesis := h.canonical } v := by
    simp [Pattern.itselfFragment, Pattern.Filled, v]
  exact discharges_fill nofun hf Pattern.accepts_itself rfl

/-- `H->A` where `A` is accepted on its own. -/
theorem discharges_given (hh : h.IsFormula) (ha : a.IsFormula) (hacc : Accepted hyps earlier a) :
    Discharges hyps earlier h a (Template.fill Templates.builtIn.given
      { hypothesis := h.canonical, left := a.canonical }) := by
  let v : Pattern.Values := ⟨h, a, a, [120], hh, ha, ha, rfl⟩
  have hf : ∀ p ∈ Pattern.givenFragment,
      p.Filled { hypothesis := h.canonical, left := a.canonical } v := by
    simp [Pattern.givenFragment, Pattern.Filled, v]
  exact discharges_fill nofun hf (Pattern.accepts_given hacc) rfl

/-- `H->B` from `H->A` and `H->(A->B)`. -/
theorem discharges_modusPonens (hh : h.IsFormula) (hab : IsFormula (.implies a b))
    (hleft : earlier (.implies h a)) (himp : earlier (.implies h (.implies a b))) :
    Discharges hyps earlier h b (Template.fill Templates.builtIn.modusPonens
      { hypothesis := h.canonical, left := a.canonical, right := b.canonical }) := by
  let v : Pattern.Values := ⟨h, a, b, [120], hh, hab.of_implies.1, hab.of_implies.2, rfl⟩
  have hf : ∀ p ∈ Pattern.modusPonensFragment, p.Filled
      { hypothesis := h.canonical, left := a.canonical, right := b.canonical } v := by
    simp [Pattern.modusPonensFragment, Pattern.Filled, v]
  exact discharges_fill nofun hf (Pattern.accepts_modusPonens hleft himp) rfl

/-- `H->(A->(@xB))` from `H->(A->B)`. -/
theorem discharges_universal (hh : h.IsFormula) (hab : IsFormula (.implies a b))
    (hx : Text.isLowerIdent x = true) (himp : earlier (.implies h (.implies a b)))
    (hxh : ¬ h.Free x) (hxa : ¬ a.Free x) :
    Discharges hyps earlier h (.implies a (.forAll x b)) (Template.fill Templates.builtIn.universal
      { hypothesis := h.canonical, left := a.canonical, right := b.canonical, name := x }) := by
  let v : Pattern.Values := ⟨h, a, b, x, hh, hab.of_implies.1, hab.of_implies.2, hx⟩
  exact discharges_fill (v := v) nofun (fun p _ => Pattern.filled_of_eq rfl rfl rfl rfl p)
    (Pattern.accepts_universal himp hxh hxa) rfl

/-- `H->((?xA)->B)` from `H->(A->B)`. -/
theorem discharges_existential (hh : h.IsFormula) (hab : IsFormula (.implies a b))
    (hx : Text.isLowerIdent x = true) (himp : earlier (.implies h (.implies a b)))
    (hxh : ¬ h.Free x) (hxb : ¬ b.Free x) :
    Discharges hyps earlier h (.implies (.exist x a) b) (Template.fill Templates.builtIn.existential
      { hypothesis := h.canonical, left := a.canonical, right := b.canonical, name := x }) := by
  let v : Pattern.Values := ⟨h, a, b, x, hh, hab.of_implies.1, hab.of_implies.2, hx⟩
  exact discharges_fill (v := v) nofun (fun p _ => Pattern.filled_of_eq rfl rfl rfl rfl p)
    (Pattern.accepts_existential himp hxh hxb) rfl

end

/-- The conclusion of the universal rule quantifies over its variable. -/
theorem mem_quantifiedNames_universal (x : Text) (a b : Expr) :
    x ∈ Context.quantifiedNames (.implies a (.forAll x b)) := by
  simp [Context.quantifiedNames, Context.quantifiedName, kind, Kind.isQuantifier, name]

/-- The conclusion of the existential rule quantifies over its variable. -/
theorem mem_quantifiedNames_existential (x : Text) (a b : Expr) :
    x ∈ Context.quantifiedNames (.implies (.exist x a) b) := by
  simp [Context.quantifiedNames, Context.quantifiedName, kind, Kind.isQuantifier, name]

/-- A line that is an instance of an axiom or a hypothesis has the fragment of a given line. -/
theorem fragment?_of_isInstance {p : Proof} {t : Templates} {h e : Expr} {j : Justification}
    (hne : e.same h = false) (hj : j.isInstance = true) : fragment? p t h e j =
      some (Template.fill t.given { hypothesis := h.canonical, left := e.canonical }) := by
  simp only [fragment?, hne, hj, if_true, Bool.false_eq_true, if_false]

/-- A hypothesis other than the last one is left when the last one is dropped. -/
theorem mem_dropLast_of_ne {l : List Expr} {h e : Expr} (hh : l.getLast? = some h) (he : e ∈ l)
    (hne : e ≠ h) : e ∈ l.dropLast := by
  rw [← List.dropLast_append_getLast? h hh, List.mem_append, List.mem_singleton] at he
  exact he.resolve_right hne

/-- There is a fragment for every line of a proof without errors, and it discharges the
hypothesis. -/
theorem exists_fragment {p : Proof} (hp : p.WellFormed) {h : Expr}
    (hh : p.hypotheses.getLast? = some h) {k : Nat} {e : Expr} (he : e.IsFormula)
    {j : Justification} (hclass : (Context.ofProof p true).classify k e = some (.ok j))
    {earlier : Expr → Prop} (hearlier : ∀ a, p.Before k a → earlier (.implies h a)) :
    ∃ texts, fragment? p .builtIn h e j = some texts ∧
      Discharges p.hypotheses.dropLast earlier h e texts := by
  have hform : h.IsFormula := hp.hypotheses h (List.mem_of_getLast? hh)
  by_cases hsame : e = h
  · subst hsame
    exact ⟨_, if_pos (beq_self_eq_true e.canonical), discharges_itself hform⟩
  have hne : e.same h = false := by
    rw [← Bool.not_eq_true, same_iff (.inl he) (.inl hform)]
    exact hsame
  have hgiven (hj : j.isInstance = true) (hacc : Accepted p.hypotheses.dropLast earlier e) :
      ∃ texts, fragment? p .builtIn h e j = some texts ∧
        Discharges p.hypotheses.dropLast earlier h e texts :=
    ⟨_, fragment?_of_isInstance hne hj, discharges_given hform he hacc⟩
  rcases Context.classify_eq_ok hclass with hs | hm | hq | ⟨hq, hi | hy | ⟨hb, hu | hx⟩⟩
  · obtain ⟨-, j', hj', hinst⟩ := Context.schema_eq_some he hs
    cases hj'
    exact hgiven hinst (.schema ⟨j, hs⟩)
  · obtain ⟨i, i', a, hj, hik, hik', ha, hae⟩ := Context.modusPonens_eq_some hp he hm
    cases hj
    refine ⟨_, ?_, discharges_modusPonens hform (hp.isFormula hae) (hearlier a ⟨i, hik, ha⟩)
      (hearlier _ ⟨i', hik', hae⟩)⟩
    simp [fragment?, hne, Justification.isInstance, ha]
  · exact hgiven (Context.quantifierAxiom_eq_ok he hq).2 (.quantifierAxiom ⟨j, hq⟩)
  · exact hgiven (Context.induction_eq_ok he hi).2 (.induction hq ⟨j, hi⟩)
  · obtain ⟨n, hn, -, hj⟩ := Context.hypothesis_eq_some hp he hy
    cases hj
    exact hgiven rfl (.given hq (mem_dropLast_of_ne hh (List.mem_of_getElem? hn) hsame))
  · obtain ⟨x, a, b, i, rfl, rfl, hik, hline, hfree⟩ := Context.universalRule_eq_ok hp he hu
    have hban := not_free_of_bannedName hh hb (mem_quantifiedNames_universal x a b)
    have hlower : Text.isLowerIdent x = true := by
      cases he.of_implies.2 with
      | forAll hx _ => exact hx
    refine ⟨_, ?_, discharges_universal hform (hp.isFormula hline) hlower
      (hearlier _ ⟨i, hik, hline⟩) hban hfree⟩
    simp [fragment?, hne, Justification.isInstance]
  · obtain ⟨x, a, b, i, rfl, rfl, hik, hline, hfree⟩ := Context.existentialRule_eq_ok hp he hx
    have hban := not_free_of_bannedName hh hb (mem_quantifiedNames_existential x a b)
    have hlower : Text.isLowerIdent x = true := by
      cases he.of_implies.1 with
      | exist hx _ => exact hx
    refine ⟨_, ?_, discharges_existential hform (hp.isFormula hline) hlower
      (hearlier _ ⟨i, hik, hline⟩) hban hfree⟩
    simp [fragment?, hne, Justification.isInstance]

/-! ## The fragments of all lines -/

/-- The last line of a fragment says `h->l`, where `l` is the line it is for. -/
def EndsIn (h : Expr) (line : Line) (fragment : List Text) : Prop :=
  ∃ l text, line.formula = some l ∧ fragment.getLast? = some text ∧
    text.parseFormula = .ok (.implies h l)

/-- Texts that discharge a line end in `h->l`. -/
theorem endsIn_of_discharges {hyps : List Expr} {earlier : Expr → Prop} {h l : Expr}
    {texts : List Text} (hd : Discharges hyps earlier h l texts) {line : Line}
    (hline : line.formula = some l) : EndsIn h line texts := by
  obtain ⟨es, hread, -, hlast⟩ := hd
  have htexts : (texts.map Text.parseFormula).getLast? = some (.ok (.implies h l)) := by
    rw [hread, List.getLast?_map, hlast]
    rfl
  rw [List.getLast?_map, Option.map_eq_some_iff] at htexts
  obtain ⟨text, htext, hparse⟩ := htexts
  exact ⟨l, text, hline, htext, hparse⟩

/-- The fragments of the first `n` lines, and the formulas of the lines in them. -/
structure Rewritten (p : Proof) (h : Expr) (n : Nat) (fragments : List (List Text))
    (es : List Expr) : Prop where
  emitted : ((p.check true).lines.take n).mapM (fragment p .builtIn h) = .ok fragments
  ends : List.Forall₂ (EndsIn h) ((p.check true).lines.take n) fragments
  reads : fragments.flatten.map Text.parseFormula = es.map .ok
  accepts : Accepts p.hypotheses.dropLast (fun _ => False) es
  before : ∀ a, p.Before n a → .implies h a ∈ es
  last : ∀ m l, n = m + 1 → p.formulas[m]? = some (some l) → es.getLast? = some (.implies h l)

section
variable {p : Proof} {h : Expr} {n : Nat} {fragments : List (List Text)} {es : List Expr}

/-- No lines are rewritten as no fragments. -/
theorem rewritten_zero (p : Proof) (h : Expr) : Rewritten p h 0 [] [] where
  emitted := rfl
  ends := .nil
  reads := rfl
  accepts := .nil
  before a ha := by
    obtain ⟨i, hi, -⟩ := ha
    omega
  last m l hm := by omega

/-- The verdicts on one line more are those before and that on the line. -/
theorem take_succ_lines {l : ProofLine} (hl : p.lines[n]? = some l) :
    (p.check true).lines.take (n + 1) =
      (p.check true).lines.take n ++ [(Context.ofProof p true).line n l] := by
  have hget : (p.check true).lines[n]? = some ((Context.ofProof p true).line n l) := by
    rw [Proof.getElem?_check_lines, hl]
    rfl
  rw [List.take_add_one, hget]
  rfl

/-- The fragment of a line that is justified. -/
theorem fragment_line {c : Context} {t : Templates} {l : ProofLine} {e : Expr} {j : Justification}
    {texts : List Text} (hparsed : l.parsed = .ok e) (hclass : c.classify n e = some (.ok j))
    (hfragment : fragment? p t h e j = some texts) :
    fragment p t h (c.line n l) = .ok texts := by
  have hformula : l.formula? = some e := by rw [ProofLine.formula?, hparsed]; rfl
  simp only [fragment, Context.line, hformula, hparsed, hclass, Attempt.justification?, hfragment]

/-- One line more. -/
theorem Rewritten.succ (hp : p.WellFormed) (hh : p.hypotheses.getLast? = some h)
    (hok : (p.check true).errors = []) (hn : n < p.lines.length)
    (hr : Rewritten p h n fragments es) : ∃ texts fs,
      Rewritten p h (n + 1) (fragments ++ [texts]) (es ++ fs) := by
  obtain ⟨l, hl⟩ : ∃ l, p.lines[n]? = some l := ⟨_, List.getElem?_eq_getElem hn⟩
  obtain ⟨e, j, hparsed, hclass⟩ := (Proof.check_errors_eq_nil_iff.1 hok).1 n l hl
  have hformula : l.formula? = some e := by rw [ProofLine.formula?, hparsed]; rfl
  have hline : p.formulas[n]? = some (some e) := by
    rw [Proof.formulas, List.getElem?_map, hl, Option.map_some, hformula]
  obtain ⟨texts, hfragment, hd⟩ := exists_fragment hp hh (hp.isFormula hline) hclass hr.before
  have htake := take_succ_lines hl
  have hemit := fragment_line hparsed hclass hfragment
  have hends : EndsIn h ((Context.ofProof p true).line n l) texts :=
    endsIn_of_discharges hd hformula
  obtain ⟨fs, hread, haccepts, hlast⟩ := hd
  refine ⟨texts, fs, ⟨?_, ?_, ?_, ?_, ?_, ?_⟩⟩
  · rw [htake, List.mapM_append, hr.emitted, List.mapM_cons, List.mapM_nil, hemit]
    rfl
  · rw [htake]
    exact List.rel_append hr.ends (.cons hends .nil)
  · rw [List.flatten_append, List.map_append, List.map_append, hr.reads, List.flatten_singleton,
      hread]
  · exact hr.accepts.append (by simpa using haccepts)
  · rintro a ⟨i, hi, ha⟩
    rcases Nat.lt_succ_iff_lt_or_eq.1 hi with hi | rfl
    · exact List.mem_append_left fs (hr.before a ⟨i, hi, ha⟩)
    · rw [hline] at ha
      cases ha
      exact List.mem_append_right es (List.mem_of_getLast? hlast)
  · rintro m a hm ha
    cases hm
    rw [hline] at ha
    cases ha
    rw [List.getLast?_append, hlast]
    rfl

/-- All lines can be rewritten. -/
theorem exists_rewritten (hp : p.WellFormed) (hh : p.hypotheses.getLast? = some h)
    (hok : (p.check true).errors = []) (hn : n ≤ p.lines.length) :
    ∃ fragments es, Rewritten p h n fragments es := by
  induction n with
  | zero => exact ⟨[], [], rewritten_zero p h⟩
  | succ n ih =>
    obtain ⟨fragments, es, hr⟩ := ih (by omega)
    obtain ⟨texts, fs, hr'⟩ := hr.succ hp hh hok hn
    exact ⟨_, _, hr'⟩

end

end Discharge

/-! ## The rewritten proof -/

/-- Where all lines have been rewritten, the last formula is the goal of the rewritten proof. -/
theorem Discharge.Rewritten.getLast? {p : Proof} (hp : p.WellFormed) {safety : Bool}
    (hok : (p.check safety).errors = []) {h : Expr} {fragments : List (List Text)} {es : List Expr}
    (hr : Rewritten p h p.lines.length fragments es) :
    es.getLast? = some (.implies h p.sequent.goal.formula) := by
  have hgoal := Proof.goal_of_check hp hok
  obtain ⟨hlt, -⟩ := List.getElem?_eq_some_iff.1 hgoal
  refine hr.last _ _ ?_ hgoal
  rw [Proof.formulas, List.length_map] at hlt ⊢
  omega

/-- A proof without errors whose lines all have a fragment is rewritten as these fragments, in a
row. -/
theorem Result.discharge_eq_ok {r : Result} {t : Templates} {h : Statement} {f : Expr}
    {fragments : List (List Text)} (hh : r.proof.sequent.hypotheses.getLast? = some h)
    (hok : r.errors = []) (hf : r.proof.last? = some f)
    (hfragments : r.lines.mapM (Discharge.fragment r.proof t.withDefaults h.formula) =
      .ok fragments) :
    r.discharge t = .ok
      { hypotheses := r.proof.sequent.hypotheses.dropLast.map Statement.text
        goal := (Expr.implies h.formula f).canonical
        lines := fragments.flatten } := by
  unfold discharge
  simp only [hh, hok, hf, hfragments]
  rfl

/-- A rewritten proof is checked without errors when its header and its lines are read, the lines
are accepted one after the other, and the last one is the goal. -/
theorem Rewriting.recheck_eq_ok {w : Rewriting} {s : Sequent} (hs : Sequent.parse w.header = .ok s)
    {es : List Expr} (hlines : w.lines.map Text.parseFormula = es.map .ok)
    (haccepts : Accepts (s.hypotheses.map Statement.formula) (fun _ => False) es)
    (hgoal : es.getLast? = some s.goal.formula) :
    ∃ r, w.recheck = .ok r ∧ r.errors = [] := by
  let p : Proof := ⟨w.header.stripSpace, s, w.lines.map Proof.readLine⟩
  have hformulas : p.formulas = es.map some := by
    have hoption := congrArg (List.map Except.toOption) hlines
    rw [List.map_map, List.map_map] at hoption
    show (w.lines.map Proof.readLine).map ProofLine.formula? = _
    rw [List.map_map]
    exact hoption
  have hread : Proof.read w.header w.lines = .ok p := by
    unfold Proof.read
    rw [hs]
    rfl
  have hrecheck : w.recheck = .ok (p.check false) := by
    unfold recheck
    rw [hread]
    rfl
  exact ⟨p.check false, hrecheck, Proof.check_of_accepts hformulas haccepts hgoal⟩

/-- The proof `p`, checked with discharge safety, is rewritten as `w`, which proves `h->f` from the
hypotheses of `p` but the last, where `f` is the goal of `p`. The fragment of every line ends in
what the line becomes, and `w` has no errors. -/
structure Rewriting.DischargesLast (w : Rewriting) (p : Proof) (t : Templates) (h : Expr) :
    Prop where
  output : (p.check true).discharge t = .ok w
  sequent : ∃ s, Sequent.parse w.header = .ok s ∧
    s.hypotheses.map Statement.formula = p.hypotheses.dropLast ∧
    s.goal.formula = .implies h p.sequent.goal.formula
  fragments : ∃ fragments,
    (p.check true).lines.mapM (Discharge.fragment p t.withDefaults h) = .ok fragments ∧
    w.lines = fragments.flatten ∧
    List.Forall₂ (Discharge.EndsIn h) (p.check true).lines fragments
  verified : ∃ r, w.recheck = .ok r ∧ r.errors = []

/-- The built-in templates discharge the last hypothesis of a proof that has no errors with
discharge safety. -/
theorem Proof.exists_dischargesLast {header : Text} {lines : List Text} {p : Proof}
    (hread : Proof.read header lines = .ok p) {h : Statement}
    (hh : p.sequent.hypotheses.getLast? = some h) (hok : (p.check true).errors = [])
    {t : Templates} (ht : t.withDefaults = .builtIn) :
    ∃ w : Rewriting, w.DischargesLast p t h.formula := by
  have hp := wellFormed_of_read hread
  have hlast : p.hypotheses.getLast? = some h.formula := by
    rw [hypotheses, List.getLast?_map, hh, Option.map_some]
  obtain ⟨fragments, es, hr⟩ := Discharge.exists_rewritten hp hlast hok le_rfl
  have hall : (p.check true).lines.take p.lines.length = (p.check true).lines :=
    List.take_of_length_le (by simp [check])
  have hemitted : (p.check true).lines.mapM
      (Discharge.fragment p t.withDefaults h.formula) = .ok fragments := by
    rw [ht, ← hr.emitted, hall]
  have hends := hr.ends
  rw [hall] at hends
  have hdischarge := Result.discharge_eq_ok hh hok (last?_of_check hp hok) hemitted
  have hgoal : Statement.IsRead
      ⟨(Expr.implies h.formula p.sequent.goal.formula).canonical,
        .implies h.formula p.sequent.goal.formula⟩ :=
    Expr.IsFormula.parse_canonical
      (.implies (hp.hypotheses _ (List.mem_of_getLast? hlast)) hp.goal)
  have hparse := Sequent.parse_format
    (fun s hs => (isRead_of_read hread).1 s (List.mem_of_mem_dropLast hs)) hgoal
  have hhyps : (p.sequent.hypotheses.dropLast.map Statement.stripped).map Statement.formula =
      p.hypotheses.dropLast := by
    rw [List.map_map, hypotheses, ← List.map_dropLast]
    rfl
  refine ⟨_, hdischarge, ⟨_, hparse, hhyps, rfl⟩, ⟨fragments, hemitted, rfl, hends⟩, ?_⟩
  exact Rewriting.recheck_eq_ok hparse hr.reads (hhyps ▸ hr.accepts) (hr.getLast? hp hok)

/-- The deduction theorem. From a proof without errors, with discharge safety, of the last line `f`
from hypotheses of which the last is `h`, the built-in templates make a proof without errors of
`h->f` from the others, in which the fragment of every line `l` ends in `h->l`. -/
theorem Proof.deduction_theorem {header : Text} {lines : List Text} {p : Proof}
    (hread : Proof.read header lines = .ok p) {h : Expr} (hh : p.hypotheses.getLast? = some h)
    (hok : (p.check true).errors = []) {t : Templates} (ht : t.withDefaults = .builtIn) :
    ∃ f w fragments, p.last? = some f ∧ (p.check true).discharge t = .ok w ∧
      (∃ s, Sequent.parse w.header = .ok s ∧
        s.hypotheses.map Statement.formula = p.hypotheses.dropLast ∧
        s.goal.formula = .implies h f) ∧
      (p.check true).lines.mapM (Discharge.fragment p t.withDefaults h) = .ok fragments ∧
      w.lines = fragments.flatten ∧
      List.Forall₂ (Discharge.EndsIn h) (p.check true).lines fragments ∧
      ∃ r, w.recheck = .ok r ∧ r.errors = [] ∧ Unverified.ofRecheck w.recheck = none := by
  rw [hypotheses, List.getLast?_map, Option.map_eq_some_iff] at hh
  obtain ⟨s, hs, rfl⟩ := hh
  obtain ⟨w, hw⟩ := Proof.exists_dischargesLast hread hs hok ht
  obtain ⟨fragments, hfragments, hlines, hends⟩ := hw.fragments
  obtain ⟨r, hrecheck, herrors⟩ := hw.verified
  refine ⟨_, w, fragments, last?_of_check (wellFormed_of_read hread) hok, hw.output, hw.sequent,
    hfragments, hlines, hends, r, hrecheck, herrors, ?_⟩
  rw [hrecheck, Unverified.ofRecheck, Result.ok, herrors]
  rfl

/-- Discharging `Q` where a remaining hypothesis, the universal rule, `Q` itself and modus ponens
justify one line each. -/
theorem Proof.deduction_theorem_generalization :
    ∃ p w s r, Proof.read "Q->P(x),Q|-@xP(x)" ["Q->P(x)", "Q->@xP(x)", "Q", "@xP(x)"] = .ok p ∧
      (p.check true).errors = [] ∧ (p.check true).discharge {} = .ok w ∧
      Sequent.parse w.header = .ok s ∧
      s.hypotheses.map Statement.formula =
        [.implies (.predicate "Q" []) (.predicate "P" [.var "x"])] ∧
      s.goal.formula = .implies (.predicate "Q" []) (.forAll "x" (.predicate "P" [.var "x"])) ∧
      w.recheck = .ok r ∧ r.errors = [] ∧ Unverified.ofRecheck w.recheck = none := by
  have hrun : (Proof.read "Q->P(x),Q|-@xP(x)" ["Q->P(x)", "Q->@xP(x)", "Q", "@xP(x)"]).map
      (fun p => (p.hypotheses, p.last?, (p.check true).errors)) =
        .ok ([.implies (.predicate "Q" []) (.predicate "P" [.var "x"]), .predicate "Q" []],
          some (.forAll "x" (.predicate "P" [.var "x"])), []) := by
    cbv
  obtain ⟨p, hp, heq⟩ := exists_of_map_eq_ok hrun
  simp only [Prod.mk.injEq] at heq
  obtain ⟨hhyps, hlast, herrors⟩ := heq
  have hh : p.hypotheses.getLast? = some (.predicate "Q" []) := by rw [hhyps]; rfl
  obtain ⟨f, w, -, hf, hw, ⟨s, hs, hsh, hsg⟩, -, -, -, r, hr⟩ :=
    deduction_theorem (t := {}) hp hh herrors rfl
  rw [hlast] at hf
  cases hf
  rw [hhyps] at hsh
  exact ⟨p, w, s, r, hp, herrors, hw, hs, hsh, hsg, hr⟩

end Sequitur
