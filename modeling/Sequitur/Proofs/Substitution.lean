import Mathlib
import Sequitur.Substitution
import Sequitur.Proofs.FreeVariables
import Sequitur.Proofs.Readability

/-!
# Substitution

`e.subst x t` is `e` with the tree `t` in place of the free occurrences of `x`, and
`t.CapturedIn x e` says that one of them lies in the scope of a quantifier over a variable of `t`.
The two walks of `Substitution` decide just this on well-formed trees. The first succeeds where the
instance is the template and `x` is not free in it, or is the template with one tree in place of
`x`, which it returns (`locate_eq_some_iff`). The second, run on a template and its instance, tells
whether the term is captured (`captured_eq_true_iff`). Together they give the verdict of
`Substitution.check`, and on formulas it is a term that is found and reported.

Both walks go over the subtrees of the root one after the other, so both specifications are about
lists of trees, and a tree follows from its list of subtrees.
-/

namespace Sequitur

/-! ## The root of a tree -/

/-- The kinds of trees with a left and a right side. -/
def Kind.isBinary : Kind → Bool
  | .implication | .disjunction | .conjunction | .equality | .sum | .product => true
  | _ => false

/-- A quantifier has no two sides. -/
theorem Kind.isQuantifier_of_isBinary {k : Kind} (h : k.isBinary = true) :
    k.isQuantifier = false := by
  cases k with
  | universal | existential => cases h
  | _ => rfl

namespace Expr

/-- The kind at the root is one that its constructor is for. -/
def Rooted : Expr → Prop
  | .binary k _ _ => k.isBinary = true
  | .quantified k _ _ => k.isQuantifier = true
  | _ => True

/-- The root of a well-formed tree has a kind that its constructor is for. -/
theorem WellFormed.rooted {e : Expr} (h : e.WellFormed) : e.Rooted := by
  rcases h with h | h <;> cases h <;> trivial

/-- The subtrees of a well-formed tree are well-formed. -/
theorem WellFormed.of_mem_children {e c : Expr} (h : e.WellFormed) (hc : c ∈ e.children) :
    c.WellFormed := by
  rcases h with h | h
  · cases h with
    | equals hs ht =>
      rcases List.mem_pair.1 hc with rfl | rfl
      exacts [.inr hs, .inr ht]
    | predicate _ hargs => exact .inr (hargs c hc)
    | negation ha | forAll _ ha | exist _ ha =>
      rw [List.mem_singleton.1 hc]
      exact .inl ha
    | implies ha hb | or ha hb | and ha hb =>
      rcases List.mem_pair.1 hc with rfl | rfl
      exacts [.inl ha, .inl hb]
  · cases h with
    | var | zero => cases hc
    | successor ht =>
      rw [List.mem_singleton.1 hc]
      exact .inr ht
    | plus hs ht | times hs ht =>
      rcases List.mem_pair.1 hc with rfl | rfl
      exacts [.inr hs, .inr ht]
    | function _ _ hargs => exact .inr (hargs c hc)

/-- A tree is what its root and its subtrees are. -/
theorem Rooted.ext {a b : Expr} (ha : a.Rooted) (hb : b.Rooted) (hk : a.kind = b.kind)
    (hn : a.name = b.name) (hc : a.children = b.children) : a = b := by
  cases a <;> cases b <;> grind [Rooted, kind, name, children, Kind.isBinary, Kind.isQuantifier]

/-- A tree whose kind is that of a variable is one. -/
theorem Rooted.eq_var {e : Expr} (h : e.Rooted) (hk : e.kind = .var) : e = .var e.name := by
  cases e <;> grind [Rooted, kind, name, Kind.isBinary, Kind.isQuantifier]

/-! ## Substitution -/

mutual

/-- The tree with `t` in place of the free occurrences of `x`. -/
def subst : Expr → Text → Expr → Expr
  | .binary k l r, x, t => .binary k (l.subst x t) (r.subst x t)
  | .negation a, x, t => .negation (a.subst x t)
  | .successor a, x, t => .successor (a.subst x t)
  | .quantified k y b, x, t => .quantified k y (if y = x then b else b.subst x t)
  | .predicate p args, x, t => .predicate p (substAll args x t)
  | .function f args, x, t => .function f (substAll args x t)
  | .var y, x, t => if y = x then t else .var y
  | .zero, _, _ => .zero

/-- Substitution in several trees. -/
def substAll : List Expr → Text → Expr → List Expr
  | [], _, _ => []
  | e :: rest, x, t => e.subst x t :: substAll rest x t

end

theorem substAll_eq_map (es : List Expr) (x : Text) (t : Expr) :
    substAll es x t = es.map (·.subst x t) := by
  induction es with
  | nil => rfl
  | cons e es ih => exact congrArg (e.subst x t :: ·) ih

theorem subst_var (x : Text) (t : Expr) : (var x).subst x t = t := if_pos rfl

theorem subst_quantified_of_ne {k : Kind} {x y : Text} (h : y ≠ x) (b t : Expr) :
    (quantified k y b).subst x t = .quantified k y (b.subst x t) :=
  congrArg (quantified k y) (if_neg h)

section
variable {x : Text} {t e : Expr}

/-- Substitution stops at a quantifier over the name. -/
theorem Rooted.subst_of_binds (h : e.Rooted) (hb : e.Binds x) : e.subst x t = e := by
  obtain ⟨hq, rfl⟩ := hb
  cases e with
  | quantified k y b => exact congrArg (quantified k y) (if_pos rfl)
  | binary k l r => exact absurd hq (by simp [kind, Kind.isQuantifier_of_isBinary h])
  | _ => cases hq

/-- Below a root that is neither `x` nor a quantifier over it, substitution is in the subtrees. -/
theorem Rooted.subst_root (h : e.Rooted) (hb : ¬ e.Binds x) (hx : ¬ (e.kind = .var ∧ e.name = x)) :
    (e.subst x t).Rooted ∧ (e.subst x t).kind = e.kind ∧ (e.subst x t).name = e.name ∧
      (e.subst x t).children = e.children.map (·.subst x t) := by
  cases e with
  | quantified k y b =>
    have hy : y ≠ x := fun hy => hb ⟨h, hy⟩
    exact ⟨h, rfl, rfl, congrArg ([·]) (if_neg hy)⟩
  | var y =>
    have hy : y ≠ x := fun hy => hx ⟨rfl, hy⟩
    have hs : (var y).subst x t = .var y := if_neg hy
    rw [hs]
    exact ⟨trivial, rfl, rfl, rfl⟩
  | predicate p args | function f args => exact ⟨trivial, rfl, rfl, substAll_eq_map args x t⟩
  | _ => exact ⟨h, rfl, rfl, rfl⟩

/-- Where `x` is not free there is nothing to put `t` for. -/
theorem WellFormed.subst_of_not_free (h : e.WellFormed) (hx : ¬ e.Free x) : e.subst x t = e := by
  induction e using induction_children with
  | node e ih =>
    have hr := h.rooted
    by_cases hb : e.Binds x
    · exact hr.subst_of_binds hb
    by_cases hv : e.kind = .var ∧ e.name = x
    · exact absurd (.var hv.1 hv.2) hx
    obtain ⟨hr', hk, hn, hc⟩ := hr.subst_root (t := t) hb hv
    refine hr'.ext hr hk hn (hc.trans ?_)
    rw [List.map_congr_left (g := id), List.map_id]
    intro c hmem
    have hkind : e.kind ≠ .var := by
      intro hkind
      rw [hr.eq_var hkind] at hmem
      cases hmem
    exact ih c hmem (h.of_mem_children hmem) fun hf => hx (.inside hkind hb hmem hf)

/-- Substitution leaves trees in which the name is not free. -/
theorem map_subst_of_not_free {es : List Expr} (h : ∀ e ∈ es, e.WellFormed)
    (hx : ∀ e ∈ es, ¬ e.Free x) : es.map (·.subst x t) = es := by
  rw [List.map_congr_left (g := id), List.map_id]
  exact fun e he => (h e he).subst_of_not_free (hx e he)

/-- A term with a term substituted in it is a term. -/
theorem IsTerm.subst (h : e.IsTerm) (ht : t.IsTerm) : (e.subst x t).IsTerm := by
  induction h with
  | @var y hy =>
    show (if y = x then t else .var y).IsTerm
    split
    · exact ht
    · exact .var hy
  | zero => exact .zero
  | successor _ ih => exact .successor ih
  | plus _ _ ihs iht => exact .plus ihs iht
  | times _ _ ihs iht => exact .times ihs iht
  | @function f args hf hargs _ ih =>
    show (Expr.function f (substAll args x t)).IsTerm
    rw [substAll_eq_map]
    exact .function hf (by simpa using hargs) (by simpa using ih)

/-- A formula with a term substituted in it is a formula. -/
theorem IsFormula.subst (h : e.IsFormula) (ht : t.IsTerm) : (e.subst x t).IsFormula := by
  induction h with
  | equals hl hr => exact .equals (hl.subst ht) (hr.subst ht)
  | @predicate p args hp hargs =>
    show (Expr.predicate p (substAll args x t)).IsFormula
    rw [substAll_eq_map]
    exact .predicate hp (by simpa using fun a ha => (hargs a ha).subst ht)
  | negation _ ih => exact .negation ih
  | implies _ _ iha ihb => exact .implies iha ihb
  | or _ _ iha ihb => exact .or iha ihb
  | and _ _ iha ihb => exact .and iha ihb
  | @forAll y a hy ha ih =>
    show (Expr.forAll y (if y = x then a else a.subst x t)).IsFormula
    split
    · exact .forAll hy ha
    · exact .forAll hy ih
  | @exist y a hy ha ih =>
    show (Expr.exist y (if y = x then a else a.subst x t)).IsFormula
    split
    · exact .exist hy ha
    · exact .exist hy ih

end

/-! ## Finding the term -/

end Expr

namespace Substitution

open Sequitur.Expr

/-- One step of the first walk, by the root of the tree. -/
theorem locate_eq_node (x : Text) (e inst : Expr) (found : Found) :
    locate x e inst found =
      node x e inst found fun is => locateAll x e.children is found := by
  cases e with
  | binary k l r =>
    refine congrArg (node x _ inst found) (funext fun is => ?_)
    match is with
    | [] => rfl
    | [i] => exact (Option.bind_fun_none _).symm
    | [i, j] =>
      refine Option.bind_congr fun f _ => ?_
      exact (Option.bind_fun_some _).symm
    | i :: j :: k :: is =>
      have hnone : ∀ f, (locate x r j f).bind (locateAll x [] (k :: is)) = none :=
        fun f => Option.bind_fun_none _
      exact ((Option.bind_congr fun f _ => hnone f).trans (Option.bind_fun_none _)).symm
  | negation a | successor a | quantified k y a =>
    refine congrArg (node x _ inst found) (funext fun is => ?_)
    match is with
    | [] => rfl
    | [i] => exact (Option.bind_fun_some _).symm
    | i :: j :: is => exact (Option.bind_fun_none _).symm
  | predicate p args | function f args => rfl
  | var y | zero =>
    refine congrArg (node x _ inst found) (funext fun is => ?_)
    cases is <;> rfl

/-- The trees `is` are the trees `es` with one tree in place of `x`. It is the tree found before,
if any, and found now; where `x` is free nowhere nothing is found. -/
def LocatedAs (x : Text) (es is : List Expr) (found found' : Found) : Prop :=
  (∀ e ∈ es, ¬ e.Free x) ∧ is = es ∧ found' = found ∨
    (∃ e ∈ es, e.Free x) ∧ ∃ t : Expr, t.WellFormed ∧ found' = some t ∧ (∀ s ∈ found, s = t) ∧
      is = es.map (·.subst x t)

theorem locatedAs_nil {x : Text} {is : List Expr} {found found' : Found} :
    LocatedAs x [] is found found' ↔ is = [] ∧ found' = found := by
  simp [LocatedAs]

/-- One pair of trees after the other. -/
theorem locatedAs_cons {x : Text} {e i : Expr} {es is : List Expr} {found found' : Found}
    (he : e.WellFormed) (hes : ∀ e ∈ es, e.WellFormed) :
    LocatedAs x (e :: es) (i :: is) found found' ↔
      ∃ f, LocatedAs x [e] [i] found f ∧ LocatedAs x es is f found' := by
  constructor
  · rintro (⟨hfree, his, rfl⟩ | ⟨⟨c, hc, hfree⟩, t, ht, rfl, hfound, his⟩)
    · obtain ⟨rfl, rfl⟩ := List.cons.inj his
      exact ⟨found', .inl ⟨fun c hc => hfree c (by simp_all), rfl, rfl⟩,
        .inl ⟨fun c hc => hfree c (by simp [hc]), rfl, rfl⟩⟩
    · obtain ⟨rfl, rfl⟩ := List.cons.inj his
      by_cases hx : e.Free x
      · refine ⟨some t, .inr ⟨⟨e, by simp, hx⟩, t, ht, rfl, hfound, rfl⟩, ?_⟩
        by_cases hn : ∃ c ∈ es, c.Free x
        · exact .inr ⟨hn, t, ht, rfl, by simp, rfl⟩
        · push Not at hn
          exact .inl ⟨hn, map_subst_of_not_free hes hn, rfl⟩
      · refine ⟨found, .inl ⟨by simpa using hx, ?_, rfl⟩, .inr ⟨?_, t, ht, rfl, hfound, rfl⟩⟩
        · exact congrArg ([·]) (he.subst_of_not_free hx)
        · rcases List.mem_cons.1 hc with rfl | hc
          · exact absurd hfree hx
          · exact ⟨c, hc, hfree⟩
  · rintro ⟨f, hhead, htail⟩
    rcases hhead with ⟨hx, hi, rfl⟩ | ⟨hx, t, ht, rfl, hfound, hi⟩
    · obtain ⟨rfl, -⟩ := List.cons.inj hi
      have hx : ¬ i.Free x := hx i (by simp)
      rcases htail with ⟨hn, rfl, rfl⟩ | ⟨⟨c, hc, hfree⟩, t, ht, rfl, hfound, rfl⟩
      · exact .inl ⟨by simpa using ⟨hx, hn⟩, rfl, rfl⟩
      · refine .inr ⟨⟨c, by simp [hc], hfree⟩, t, ht, rfl, hfound, ?_⟩
        rw [List.map_cons, he.subst_of_not_free hx]
    · obtain ⟨rfl, -⟩ := List.cons.inj hi
      have hx : e.Free x := by simpa using hx
      rcases htail with ⟨hn, rfl, rfl⟩ | ⟨-, s, hs, rfl, hst, rfl⟩
      · refine .inr ⟨⟨e, by simp, hx⟩, t, ht, rfl, hfound, ?_⟩
        rw [List.map_cons, map_subst_of_not_free hes hn]
      · obtain rfl := hst t rfl
        exact .inr ⟨⟨e, by simp, hx⟩, t, ht, rfl, hfound, rfl⟩

section
variable {x : Text} {e inst : Expr} {found found' : Found}

/-- Where the name is not free, the instance is the tree itself and nothing is found. -/
theorem locatedAs_of_not_free (hx : ¬ e.Free x) :
    LocatedAs x [e] [inst] found found' ↔ inst = e ∧ found' = found := by
  simp [LocatedAs, hx]

/-- Where the name is free, the instance is the tree with what is found in place of the name. -/
theorem locatedAs_of_free (hx : e.Free x) :
    LocatedAs x [e] [inst] found found' ↔ ∃ t : Expr, t.WellFormed ∧ found' = some t ∧
      (∀ s ∈ found, s = t) ∧ inst = e.subst x t := by
  simp [LocatedAs, hx]

/-- Below a root that is neither `x` nor a quantifier over it, the free occurrences are in the
subtrees. -/
theorem free_iff_children (h : e.Rooted) (hb : ¬ e.Binds x)
    (hv : ¬ (e.kind = .var ∧ e.name = x)) : e.Free x ↔ ∃ c ∈ e.children, c.Free x := by
  have hchildren : e.kind = .var → e.children = [] := by
    intro hk
    rw [h.eq_var hk]
    rfl
  rw [free_iff]
  constructor
  · rintro (hvar | ⟨-, -, hc⟩)
    · exact absurd hvar hv
    · exact hc
  · intro hc
    refine .inr ⟨fun hk => ?_, hb, hc⟩
    simp [hchildren hk] at hc

/-- An instance of a tree has the same root, and its subtrees are instances. -/
theorem locatedAs_iff_children (he : e.WellFormed) (hi : inst.WellFormed) (hb : ¬ e.Binds x)
    (hv : ¬ (e.kind = .var ∧ e.name = x)) :
    LocatedAs x [e] [inst] found found' ↔
      (e.kind = inst.kind ∧ e.name = inst.name) ∧
        LocatedAs x e.children inst.children found found' := by
  have hfree := free_iff_children he.rooted hb hv
  by_cases hx : e.Free x
  · have hsub := hfree.1 hx
    rw [locatedAs_of_free hx]
    constructor
    · rintro ⟨t, ht, hf, hfound, rfl⟩
      obtain ⟨-, hk, hn, hc⟩ := he.rooted.subst_root (t := t) hb hv
      exact ⟨⟨hk.symm, hn.symm⟩, .inr ⟨hsub, t, ht, hf, hfound, hc⟩⟩
    · rintro ⟨⟨hk, hn⟩, ⟨hnot, -⟩ | ⟨-, t, ht, hf, hfound, hc⟩⟩
      · obtain ⟨c, hmem, hcx⟩ := hsub
        exact absurd hcx (hnot c hmem)
      · obtain ⟨hr, hk', hn', hc'⟩ := he.rooted.subst_root (t := t) hb hv
        refine ⟨t, ht, hf, hfound, hi.rooted.ext hr ?_ ?_ ?_⟩
        · rw [hk', hk]
        · rw [hn', hn]
        · rw [hc', hc]
  · have hsub : ∀ c ∈ e.children, ¬ c.Free x := fun c hc hcx => hx (hfree.2 ⟨c, hc, hcx⟩)
    rw [locatedAs_of_not_free hx]
    constructor
    · rintro ⟨rfl, rfl⟩
      exact ⟨⟨rfl, rfl⟩, .inl ⟨hsub, rfl, rfl⟩⟩
    · rintro ⟨⟨hk, hn⟩, ⟨-, hc, rfl⟩ | ⟨⟨c, hmem, hcx⟩, -⟩⟩
      · exact ⟨hi.rooted.ext he.rooted hk.symm hn.symm hc, rfl⟩
      · exact absurd hcx (hsub c hmem)

/-- The first walk on one tree, for every instance of it and every tree found before. -/
def Locating (x : Text) (e : Expr) : Prop :=
  ∀ (inst : Expr) (found found' : Found), inst.WellFormed → (∀ s ∈ found, s.WellFormed) →
    (locate x e inst found = some found' ↔ LocatedAs x [e] [inst] found found')

/-- The first walk over several trees finds what is in place of the name, if it does so in each of
them. -/
theorem locateAll_eq_some_iff {es is : List Expr} (hes : ∀ e ∈ es, e.WellFormed)
    (his : ∀ i ∈ is, i.WellFormed) (hf : ∀ s ∈ found, s.WellFormed)
    (h : ∀ e ∈ es, Locating x e) :
    locateAll x es is found = some found' ↔ LocatedAs x es is found found' := by
  induction es generalizing is found with
  | nil =>
    rw [locatedAs_nil]
    cases is with
    | nil => simp [locateAll, eq_comm]
    | cons i is => simp [locateAll]
  | cons e es ih =>
    cases is with
    | nil => simp [locateAll, LocatedAs]
    | cons i is =>
      have hes' : ∀ c ∈ es, c.WellFormed := fun c hc => hes c (by simp [hc])
      have his' : ∀ c ∈ is, c.WellFormed := fun c hc => his c (by simp [hc])
      have hwf (f : Found) (hlocated : LocatedAs x [e] [i] found f) : ∀ s ∈ f, s.WellFormed := by
        rcases hlocated with ⟨-, -, rfl⟩ | ⟨-, t, ht, rfl, -⟩
        · exact hf
        · rintro s ⟨⟩
          exact ht
      have hhead (f : Found) := h e (by simp) i found f (his i (by simp)) hf
      rw [locatedAs_cons (hes e (by simp)) hes']
      show (locate x e i found).bind (locateAll x es is) = some found' ↔ _
      rw [Option.bind_eq_some_iff]
      refine exists_congr fun f => ?_
      rw [hhead f]
      exact and_congr_right fun hlocated =>
        ih hes' his' (hwf f hlocated) fun c hc => h c (by simp [hc])

/-- The first walk succeeds on the instances of a template, with the tree that stands for `x`. -/
theorem locate_eq_some_iff (he : e.WellFormed) : Locating x e := by
  induction e using induction_children with
  | node e ih =>
    intro inst found found' hi hf
    rw [locate_eq_node]
    unfold node
    split
    · next hb =>
      rw [locatedAs_of_not_free (not_free_of_binds hb)]
      have hsame := same_iff he hi
      split
      · next hs => simp [hsame.1 hs, eq_comm]
      · next hs =>
        have hne : inst ≠ e := fun heq => hs (hsame.2 heq.symm)
        simp [hne]
    · next hb =>
      split
      · next hv =>
        obtain rfl : e = .var x := (he.rooted.eq_var hv.1).trans (congrArg Expr.var hv.2)
        have hlocated : LocatedAs x [.var x] [inst] found found' ↔
            found' = some inst ∧ ∀ s ∈ found, s = inst := by
          rw [locatedAs_of_free (.var hv.1 hv.2)]
          constructor
          · rintro ⟨t, -, rfl, hfound, hinst⟩
            rw [subst_var] at hinst
            exact ⟨congrArg some hinst.symm, hinst ▸ hfound⟩
          · rintro ⟨rfl, hfound⟩
            exact ⟨inst, hi, rfl, hfound, (subst_var x inst).symm⟩
        rw [hlocated]
        cases found with
        | none => simp [eq_comm]
        | some t =>
          have hsame := same_iff (hf t rfl) hi
          by_cases hti : t = inst
          · subst hti
            simp [hsame.2 rfl, eq_comm]
          · simp [mt hsame.1 hti, hti]
      · next hv =>
        rw [locatedAs_iff_children he hi hb hv]
        split
        · next hroot =>
          rw [locateAll_eq_some_iff (fun c hc => he.of_mem_children hc)
            (fun c hc => hi.of_mem_children hc) hf
            fun c hc => ih c hc (he.of_mem_children hc)]
          simp [hroot]
        · next hroot => simp [hroot]

end

/-! ## Capture -/

end Substitution

namespace Expr

/-- A free occurrence of `x` lies in the scope of a quantifier over a variable of `t`. -/
inductive CapturedIn (t : Expr) (x : Text) : Expr → Prop
  | scope {e c} : e.kind.isQuantifier = true → e.name ≠ x → t.Free e.name → c ∈ e.children →
      c.Free x → CapturedIn t x e
  | inside {e c} : ¬ e.Binds x → c ∈ e.children → CapturedIn t x c → CapturedIn t x e

/-- Capture read off from the root: by the root's own quantifier, or inside a subtree. -/
theorem capturedIn_iff {x : Text} {t e : Expr} : t.CapturedIn x e ↔ ¬ e.Binds x ∧
    ∃ c ∈ e.children, e.kind.isQuantifier = true ∧ t.Free e.name ∧ c.Free x ∨
      t.CapturedIn x c := by
  constructor
  · intro h
    cases h with
    | scope hq hn ht hc hx => exact ⟨fun hb => hn hb.2, _, hc, .inl ⟨hq, ht, hx⟩⟩
    | inside hb hc h => exact ⟨hb, _, hc, .inr h⟩
  · rintro ⟨hb, c, hc, ⟨hq, ht, hx⟩ | h⟩
    · exact .scope hq (fun hn => hb ⟨hq, hn⟩) ht hc hx
    · exact .inside hb hc h

end Expr

namespace Substitution

open Sequitur.Expr

/-- One step of the second walk depends on the walk below only at the subtrees of the instance. -/
theorem capturedNode_congr {x : Text} {names scope : List Text} {e inst : Expr}
    {below below' : List Text → List Expr → Bool}
    (h : ∀ scope, below scope inst.children = below' scope inst.children) :
    capturedNode x names scope e inst below = capturedNode x names scope e inst below' := by
  simp only [capturedNode, h]

/-- One step of the second walk, by the root of the tree. -/
theorem captured_eq_node (x : Text) (names scope : List Text) {e inst : Expr}
    (h : inst.children.length = e.children.length) :
    captured x names scope e inst =
      capturedNode x names scope e inst fun scope is =>
        capturedAny x names scope e.children is := by
  cases e with
  | binary k l r =>
    obtain ⟨i, j, hij⟩ := List.length_eq_two.1 h
    refine capturedNode_congr fun scope => ?_
    rw [hij]
    simp [children, capturedAny]
  | negation a | successor a | quantified k y a =>
    obtain ⟨i, hi⟩ := List.length_eq_one_iff.1 h
    refine capturedNode_congr fun scope => ?_
    rw [hi]
    simp [children, capturedAny]
  | predicate p args | function f args | var y | zero => rfl

/-- The second walk finds a captured term among several trees when it finds one in some tree. -/
theorem capturedAny_map (x : Text) (names scope : List Text) (es : List Expr) (f : Expr → Expr) :
    capturedAny x names scope es (es.map f) = true ↔
      ∃ e ∈ es, captured x names scope e (f e) = true := by
  induction es with
  | nil => simp [capturedAny]
  | cons e es ih => simp [capturedAny, ih]

/-- On a template and its instance the second walk tells whether the term is captured, by a
quantifier in the template or by one in whose scope the template stands. -/
theorem captured_eq_true_iff {x : Text} {t e : Expr} {names : List Text}
    (hnames : ∀ y, y ∈ names ↔ t.Free y) (he : e.WellFormed) (scope : List Text) :
    captured x names scope e (e.subst x t) = true ↔
      (e.Free x ∧ ∃ y ∈ scope, t.Free y) ∨ t.CapturedIn x e := by
  induction e using induction_children generalizing scope with
  | node e ih =>
    have hr := he.rooted
    by_cases hb : e.Binds x
    · have hlength : (e.subst x t).children.length = e.children.length := by
        rw [hr.subst_of_binds hb]
      rw [captured_eq_node x names scope hlength, capturedNode, if_pos hb, capturedIn_iff]
      simp [not_free_of_binds hb, hb]
    by_cases hv : e.kind = .var ∧ e.name = x
    · obtain rfl : e = .var x := (hr.eq_var hv.1).trans (congrArg Expr.var hv.2)
      have hfree : (Expr.var x).Free x := .var hv.1 hv.2
      have hcaptured : ¬ t.CapturedIn x (.var x) := by
        rw [capturedIn_iff]
        simp [children]
      show capturedNode x names scope (.var x) _ _ = true ↔ _
      rw [capturedNode, if_neg hb, if_pos hv]
      simp only [hfree, hcaptured, List.any_eq_true, List.contains_iff_mem, hnames, true_and,
        or_false]
      exact exists_congr fun y => and_comm
    · obtain ⟨-, hk, hn, hc⟩ := hr.subst_root (t := t) hb hv
      have hlength : (e.subst x t).children.length = e.children.length := by
        rw [hc, List.length_map]
      rw [captured_eq_node x names scope hlength, capturedNode, if_neg hb, if_neg hv, hc, hk, hn,
        capturedAny_map, free_iff_children hr hb hv, capturedIn_iff]
      have hstep (c : Expr) (hmem : c ∈ e.children) :=
        ih c hmem (he.of_mem_children hmem)
          (if e.kind.isQuantifier = true then e.name :: scope else scope)
      constructor
      · rintro ⟨c, hmem, hcap⟩
        rcases (hstep c hmem).1 hcap with ⟨hx, y, hy, hty⟩ | hcap
        · split at hy
          · next hq =>
            rcases List.mem_cons.1 hy with rfl | hy
            · exact .inr ⟨hb, c, hmem, .inl ⟨hq, hty, hx⟩⟩
            · exact .inl ⟨⟨c, hmem, hx⟩, y, hy, hty⟩
          · exact .inl ⟨⟨c, hmem, hx⟩, y, hy, hty⟩
        · exact .inr ⟨hb, c, hmem, .inr hcap⟩
      · rintro (⟨⟨c, hmem, hx⟩, y, hy, hty⟩ | ⟨-, c, hmem, ⟨hq, hty, hx⟩ | hcap⟩)
        · refine ⟨c, hmem, (hstep c hmem).2 (.inl ⟨hx, y, ?_, hty⟩)⟩
          split
          · exact List.mem_cons_of_mem _ hy
          · exact hy
        · refine ⟨c, hmem, (hstep c hmem).2 (.inl ⟨hx, e.name, ?_, hty⟩)⟩
          rw [if_pos hq]
          exact List.mem_cons_self
        · exact ⟨c, hmem, (hstep c hmem).2 (.inr hcap)⟩

/-- A tree with no free variable but `x` is not captured where it stands for `x`. -/
theorem not_capturedIn {x : Text} {t : Expr} (ht : ∀ y, t.Free y → y = x) (e : Expr) :
    ¬ t.CapturedIn x e := by
  intro h
  induction h with
  | scope _ hne hfree => exact hne (ht _ hfree)
  | inside _ _ _ ih => exact ih

/-- Zero has no free variable. -/
theorem not_free_zero (y : Text) : ¬ Expr.zero.Free y := by
  rw [free_iff]
  simp [kind, children]

section
variable {x : Text} {t e inst : Expr}

/-- Where the name is not free, the first walk succeeds on the tree itself only. -/
theorem locate_of_not_free (he : e.WellFormed) (hi : inst.WellFormed) (hx : ¬ e.Free x)
    (found' : Found) : locate x e inst none = some found' ↔ inst = e ∧ found' = none := by
  rw [locate_eq_some_iff he inst none found' hi (by simp), locatedAs_of_not_free hx]

/-- Where the name is free, the first walk succeeds on the instances and finds their term. -/
theorem locate_of_free (he : e.WellFormed) (hi : inst.WellFormed) (hx : e.Free x)
    (found' : Found) : locate x e inst none = some found' ↔
      ∃ t : Expr, t.WellFormed ∧ found' = some t ∧ inst = e.subst x t := by
  rw [locate_eq_some_iff he inst none found' hi (by simp), locatedAs_of_free hx]
  simp

/-- Where the name is not free, the only instance that is accepted is the tree itself. -/
theorem check_of_not_free (he : e.WellFormed) (hi : inst.WellFormed) (hx : ¬ e.Free x) :
    check e inst x = .ok true ↔ inst = e := by
  have hlocate := locate_of_not_free he hi hx
  unfold check
  split
  · next hnone =>
    refine iff_of_false (by simp) fun hinst => ?_
    have hsome := (hlocate none).2 ⟨hinst, rfl⟩
    rw [hnone] at hsome
    cases hsome
  · next hsome => exact iff_of_true rfl ((hlocate none).1 hsome).1
  · next t hsome => cases ((hlocate (some t)).1 hsome).2

/-- A tree that stands in the place of a free variable is the only one that does. -/
theorem eq_of_subst_eq (he : e.WellFormed) (hi : (e.subst x t).WellFormed) (hx : e.Free x)
    (ht : t.WellFormed) {s : Expr} (hs : s.WellFormed) (heq : e.subst x t = e.subst x s) :
    s = t := by
  have hlocate := locate_of_free he hi hx
  have hsome := (hlocate (some t)).2 ⟨t, ht, rfl, rfl⟩
  rw [(hlocate (some s)).2 ⟨s, hs, rfl, heq⟩] at hsome
  exact Option.some.inj (Option.some.inj hsome)

/-- Where the name is free, the instances that are accepted are those in which no term is
captured. -/
theorem check_of_free (he : e.WellFormed) (hi : inst.WellFormed) (hx : e.Free x) :
    check e inst x = .ok true ↔
      ∃ t : Expr, t.WellFormed ∧ inst = e.subst x t ∧ ¬ t.CapturedIn x e := by
  have hlocate := locate_of_free he hi hx
  unfold check
  split
  · next hnone =>
    refine iff_of_false (by simp) ?_
    rintro ⟨t, ht, hinst, -⟩
    have hsome := (hlocate (some t)).2 ⟨t, ht, rfl, hinst⟩
    rw [hnone] at hsome
    cases hsome
  · next hsome =>
    obtain ⟨t, -, ht, -⟩ := (hlocate none).1 hsome
    cases ht
  · next t hsome =>
    obtain ⟨_, ht, ⟨⟩, rfl⟩ := (hlocate (some t)).1 hsome
    have hcaptured := captured_eq_true_iff (x := x) (e := e)
      (fun y => mem_freeVariables (e := t)) he []
    dsimp only
    split
    · next hempty =>
      have hclosed : ∀ y, ¬ t.Free y := by
        intro y hy
        rw [← mem_freeVariables, List.isEmpty_iff.1 hempty] at hy
        cases hy
      exact iff_of_true rfl ⟨t, ht, rfl, not_capturedIn (fun y hy => absurd hy (hclosed y)) e⟩
    · split
      · next hcap =>
        refine iff_of_false (by simp) ?_
        rintro ⟨s, hs, heq, hnot⟩
        rw [eq_of_subst_eq he hi hx ht hs heq] at hnot
        rw [hcaptured] at hcap
        simp [hnot] at hcap
      · next hcap =>
        rw [hcaptured] at hcap
        exact iff_of_true rfl ⟨t, ht, rfl, fun h => hcap (.inr h)⟩

/-- The verdict on a template and an instance: where `x` is free in the template, one tree stands in
its place and is not captured, and elsewhere the two are the same. -/
theorem check_eq_ok_true_iff (he : e.WellFormed) (hi : inst.WellFormed) :
    check e inst x = .ok true ↔ ¬ e.Free x ∧ inst = e ∨
      e.Free x ∧ ∃ t : Expr, t.WellFormed ∧ inst = e.subst x t ∧ ¬ t.CapturedIn x e := by
  by_cases hx : e.Free x
  · simp [hx, check_of_free he hi hx]
  · simp [hx, check_of_not_free he hi hx]

/-- The same in one form: where `x` is not free, any tree can be put for it. -/
theorem check_eq_ok_true_iff_exists (he : e.WellFormed) (hi : inst.WellFormed) :
    check e inst x = .ok true ↔
      ∃ t : Expr, t.WellFormed ∧ inst = e.subst x t ∧ ¬ t.CapturedIn x e := by
  rw [check_eq_ok_true_iff he hi]
  by_cases hx : e.Free x
  · simp [hx]
  · simp only [hx, not_false_eq_true, true_and, false_and, or_false, he.subst_of_not_free hx]
    constructor
    · rintro rfl
      exact ⟨.zero, .inr .zero, rfl, not_capturedIn (fun y hy => absurd hy (not_free_zero y)) inst⟩
    · rintro ⟨t, -, rfl, -⟩
      rfl

/-- Only where `x` is free can a tree in its place be captured. -/
theorem free_of_capturedIn (he : e.WellFormed) (h : t.CapturedIn x e) : e.Free x := by
  induction h with
  | scope hq hne _ hc hx =>
    refine .inside (fun hk => ?_) (fun hb => hne hb.2) hc hx
    rw [hk] at hq
    cases hq
  | inside hb hc _ ih =>
    refine .inside (fun hk => ?_) hb hc (ih (he.of_mem_children hc))
    rw [he.rooted.eq_var hk] at hc
    cases hc

/-- It is an error that the tree in the place of `x` is captured, and the error names it. -/
theorem check_eq_error_iff (he : e.WellFormed) (hi : inst.WellFormed) {c : CaptureError} :
    check e inst x = .error c ↔ ∃ t : Expr, t.WellFormed ∧ inst = e.subst x t ∧
      t.CapturedIn x e ∧ c = ⟨t.canonical, inst.canonical, x⟩ := by
  have hcaptured (t : Expr) : captured x t.freeVariables [] e (e.subst x t) = true ↔
      t.CapturedIn x e := by
    rw [captured_eq_true_iff (fun y => mem_freeVariables) he []]
    simp
  constructor
  · intro h
    unfold check at h
    split at h
    · cases h
    · cases h
    · next t hlocate =>
      dsimp only at h
      split at h
      · cases h
      · split at h
        · next hcap =>
          cases h
          by_cases hx : e.Free x
          · obtain ⟨_, ht, ⟨⟩, rfl⟩ := (locate_of_free he hi hx (some t)).1 hlocate
            exact ⟨t, ht, rfl, (hcaptured t).1 hcap, rfl⟩
          · cases ((locate_of_not_free he hi hx (some t)).1 hlocate).2
        · cases h
  · rintro ⟨t, ht, rfl, hcap, rfl⟩
    have hx := free_of_capturedIn he hcap
    have hlocate := (locate_of_free he hi hx (some t)).2 ⟨t, ht, rfl, rfl⟩
    have hopen : t.freeVariables.isEmpty ≠ true := by
      intro hempty
      refine not_capturedIn (fun y hy => ?_) e hcap
      rw [← mem_freeVariables, List.isEmpty_iff.1 hempty] at hy
      cases hy
    unfold check
    simp only [hlocate, if_neg hopen, if_pos ((hcaptured t).2 hcap)]

end

end Substitution

/-! ## What stands in the place of a variable -/

namespace Expr

variable {x : Text} {t e : Expr}

/-- A name that is free in a tree other than a variable is free in a subtree. -/
theorem Free.exists_mem_children (h : e.Free x) (hk : e.kind ≠ .var) :
    ∃ c ∈ e.children, c.Free x := by
  cases h with
  | var hvar => exact absurd hvar hk
  | inside _ _ hc hx => exact ⟨_, hc, hx⟩

/-- In a term, what stands in the place of a free variable is a term. -/
theorem IsTerm.isTerm_of_subst (h : e.IsTerm) (hx : e.Free x) (hsubst : (e.subst x t).IsTerm) :
    t.IsTerm := by
  induction h with
  | @var y _ =>
    obtain ⟨-, rfl⟩ | ⟨hk, -⟩ := free_iff.1 hx
    · rwa [name, subst_var] at hsubst
    · exact absurd rfl hk
  | zero => exact absurd hx (Substitution.not_free_zero x)
  | successor _ ih =>
    obtain ⟨c, hc, hcx⟩ := hx.exists_mem_children (by simp [kind])
    obtain rfl := List.mem_singleton.1 hc
    cases hsubst with
    | successor hs => exact ih hcx hs
  | plus _ _ ihl ihr | times _ _ ihl ihr =>
    obtain ⟨c, hc, hcx⟩ := hx.exists_mem_children (by simp [kind])
    cases hsubst
    rcases List.mem_pair.1 hc with rfl | rfl
    · exact ihl hcx ‹_›
    · exact ihr hcx ‹_›
  | @function f args _ _ _ ih =>
    obtain ⟨c, hc, hcx⟩ := hx.exists_mem_children (by simp [kind])
    change (Expr.function f (substAll args x t)).IsTerm at hsubst
    rw [substAll_eq_map] at hsubst
    cases hsubst with
    | function _ _ hargs => exact ih c hc hcx (hargs _ (List.mem_map_of_mem hc))

/-- In a formula, what stands in the place of a free variable is a term. -/
theorem IsFormula.isTerm_of_subst (h : e.IsFormula) (hx : e.Free x)
    (hsubst : (e.subst x t).IsFormula) : t.IsTerm := by
  induction h with
  | equals hl hr =>
    obtain ⟨c, hc, hcx⟩ := hx.exists_mem_children (by simp [kind])
    cases hsubst with
    | equals hl' hr' =>
      rcases List.mem_pair.1 hc with rfl | rfl
      · exact hl.isTerm_of_subst hcx hl'
      · exact hr.isTerm_of_subst hcx hr'
  | @predicate p args _ hargs =>
    obtain ⟨c, hc, hcx⟩ := hx.exists_mem_children (by simp [kind])
    change (Expr.predicate p (substAll args x t)).IsFormula at hsubst
    rw [substAll_eq_map] at hsubst
    cases hsubst with
    | predicate _ hargs' =>
      exact (hargs c hc).isTerm_of_subst hcx (hargs' _ (List.mem_map_of_mem hc))
  | negation _ ih =>
    obtain ⟨c, hc, hcx⟩ := hx.exists_mem_children (by simp [kind])
    obtain rfl := List.mem_singleton.1 hc
    cases hsubst with
    | negation h => exact ih hcx h
  | implies _ _ ihl ihr | or _ _ ihl ihr | and _ _ ihl ihr =>
    obtain ⟨c, hc, hcx⟩ := hx.exists_mem_children (by simp [kind])
    cases hsubst
    rcases List.mem_pair.1 hc with rfl | rfl
    · exact ihl hcx ‹_›
    · exact ihr hcx ‹_›
  | @forAll y a _ _ ih | @exist y a _ _ ih =>
    have hy : y ≠ x := fun hy => not_free_of_binds (e := .quantified _ y a) ⟨rfl, hy⟩ hx
    obtain ⟨c, hc, hcx⟩ := hx.exists_mem_children (by simp [kind])
    obtain rfl := List.mem_singleton.1 hc
    rw [subst_quantified_of_ne hy] at hsubst
    cases hsubst
    exact ih hcx ‹_›

end Expr

namespace Substitution

open Sequitur.Expr

variable {x : Text} {e inst : Expr}

/-- Where a formula is an instance of another, it is one by a term. -/
theorem exists_isTerm {t : Expr} (he : e.IsFormula) (hi : (e.subst x t).IsFormula)
    (hcap : ¬ t.CapturedIn x e) :
    ∃ s : Expr, s.IsTerm ∧ e.subst x t = e.subst x s ∧ ¬ s.CapturedIn x e := by
  by_cases hx : e.Free x
  · exact ⟨t, he.isTerm_of_subst hx hi, rfl, hcap⟩
  · refine ⟨.zero, .zero, ?_, not_capturedIn (fun y hy => absurd hy (not_free_zero y)) e⟩
    rw [WellFormed.subst_of_not_free (.inl he) hx, WellFormed.subst_of_not_free (.inl he) hx]

/-- The verdict on formulas, where it is a term that stands in the place of `x`. -/
theorem check_eq_ok_true_iff_isTerm (he : e.IsFormula) (hi : inst.IsFormula) :
    check e inst x = .ok true ↔
      ∃ t : Expr, t.IsTerm ∧ inst = e.subst x t ∧ ¬ t.CapturedIn x e := by
  rw [check_eq_ok_true_iff_exists (.inl he) (.inl hi)]
  constructor
  · rintro ⟨t, -, rfl, hcap⟩
    exact exists_isTerm he hi hcap
  · rintro ⟨t, ht, hinst, hcap⟩
    exact ⟨t, .inr ht, hinst, hcap⟩

/-- A capture error on formulas is that of a term. -/
theorem exists_check_eq_error_iff (he : e.IsFormula) (hi : inst.IsFormula) :
    (∃ c, check e inst x = .error c) ↔
      ∃ t : Expr, t.IsTerm ∧ inst = e.subst x t ∧ t.CapturedIn x e := by
  constructor
  · rintro ⟨c, hc⟩
    obtain ⟨t, -, rfl, hcap, -⟩ := (check_eq_error_iff (.inl he) (.inl hi)).1 hc
    exact ⟨t, he.isTerm_of_subst (free_of_capturedIn (.inl he) hcap) hi, rfl, hcap⟩
  · rintro ⟨t, ht, hinst, hcap⟩
    exact ⟨_, (check_eq_error_iff (.inl he) (.inl hi)).2 ⟨t, .inr ht, hinst, hcap, rfl⟩⟩

/-! ## The verdict on formulas -/

/-- `x` is free in `e`, and `inst` is `e` with the term `t` in place of its free occurrences. -/
def IsInstanceBy (e inst : Expr) (x : Text) (t : Expr) : Prop :=
  e.Free x ∧ t.IsTerm ∧ inst = e.subst x t

section
variable {s t : Expr}

/-- Only a term can stand in the place of a free variable of a formula, and only one does. -/
theorem eq_of_isFormula_subst (he : e.IsFormula) (hi : inst.IsFormula) (hx : e.Free x)
    (ht : inst = e.subst x t) (hs : inst = e.subst x s) : t.IsTerm ∧ s = t := by
  have htterm := he.isTerm_of_subst hx (ht ▸ hi)
  have hsterm := he.isTerm_of_subst hx (hs ▸ hi)
  refine ⟨htterm, ?_⟩
  exact eq_of_subst_eq (.inl he) (.inl (ht ▸ hi)) hx (.inr htterm) (.inr hsterm) (ht ▸ hs)

/-- The first walk on two formulas finds the term by which one is an instance of the other. -/
theorem term?_eq_some_iff (he : e.IsFormula) (hi : inst.IsFormula) :
    term? e inst x = some t ↔ IsInstanceBy e inst x t := by
  rw [term?, Option.join_eq_some_iff]
  by_cases hx : e.Free x
  · rw [locate_of_free (.inl he) (.inl hi) hx]
    constructor
    · rintro ⟨s, -, ⟨⟩, rfl⟩
      exact ⟨hx, he.isTerm_of_subst hx hi, rfl⟩
    · rintro ⟨-, ht, hinst⟩
      exact ⟨t, .inr ht, rfl, hinst⟩
  · rw [locate_of_not_free (.inl he) (.inl hi) hx]
    simp [IsInstanceBy, hx]

/-- On formulas the check accepts the formula itself where the name is not free, and otherwise the
instances by a term that is not captured. -/
theorem check_eq_ok_true_iff_isInstanceBy (he : e.IsFormula) (hi : inst.IsFormula) :
    check e inst x = .ok true ↔
      (¬ e.Free x ∧ inst = e) ∨ ∃ t, IsInstanceBy e inst x t ∧ ¬ t.CapturedIn x e := by
  rw [check_eq_ok_true_iff (.inl he) (.inl hi)]
  refine or_congr_right ⟨?_, ?_⟩
  · rintro ⟨hx, t, -, rfl, hcap⟩
    exact ⟨t, ⟨hx, he.isTerm_of_subst hx hi, rfl⟩, hcap⟩
  · rintro ⟨t, ⟨hx, ht, hinst⟩, hcap⟩
    exact ⟨hx, t, .inr ht, hinst, hcap⟩

/-- On formulas the check reports exactly the instances by a term that is captured, and names the
term, the instance and the variable. -/
theorem check_eq_error_iff_isInstanceBy (he : e.IsFormula) (hi : inst.IsFormula)
    {c : CaptureError} : check e inst x = .error c ↔ ∃ t, IsInstanceBy e inst x t ∧
      t.CapturedIn x e ∧ c = { term := t.canonical, formula := inst.canonical, name := x } := by
  rw [check_eq_error_iff (.inl he) (.inl hi)]
  refine exists_congr fun t => ?_
  constructor
  · rintro ⟨-, rfl, hcap, hc⟩
    have hx := free_of_capturedIn (.inl he) hcap
    exact ⟨⟨hx, he.isTerm_of_subst hx hi, rfl⟩, hcap, hc⟩
  · rintro ⟨⟨-, ht, hinst⟩, hcap, hc⟩
    exact ⟨.inr ht, hinst, hcap, hc⟩

/-- An instance is never refused: it is accepted or its term is captured. -/
theorem check_eq_ok_false_iff (he : e.IsFormula) (hi : inst.IsFormula) :
    check e inst x = .ok false ↔
      ¬ (¬ e.Free x ∧ inst = e) ∧ ∀ t, ¬ IsInstanceBy e inst x t := by
  have htrue := check_eq_ok_true_iff_isInstanceBy (x := x) he hi
  have herror (c : CaptureError) := check_eq_error_iff_isInstanceBy (x := x) he hi (c := c)
  constructor
  · intro hfalse
    refine ⟨fun hsame => ?_, fun t ht => ?_⟩
    · cases hfalse.symm.trans (htrue.2 (.inl hsame))
    · by_cases hcap : t.CapturedIn x e
      · cases hfalse.symm.trans ((herror _).2 ⟨t, ht, hcap, rfl⟩)
      · cases hfalse.symm.trans (htrue.2 (.inr ⟨t, ht, hcap⟩))
  · rintro ⟨hsame, hinst⟩
    match hcheck : check e inst x with
    | .ok false => rfl
    | .ok true =>
      obtain h | ⟨t, ht, -⟩ := htrue.1 hcheck
      · exact absurd h hsame
      · exact absurd ht (hinst t)
    | .error c =>
      obtain ⟨t, ht, -⟩ := (herror c).1 hcheck
      exact absurd ht (hinst t)

end

/-- The check of two formulas decides capture-free substitution: it accepts an instance by a term
that is free for `x`, reports the term where it is captured, and refuses all else. The term is the
one tree that can stand in the place of `x`, and it is found whether or not it is captured. -/
theorem decides_capture_free (he : e.IsFormula) (hi : inst.IsFormula) (x : Text) :
    (check e inst x = .ok true ↔
      (¬ e.Free x ∧ inst = e) ∨ ∃ t, IsInstanceBy e inst x t ∧ ¬ t.CapturedIn x e) ∧
    (∀ c, check e inst x = .error c ↔ ∃ t, IsInstanceBy e inst x t ∧ t.CapturedIn x e ∧
      c = { term := t.canonical, formula := inst.canonical, name := x }) ∧
    (check e inst x = .ok false ↔
      ¬ (¬ e.Free x ∧ inst = e) ∧ ∀ t, ¬ IsInstanceBy e inst x t) ∧
    (∀ t, term? e inst x = some t ↔ IsInstanceBy e inst x t) ∧
    (term? e inst x = none ↔ ∀ t, ¬ IsInstanceBy e inst x t) ∧
    ∀ s t, e.Free x → inst = e.subst x t → inst = e.subst x s → t.IsTerm ∧ s = t := by
  refine ⟨check_eq_ok_true_iff_isInstanceBy he hi, fun c => check_eq_error_iff_isInstanceBy he hi,
    check_eq_ok_false_iff he hi, fun t => term?_eq_some_iff he hi, ?_,
    fun s t hx => eq_of_isFormula_subst he hi hx⟩
  rw [Option.eq_none_iff_forall_ne_some]
  exact forall_congr' fun t => not_congr (term?_eq_some_iff he hi)

/-- The scope of the quantifier over `x` is left as it is, and the term that stands for the free
occurrences is captured. -/
theorem decides_capture_free_successor :
    check
        (.implies (.forAll "x" (.predicate "P" [.var "x"]))
          (.exist "y" (.equals (.var "x") (.plus (.var "y") (.var "x")))))
        (.implies (.forAll "x" (.predicate "P" [.var "x"]))
          (.exist "y" (.equals (.successor (.var "y"))
            (.plus (.var "y") (.successor (.var "y"))))))
        "x" =
      .error { term := "y'", formula := "((@xP(x))->(?y(y'=(y+y'))))", name := "x" } := by
  have hx : IsTerm (.var "x") := .var (by decide)
  have hy : IsTerm (.var "y") := .var (by decide)
  have hletter : IsFormula (.forAll "x" (.predicate "P" [.var "x"])) :=
    .forAll (by decide) (.predicate (by decide) (by simpa using hx))
  have htemplate : IsFormula (.implies (.forAll "x" (.predicate "P" [.var "x"]))
      (.exist "y" (.equals (.var "x") (.plus (.var "y") (.var "x"))))) :=
    .implies hletter (.exist (by decide) (.equals hx (.plus hy hx)))
  have hinst : IsFormula (.implies (.forAll "x" (.predicate "P" [.var "x"]))
      (.exist "y" (.equals (.successor (.var "y")) (.plus (.var "y") (.successor (.var "y")))))) :=
    .implies hletter (.exist (by decide) (.equals (.successor hy) (.plus hy (.successor hy))))
  obtain ⟨-, herror, -⟩ := decides_capture_free htemplate hinst "x"
  have hfree : Free "x" (.equals (.var "x") (.plus (.var "y") (.var "x"))) :=
    .inside (by decide) (by decide) List.mem_cons_self (.var rfl rfl)
  have hscope : CapturedIn (.successor (.var "y")) "x"
      (.exist "y" (.equals (.var "x") (.plus (.var "y") (.var "x")))) :=
    .scope rfl (by decide) (.inside (by decide) (by decide) List.mem_cons_self (.var rfl rfl))
      List.mem_cons_self hfree
  have hcap : CapturedIn (.successor (.var "y")) "x"
      (.implies (.forAll "x" (.predicate "P" [.var "x"]))
        (.exist "y" (.equals (.var "x") (.plus (.var "y") (.var "x"))))) :=
    .inside (by decide) (List.mem_cons_of_mem _ List.mem_cons_self) hscope
  refine (herror _).2 ⟨.successor (.var "y"), ⟨?_, .successor hy, ?_⟩, hcap, ?_⟩
  · exact free_of_capturedIn (.inl htemplate) hcap
  · cbv
  · cbv

end Substitution

end Sequitur
