import Mathlib
import Sequitur.Proofs.Substitution

/-!
# Replacing an identifier in a canonical text

Replacing works on the tokens of a text and knows nothing of trees. Where the identifier `x` names
only variables of a tree, putting the text of `t` for it in the canonical text of the tree is
substitution of `t` (`replaceIdent_canonical`): no other token is touched, and `x` is bound nowhere.
-/

namespace Sequitur

namespace Expr

/-! ## Names that only variables have -/

/-- No quantifier is over `x`, and no function or predicate is called `x`. -/
inductive VarOnly (x : Text) : Expr → Prop
  | node {e} : (e.name = x → e.kind = .var) → (∀ c ∈ e.children, VarOnly x c) → VarOnly x e

/-- That only variables are called `x`, read off from the root and the subtrees. -/
theorem varOnly_iff {x : Text} {e : Expr} :
    e.VarOnly x ↔ (e.name = x → e.kind = .var) ∧ ∀ c ∈ e.children, c.VarOnly x := by
  refine ⟨fun h => ?_, fun ⟨hroot, hchildren⟩ => .node hroot hchildren⟩
  cases h with
  | node hroot hchildren => exact ⟨hroot, hchildren⟩

theorem VarOnly.of_mem_children {x : Text} {e c : Expr} (h : e.VarOnly x) (hc : c ∈ e.children) :
    c.VarOnly x := (varOnly_iff.1 h).2 c hc

/-- If only variables are called `x`, a root that is no variable is not called so. -/
theorem VarOnly.name_ne {x : Text} {e : Expr} (h : e.VarOnly x) (hk : e.kind ≠ .var) :
    e.name ≠ x := by
  cases h with
  | node h _ => exact fun hn => hk (h hn)

/-- No quantifier in the tree is over `v`, and no function in it is called `v`. -/
def Spares (v : Text) (e : Expr) : Prop :=
  ∀ s ∈ e.preorder, s.kind.isQuantifier = true ∨ s.kind = .function → s.name ≠ v

instance (v : Text) (e : Expr) : Decidable (e.Spares v) :=
  inferInstanceAs (Decidable (∀ s ∈ e.preorder, _))

/-- The nodes of several trees are those of each, one after the other. -/
theorem preorderAll_eq_flatMap (es : List Expr) : preorderAll es = es.flatMap preorder := by
  induction es with
  | nil => rfl
  | cons e es ih => exact congrArg (e.preorder ++ ·) ih

/-- The nodes of a tree are the tree itself and the nodes of its subtrees. -/
theorem preorder_eq (e : Expr) : e.preorder = e :: e.children.flatMap preorder := by
  cases e with
  | predicate p args | function f args =>
    rw [preorder, preorderAll_eq_flatMap]
    rfl
  | _ => simp [preorder, children]

/-- What is true of all quantifiers and functions of a tree is true of those of its subtrees. -/
theorem Spares.of_mem_children {v : Text} {e c : Expr} (h : e.Spares v) (hc : c ∈ e.children) :
    c.Spares v := by
  intro s hs
  refine h s ?_
  rw [preorder_eq]
  exact List.mem_cons_of_mem e (List.mem_flatMap.2 ⟨c, hc, hs⟩)

/-- For a lower-case name that is all there is to say, since predicates have upper-case names. -/
theorem WellFormed.varOnly_of_spares {v : Text} (hv : Text.isLowerIdent v = true) {e : Expr}
    (he : e.WellFormed) (h : e.Spares v) : e.VarOnly v := by
  induction e using induction_children with
  | node e ih =>
    refine .node ?_ fun c hc => ih c hc (he.of_mem_children hc) (h.of_mem_children hc)
    rintro rfl
    have hroot := h e (by rw [preorder_eq]; exact List.mem_cons_self)
    rcases he with he | he
    · cases he with
      | equals | negation | implies | or | and => cases hv
      | predicate hp => exact absurd hp (Text.not_isUpperIdent hv)
      | forAll | exist => exact absurd rfl (hroot (.inl rfl))
    · cases he with
      | var => rfl
      | zero | successor | plus | times => cases hv
      | function => exact absurd rfl (hroot (.inr rfl))

/-- If only variables are called `x` in a tree, this is so at every node of it. -/
theorem VarOnly.of_mem_preorder {x : Text} {e s : Expr} (h : e.VarOnly x) (hs : s ∈ e.preorder) :
    s.VarOnly x := by
  induction e using induction_children with
  | node e ih =>
    rw [preorder_eq] at hs
    rcases List.mem_cons.1 hs with rfl | hs
    · exact h
    · obtain ⟨c, hc, hs⟩ := List.mem_flatMap.1 hs
      exact ih c hc (h.of_mem_children hc) hs

/-- In a well-formed tree only variables are called by a small name exactly when no quantifier and
no function is, since predicates have capital names. -/
theorem WellFormed.varOnly_iff_spares {v : Text} (hv : Text.isLowerIdent v = true) {e : Expr}
    (he : e.WellFormed) : e.VarOnly v ↔ e.Spares v := by
  refine ⟨fun h s hs hkind => (h.of_mem_preorder hs).name_ne ?_, he.varOnly_of_spares hv⟩
  intro hvar
  rw [hvar] at hkind
  rcases hkind with hkind | hkind <;> cases hkind

end Expr

/-- What replacing `x` by `v` makes of a token. -/
def Token.replaced (x v : Text) : Token → Text
  | .ident y => if y = x then v else y
  | t => t.text

theorem Token.replaced_of_ne {x y : Text} (h : y ≠ x) (v : Text) :
    Token.replaced x v (.ident y) = y := if_neg h

/-- Replacing a name in a text is replacing it token by token. -/
theorem Text.replaceIdent_eq (text x v : Text) :
    text.replaceIdent x v = (Token.scan text).flatMap (Token.replaced x v) := by
  refine congrArg (List.flatMap · (Token.scan text)) (funext fun t => ?_)
  cases t <;> rfl

namespace Expr

section
variable {x : Text} {t : Expr}

/-- Replacing in the tokens of a tree with two sides is substituting in it, if this is so of the
sides and the sign stays. -/
theorem flatMap_binary {k : Kind} {l r : Expr}
    (hk : (Token.scan k.symbol).flatMap (Token.replaced x t.canonical) = k.symbol)
    (hl : l.tokens.flatMap (Token.replaced x t.canonical) = (l.subst x t).canonical)
    (hr : r.tokens.flatMap (Token.replaced x t.canonical) = (r.subst x t).canonical) :
    (binary k l r).tokens.flatMap (Token.replaced x t.canonical) =
      ((binary k l r).subst x t).canonical := by
  show _ = (binary k (l.subst x t) (r.subst x t)).canonical
  rw [canonical_binary, tokens_binary, ← hl, ← hr]
  simp only [List.flatMap_cons, List.flatMap_append, List.flatMap_nil, hk]
  rfl

/-- Replacing in the tokens behind a comma is substituting in the arguments. -/
theorem flatMap_tokensAfter {args : List Expr} (h : ∀ a ∈ args,
    a.tokens.flatMap (Token.replaced x t.canonical) = (a.subst x t).canonical) :
    (tokensAfter args).flatMap (Token.replaced x t.canonical) =
      canonicalAfter (substAll args x t) := by
  induction args with
  | nil => rfl
  | cons a args ih =>
    show _ = 44 :: ((a.subst x t).canonical ++ canonicalAfter (substAll args x t))
    rw [tokensAfter_cons, List.flatMap_cons, List.flatMap_append, h a (by simp),
      ih fun b hb => h b (by simp [hb])]
    rfl

/-- Replacing in the tokens of an argument list is substituting in the arguments. -/
theorem flatMap_tokensInside {args : List Expr} (h : ∀ a ∈ args,
    a.tokens.flatMap (Token.replaced x t.canonical) = (a.subst x t).canonical) :
    (tokensInside args).flatMap (Token.replaced x t.canonical) =
      canonicalInside (substAll args x t) := by
  cases args with
  | nil => rfl
  | cons a args =>
    show _ = 40 :: ((a.subst x t).canonical ++ canonicalAfter (substAll args x t))
    rw [tokensInside_cons, List.flatMap_cons, List.flatMap_append, h a (by simp),
      flatMap_tokensAfter fun b hb => h b (by simp [hb])]
    rfl

/-- Replacing a name in the tokens of a term is substituting for the variable, if only variables
have the name. -/
theorem IsTerm.flatMap_replaced {e : Expr} (h : e.IsTerm) (hx : e.VarOnly x) :
    e.tokens.flatMap (Token.replaced x t.canonical) = (e.subst x t).canonical := by
  induction h with
  | @var y _ =>
    rw [tokens_var, List.flatMap_singleton]
    show (if y = x then t.canonical else y) = (if y = x then t else .var y).canonical
    split <;> rfl
  | zero => rfl
  | @successor a _ ih =>
    show _ = (a.subst x t).canonical ++ [39]
    rw [tokens_successor, List.flatMap_append, ih (hx.of_mem_children (by simp [children]))]
    rfl
  | plus _ _ ihs iht | times _ _ ihs iht =>
    exact flatMap_binary rfl (ihs (hx.of_mem_children (by simp [children])))
      (iht (hx.of_mem_children (by simp [children])))
  | @function f args _ _ _ ih =>
    have hf : f ≠ x := hx.name_ne (by simp [kind])
    show _ = (Expr.function f (substAll args x t)).canonical
    rw [canonical_function, tokens_function, List.flatMap_cons, Token.replaced_of_ne hf,
      flatMap_tokensInside fun a ha => ih a ha (hx.of_mem_children ha)]

/-- Replacing in the tokens of a quantified formula is substituting in it, if the quantifier is over
another name. -/
theorem flatMap_quantified {k : Kind} {y : Text} {b : Expr}
    (hk : (Token.scan k.symbol).flatMap (Token.replaced x t.canonical) = k.symbol) (hy : y ≠ x)
    (hb : b.tokens.flatMap (Token.replaced x t.canonical) = (b.subst x t).canonical) :
    (quantified k y b).tokens.flatMap (Token.replaced x t.canonical) =
      ((quantified k y b).subst x t).canonical := by
  show _ = (quantified k y (if y = x then b else b.subst x t)).canonical
  rw [if_neg hy, canonical_quantified, tokens_quantified, ← hb]
  simp only [List.flatMap_cons, List.flatMap_append, List.flatMap_nil, hk, Token.replaced_of_ne hy]
  rfl

/-- Replacing a name in the tokens of a formula is substituting for the variable, if only variables
have the name. -/
theorem IsFormula.flatMap_replaced {e : Expr} (h : e.IsFormula) (hx : e.VarOnly x) :
    e.tokens.flatMap (Token.replaced x t.canonical) = (e.subst x t).canonical := by
  induction h with
  | equals hs ht =>
    exact flatMap_binary rfl (hs.flatMap_replaced (hx.of_mem_children (by simp [children])))
      (ht.flatMap_replaced (hx.of_mem_children (by simp [children])))
  | @predicate p args _ hargs =>
    have hp : p ≠ x := hx.name_ne (by simp [kind])
    show _ = (Expr.predicate p (substAll args x t)).canonical
    rw [canonical_predicate, tokens_predicate, List.flatMap_cons, Token.replaced_of_ne hp,
      flatMap_tokensInside fun a ha => (hargs a ha).flatMap_replaced (hx.of_mem_children ha)]
  | @negation a _ ih =>
    show _ = (Expr.negation (a.subst x t)).canonical
    rw [canonical_negation, tokens_negation, ← ih (hx.of_mem_children (by simp [children]))]
    simp only [List.flatMap_cons, List.flatMap_append, List.flatMap_nil]
    rfl
  | implies _ _ iha ihb | or _ _ iha ihb | and _ _ iha ihb =>
    exact flatMap_binary rfl (iha (hx.of_mem_children (by simp [children])))
      (ihb (hx.of_mem_children (by simp [children])))
  | forAll _ _ ih | exist _ _ ih =>
    exact flatMap_quantified rfl (hx.name_ne (by simp [kind]))
      (ih (hx.of_mem_children (by simp [children])))

/-- Where only variables are called `x`, replacing it in the text is substitution. -/
theorem IsFormula.replaceIdent_canonical {e : Expr} (h : e.IsFormula) (hx : e.VarOnly x) :
    e.canonical.replaceIdent x t.canonical = (e.subst x t).canonical := by
  rw [Text.replaceIdent_eq, WellFormed.scan_canonical (.inl h), h.flatMap_replaced hx]

end

end Expr

end Sequitur
