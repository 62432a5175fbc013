import Mathlib
import Sequitur.Proofs.FreeVariables

/-!
# The sets that the walk computes

`Expr.freeNames` is the set of free variables as textbooks have it, by recursion on the tree: the
union over the subtrees, without the bound name at a quantifier. The walk has one table of counts
for the whole tree instead, and it computes this set. As bound it computes the names of the
variables that stand below a quantifier over the same name. Both hold of a walk in any order, since
they follow from what every walk records (`Visits.records`): the counts are back at what they were
after each subtree, so no subtree can tell which of the others have been visited.

Trees are again taken by the kind, the name and the subtrees of their root. So a node of the kind of
variables is a leaf, and nothing that it may hold is looked at.
-/

namespace Sequitur

namespace Expr

/-- The free variables of a tree whose root has the kind `k` and the name `x`, from those of its
subtrees. -/
def freeAt (k : Kind) (x : Text) (inside : Finset Text) : Finset Text :=
  if k = .var then {x} else if k.isQuantifier then inside.erase x else inside

mutual

/-- The free variables of a tree: those of its subtrees, without the bound name at a quantifier. -/
def freeNames : Expr → Finset Text
  | .binary k l r => freeAt k [] (l.freeNames ∪ r.freeNames)
  | .negation a => a.freeNames
  | .successor a => a.freeNames
  | .quantified k x b => freeAt k x b.freeNames
  | .predicate _ args => freeNamesAll args
  | .function _ args => freeNamesAll args
  | .var x => {x}
  | .zero => ∅

/-- The free variables of several trees. -/
def freeNamesAll : List Expr → Finset Text
  | [] => ∅
  | e :: rest => e.freeNames ∪ freeNamesAll rest

end

/-- The textbook equations for the free names, one step at the root. -/
theorem freeNames_eq_freeAt (e : Expr) :
    e.freeNames = freeAt e.kind e.name (freeNamesAll e.children) := by
  cases e with
  | binary k l r =>
    rw [freeNames, children, freeNamesAll, freeNamesAll, freeNamesAll, Finset.union_empty]
    rfl
  | negation a | successor a | quantified k x a =>
    rw [freeNames, children, freeNamesAll, freeNamesAll, Finset.union_empty]
    rfl
  | _ => rfl

/-- The free names of a list are those of its trees. -/
theorem mem_freeNamesAll {es : List Expr} {x : Text} :
    x ∈ freeNamesAll es ↔ ∃ e ∈ es, x ∈ e.freeNames := by
  induction es with
  | nil => simp [freeNamesAll]
  | cons e es ih => simp [freeNamesAll, ih]

/-- The textbook equations compute the free names. -/
theorem mem_freeNames {e : Expr} {x : Text} : x ∈ e.freeNames ↔ e.Free x := by
  induction e using induction_children with
  | node e ih =>
    have hinside : x ∈ freeNamesAll e.children ↔ ∃ c ∈ e.children, c.Free x := by
      rw [mem_freeNamesAll]
      exact exists_congr fun c => and_congr_right (ih c)
    rw [freeNames_eq_freeAt, free_iff, freeAt]
    split
    · next hk =>
      rw [Finset.mem_singleton, eq_comm]
      simp [hk]
    · next hk =>
      split
      · next hq =>
        rw [Finset.mem_erase, hinside, ne_comm]
        simp [hk, Binds, hq]
      · next hq =>
        rw [hinside]
        simp [hk, Binds, hq]

/-- `s` is the tree or stands somewhere in it. -/
inductive Within (s : Expr) : Expr → Prop
  | root : Within s s
  | inside {e c} : e.kind ≠ .var → c ∈ e.children → Within s c → Within s e

section
variable {e : Expr} {x : Text}

/-- A name occurs in a tree when a variable of that name is within it. -/
theorem occurs_iff_within : e.Occurs x ↔ ∃ v, Within v e ∧ v.kind = .var ∧ v.name = x := by
  constructor
  · intro h
    induction h with
    | @var e hk hn => exact ⟨e, .root, hk, hn⟩
    | inside hk hc _ ih =>
      obtain ⟨v, hv, hvar⟩ := ih
      exact ⟨v, .inside hk hc hv, hvar⟩
  · rintro ⟨v, hv, hk, hn⟩
    induction hv with
    | root => exact .var hk hn
    | inside hk hc _ ih => exact .inside hk hc ih

/-- A name is bound in a tree when a quantifier over it, with an occurrence below, is within it. -/
theorem bound_iff_within : e.Bound x ↔ ∃ q, Within q e ∧ q.Binds x ∧ q.Occurs x := by
  constructor
  · intro h
    induction h with
    | @scope e c hb hc ho =>
      exact ⟨e, .root, hb, .inside (Kind.ne_var_of_isQuantifier hb.1) hc ho⟩
    | inside hk hc _ ih =>
      obtain ⟨q, hq, hbound⟩ := ih
      exact ⟨q, .inside hk hc hq, hbound⟩
  · rintro ⟨q, hq, hb, ho⟩
    induction hq with
    | root =>
      cases ho with
      | var hk => exact absurd hk (Kind.ne_var_of_isQuantifier hb.1)
      | inside _ hc ho => exact .scope hb hc ho
    | inside hk hc _ ih => exact .inside hk hc ih

end

/-- The walk computes the textbook sets. As free it has the free variables by recursion on the tree,
and as bound the names with some variable below a quantifier over the same name. The walk over any
subtree, from any state, leaves the counts as they were. A walk that visits the subtrees of each
node in any other order ends with the same sets and without a count. -/
theorem walk_computes_textbook_sets (e : Expr) :
    e.freeVariables.toFinset = e.freeNames ∧
    (∀ x, x ∈ e.boundVariables ↔
      ∃ q v, Within q e ∧ q.Binds x ∧ Within v q ∧ v.kind = .var ∧ v.name = x) ∧
    (∀ c, Within c e → ∀ s, (c.survey s).depths = s.depths) ∧
    Visits [e] .empty (e.survey .empty) ∧
    ∀ s, Visits [e] .empty s → s.depths = .zero ∧
      s.free.toFinset = e.freeVariables.toFinset ∧
      s.bound.toFinset = e.boundVariables.toFinset := by
  refine ⟨?_, fun x => ?_, fun c _ s => (c.visits_survey s).records.depths, e.visits_survey _,
    fun s h => ⟨h.records.depths, ?_, ?_⟩⟩
  · ext x
    rw [List.mem_toFinset, mem_freeVariables, mem_freeNames]
  · rw [mem_boundVariables, bound_iff_within]
    simp only [occurs_iff_within, exists_and_left]
  · ext x
    rw [List.mem_toFinset, List.mem_toFinset, h.mem_free, mem_freeVariables]
  · ext x
    rw [List.mem_toFinset, List.mem_toFinset, h.mem_bound, mem_boundVariables]

/-- `P(x)&@xQ(x,y)`, from right to left throughout. -/
theorem walk_computes_textbook_sets_reversed :
    ∃ s, Visits [.and (.predicate "P" [.var "x"])
        (.forAll "x" (.predicate "Q" [.var "x", .var "y"]))] .empty s ∧
      s.depths = .zero ∧ s.free.toFinset = {Text.ofString "x", Text.ofString "y"} ∧
      s.bound.toFinset = {Text.ofString "x"} := by
  have hletter (s : Survey) : Visits [.predicate "P" [.var "x"]] s (s.record "x") :=
    .other (by decide) rfl (.refl _) (.var rfl .nil) .nil
  have hscope (s : Survey) : Visits [.predicate "Q" [.var "x", .var "y"]] s
      ((s.record "y").record "x") :=
    .other (by decide) rfl (.swap _ _ _) (.var rfl (.var rfl .nil)) .nil
  have hwalk : Visits [.and (.predicate "P" [.var "x"])
      (.forAll "x" (.predicate "Q" [.var "x", .var "y"]))] .empty _ :=
    .other (by decide) rfl (.swap _ _ _) (.quantifier rfl (.refl _) (hscope _) (hletter _)) .nil
  obtain ⟨-, -, -, -, hany⟩ := walk_computes_textbook_sets (.and (.predicate "P" [.var "x"])
    (.forAll "x" (.predicate "Q" [.var "x", .var "y"])))
  obtain ⟨hdepths, hfree, hbound⟩ := hany _ hwalk
  exact ⟨_, hwalk, hdepths, hfree.trans (by decide), hbound.trans (by decide)⟩

end Expr

end Sequitur
