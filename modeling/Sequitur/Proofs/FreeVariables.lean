import Mathlib
import Sequitur.Expr.Variables

/-!
# Free and bound variables

`Expr.Free x` is the textbook notion: `x` is free in the variable `x`, and in a tree whose root is
no quantifier over `x` and has a subtree in which `x` is free. `Expr.Bound x` says that `x` occurs
below a quantifier over it.

The walk of `Expr.survey` keeps counts instead of a scope. That it goes from left to right is of no
importance: `Expr.Visits` is the walk in which every node visits its subtrees in an order of its
own, and `Visits.records` says what any such walk does. It leaves the counts as they were. It
records a name as free exactly where its count is zero at the start and the name is free in the
tree, and as bound where the count is not zero at an occurrence, be it from the start or because of
a quantifier inside the tree. From the start of a whole walk this is freeness (`mem_freeVariables`)
and boundness (`mem_boundVariables`).

Trees are handled here by the kind, the name and the subtrees of their root, so that one argument
covers every constructor.
-/

namespace Sequitur

/-- A quantifier is no variable. -/
theorem Kind.ne_var_of_isQuantifier {k : Kind} (h : k.isQuantifier = true) : k ≠ .var := by
  rintro rfl
  cases h

namespace Expr

/-! ## Trees by their roots -/

/-- Induction on a tree, from its subtrees. -/
theorem induction_children {motive : Expr → Prop}
    (node : ∀ e : Expr, (∀ c ∈ e.children, motive c) → motive e) (e : Expr) : motive e := by
  have hone (e : Expr) {c : Expr} (hc : e.children = [c]) (h : motive c) : motive e :=
    node e (by rw [hc]; exact List.forall_mem_singleton.2 h)
  -- the second motive of the recursor is for argument lists
  refine @Expr.rec motive (fun es => ∀ c ∈ es, motive c) ?_ ?_ ?_ ?_ ?_ ?_ ?_ ?_ ?_ ?_ e
  · exact fun k l r hl hr => node (.binary k l r) (List.forall_mem_cons.2
      ⟨hl, List.forall_mem_singleton.2 hr⟩)
  · exact fun a ha => hone (.negation a) rfl ha
  · exact fun a ha => hone (.successor a) rfl ha
  · exact fun k x b hb => hone (.quantified k x b) rfl hb
  · exact fun p args hargs => node (.predicate p args) hargs
  · exact fun f args hargs => node (.function f args) hargs
  · exact fun x => node (.var x) nofun
  · exact node .zero nofun
  · exact nofun
  · exact fun e es he hes => List.forall_mem_cons.2 ⟨he, hes⟩

/-- The root is a quantifier over `x`. -/
abbrev Binds (x : Text) (e : Expr) : Prop := e.kind.isQuantifier = true ∧ e.name = x

/-- `x` occurs outside the scope of every quantifier over it. -/
inductive Free (x : Text) : Expr → Prop
  | var {e} : e.kind = .var → e.name = x → Free x e
  | inside {e c} : e.kind ≠ .var → ¬ e.Binds x → c ∈ e.children → Free x c → Free x e

/-- Freeness read off from the root: at a variable, or below a root that does not bind the name. -/
theorem free_iff {x : Text} {e : Expr} : e.Free x ↔
    e.kind = .var ∧ e.name = x ∨ e.kind ≠ .var ∧ ¬ e.Binds x ∧ ∃ c ∈ e.children, c.Free x := by
  constructor
  · intro h
    cases h with
    | var hk hn => exact .inl ⟨hk, hn⟩
    | inside hk hb hc hf => exact .inr ⟨hk, hb, _, hc, hf⟩
  · rintro (⟨hk, hn⟩ | ⟨hk, hb, c, hc, hf⟩)
    · exact .var hk hn
    · exact .inside hk hb hc hf

/-- The name that the root binds is free nowhere in the tree. -/
theorem not_free_of_binds {x : Text} {e : Expr} (h : e.Binds x) : ¬ e.Free x := by
  intro hf
  cases hf with
  | var hk => simp [Binds, hk, Kind.isQuantifier] at h
  | inside _ hb => exact hb h

/-- A name that is free in neither operand is not free in the whole. -/
theorem not_free_binary {x : Text} {k : Kind} (hk : k ≠ .var) {l r : Expr} (hl : ¬ l.Free x)
    (hr : ¬ r.Free x) : ¬ (binary k l r).Free x := by
  intro hf
  cases hf with
  | var hkind => exact hk hkind
  | inside _ _ hc hf =>
    rcases List.mem_pair.1 hc with rfl | rfl
    · exact hl hf
    · exact hr hf

/-! ## Bound occurrences -/

/-- `x` occurs as a variable, be it in the scope of a quantifier over it or not. -/
inductive Occurs (x : Text) : Expr → Prop
  | var {e} : e.kind = .var → e.name = x → Occurs x e
  | inside {e c} : e.kind ≠ .var → c ∈ e.children → Occurs x c → Occurs x e

/-- `x` occurs in the scope of a quantifier over it. -/
inductive Bound (x : Text) : Expr → Prop
  | scope {e c} : e.Binds x → c ∈ e.children → c.Occurs x → Bound x e
  | inside {e c} : e.kind ≠ .var → c ∈ e.children → Bound x c → Bound x e

/-- Occurrence read off from the root: at a variable, or in a subtree. -/
theorem occurs_iff {x : Text} {e : Expr} : e.Occurs x ↔
    e.kind = .var ∧ e.name = x ∨ e.kind ≠ .var ∧ ∃ c ∈ e.children, c.Occurs x := by
  constructor
  · intro h
    cases h with
    | var hk hn => exact .inl ⟨hk, hn⟩
    | inside hk hc ho => exact .inr ⟨hk, _, hc, ho⟩
  · rintro (⟨hk, hn⟩ | ⟨hk, c, hc, ho⟩)
    · exact .var hk hn
    · exact .inside hk hc ho

/-- Boundness read off from the root: by the root's own quantifier, or inside a subtree. -/
theorem bound_iff {x : Text} {e : Expr} : e.Bound x ↔
    (e.Binds x ∧ ∃ c ∈ e.children, c.Occurs x) ∨ e.kind ≠ .var ∧ ∃ c ∈ e.children, c.Bound x := by
  constructor
  · intro h
    cases h with
    | scope hb hc ho => exact .inl ⟨hb, _, hc, ho⟩
    | inside hk hc hb => exact .inr ⟨hk, _, hc, hb⟩
  · rintro (⟨hb, c, hc, ho⟩ | ⟨hk, c, hc, hb⟩)
    · exact .scope hb hc ho
    · exact .inside hk hc hb

end Expr

namespace Depths

/-- Leaving a scope undoes entering it. -/
theorem leave_enter (d : Depths) (x : Text) : (d.enter x).leave x = d := by
  funext y
  by_cases h : y = x <;> simp [enter, leave, h]

/-- Inside a quantifier over `x` the names of count zero are those of before, without `x`. -/
theorem enter_eq_zero {d : Depths} {x y : Text} : d.enter x y = 0 ↔ y ≠ x ∧ d y = 0 := by
  by_cases h : y = x <;> simp [enter, h]

end Depths

namespace Expr

/-! ## The walk in any order -/

/-- A walk over several trees, one after the other, in which every node visits its subtrees in an
order of its own. -/
inductive Visits : List Expr → Survey → Survey → Prop
  | nil {s} : Visits [] s s
  | var {e es s s'} : e.kind = .var → Visits es (s.record e.name) s' → Visits (e :: es) s s'
  | quantifier {e es order s m s'} : e.kind.isQuantifier = true → order.Perm e.children →
      Visits order { s with depths := s.depths.enter e.name } m →
      Visits es { m with depths := m.depths.leave e.name } s' → Visits (e :: es) s s'
  | other {e es order s m s'} : e.kind ≠ .var → e.kind.isQuantifier = false →
      order.Perm e.children → Visits order s m → Visits es m s' → Visits (e :: es) s s'

/-- What a walk over the trees does to the state. The counts stay. The names that are free in a tree
and not counted are added to the free ones. The names that occur and are counted are added to the
bound ones, and so are those that are bound in a tree itself. -/
structure Records (es : List Expr) (s s' : Survey) : Prop where
  depths : s'.depths = s.depths
  free : ∀ y, y ∈ s'.free ↔ y ∈ s.free ∨ s.depths y = 0 ∧ ∃ e ∈ es, e.Free y
  bound : ∀ y, y ∈ s'.bound ↔
    y ∈ s.bound ∨ (s.depths y ≠ 0 ∧ ∃ e ∈ es, e.Occurs y) ∨ ∃ e ∈ es, e.Bound y

section
variable {e : Expr} {es order : List Expr} {s m s' : Survey}

/-- A walk over no tree records nothing. -/
theorem records_nil (s : Survey) : Records [] s s where
  depths := rfl
  free := by simp
  bound := by simp

/-- What is recorded by two walks in a row is recorded by the walk over all their trees. -/
theorem Records.cons (hhead : Records [e] s m) (htail : Records es m s') :
    Records (e :: es) s s' where
  depths := htail.depths.trans hhead.depths
  free y := by
    rw [htail.free, hhead.free, hhead.depths]
    simp only [List.mem_cons, List.not_mem_nil, or_false, exists_eq_left, exists_eq_or_imp]
    rw [or_assoc, ← and_or_left]
  bound y := by
    rw [htail.bound, hhead.bound, hhead.depths]
    simp only [List.mem_cons, List.not_mem_nil, or_false, exists_eq_left, exists_eq_or_imp]
    grind

/-- A variable is recorded as free or bound, as its count says. -/
theorem records_var (hk : e.kind = .var) (s : Survey) : Records [e] s (s.record e.name) := by
  have hfree (y : Text) : e.Free y ↔ e.name = y := by
    rw [free_iff]
    simp [hk]
  have hoccurs (y : Text) : e.Occurs y ↔ e.name = y := by
    rw [occurs_iff]
    simp [hk]
  have hbound (y : Text) : ¬ e.Bound y := by
    rw [bound_iff]
    simp [hk, Binds, Kind.isQuantifier]
  rw [Survey.record]
  split
  · next h0 =>
    refine ⟨rfl, fun y => ?_, fun y => ?_⟩
    · simp only [List.mem_singleton, exists_eq_left, hfree, List.mem_insert_iff]
      grind
    · simp only [List.mem_singleton, exists_eq_left, hoccurs, hbound]
      grind
  · next h0 =>
    refine ⟨rfl, fun y => ?_, fun y => ?_⟩
    · simp only [List.mem_singleton, exists_eq_left, hfree]
      grind
    · simp only [List.mem_singleton, exists_eq_left, hoccurs, hbound, List.mem_insert_iff]
      grind

/-- While the subtrees of a quantifier are visited its name is counted, so none of its occurrences
there is recorded as free, and all of them are recorded as bound. -/
theorem Records.quantifier (hq : e.kind.isQuantifier = true) (horder : order.Perm e.children)
    (h : Records order { s with depths := s.depths.enter e.name } m) :
    Records [e] s { m with depths := m.depths.leave e.name } := by
  have hk := Kind.ne_var_of_isQuantifier hq
  refine ⟨?_, fun y => ?_, fun y => ?_⟩
  · show m.depths.leave e.name = s.depths
    rw [h.depths, Depths.leave_enter]
  · show y ∈ m.free ↔ _
    rw [h.free, Depths.enter_eq_zero]
    simp only [List.mem_singleton, exists_eq_left, horder.mem_iff, free_iff (e := e), hk, Binds, hq]
    grind
  · show y ∈ m.bound ↔ _
    rw [h.bound, ne_eq, Depths.enter_eq_zero]
    simp only [List.mem_singleton, exists_eq_left, horder.mem_iff, occurs_iff (e := e),
      bound_iff (e := e), hk, Binds, hq]
    grind

/-- A root that is neither variable nor quantifier records what its subtrees do. -/
theorem Records.other (hk : e.kind ≠ .var) (hq : e.kind.isQuantifier = false)
    (horder : order.Perm e.children) (h : Records order s m) : Records [e] s m := by
  refine ⟨h.depths, fun y => ?_, fun y => ?_⟩
  · rw [h.free]
    simp [horder.mem_iff, free_iff (e := e), hk, Binds, hq]
  · rw [h.bound]
    simp [horder.mem_iff, occurs_iff (e := e), bound_iff (e := e), hk, Binds, hq]

/-- A walk over the trees, in whatever order, records what is free and bound in them. -/
theorem Visits.records (h : Visits es s s') : Records es s s' := by
  induction h with
  | nil => exact records_nil _
  | var hk _ ih => exact (records_var hk _).cons ih
  | quantifier hq horder _ _ ih₁ ih₂ => exact (ih₁.quantifier hq horder).cons ih₂
  | other hk hq horder _ _ ih₁ ih₂ => exact (ih₁.other hk hq horder).cons ih₂

/-- A walk from the empty record finds exactly the free names. -/
theorem Visits.mem_free (h : Visits [e] .empty s) {x : Text} : x ∈ s.free ↔ e.Free x := by
  rw [h.records.free]
  simp [Survey.empty, Depths.zero]

/-- A walk from the empty record finds exactly the bound names. -/
theorem Visits.mem_bound (h : Visits [e] .empty s) {x : Text} : x ∈ s.bound ↔ e.Bound x := by
  rw [h.records.bound]
  simp [Survey.empty, Depths.zero]

end

/-! ## The walk from left to right -/

/-- One step of the walk, by the root of the tree. -/
theorem survey_eq_node (e : Expr) (s : Survey) :
    e.survey s = Survey.node e.kind e.name (surveyAll e.children) s := by
  cases e <;> rfl

/-- Two walks in a row are one walk over all their trees. -/
theorem Visits.cons {e : Expr} {es : List Expr} {s m s' : Survey} (hhead : Visits [e] s m)
    (htail : Visits es m s') : Visits (e :: es) s s' := by
  cases hhead with
  | var hk hnil =>
    cases hnil
    exact .var hk htail
  | quantifier hq horder hinside hnil =>
    cases hnil
    exact .quantifier hq horder hinside htail
  | other hk hq horder hinside hnil =>
    cases hnil
    exact .other hk hq horder hinside htail

/-- Walking over a list from left to right is one of the walks. -/
theorem visits_surveyAll {es : List Expr} (h : ∀ e ∈ es, ∀ s, Visits [e] s (e.survey s))
    (s : Survey) : Visits es s (surveyAll es s) := by
  induction es generalizing s with
  | nil => exact .nil
  | cons e es ih => exact (h e (by simp) s).cons (ih (fun c hc => h c (by simp [hc])) (e.survey s))

/-- The walk from left to right is one of the walks. -/
theorem visits_survey (e : Expr) (s : Survey) : Visits [e] s (e.survey s) := by
  induction e using induction_children generalizing s with
  | node e ih =>
    rw [survey_eq_node, Survey.node]
    split
    · next hk => exact .var hk .nil
    · next hk =>
      split
      · next hq => exact .quantifier hq (.refl _) (visits_surveyAll ih _) .nil
      · next hq => exact .other hk (by simpa using hq) (.refl _) (visits_surveyAll ih _) .nil

/-- The free variables that the walk finds are the free ones. -/
theorem mem_freeVariables {e : Expr} {x : Text} : x ∈ e.freeVariables ↔ e.Free x :=
  (e.visits_survey _).mem_free

/-- The test for a free variable decides freeness. -/
theorem isFree_iff {e : Expr} {x : Text} : e.isFree x = true ↔ e.Free x := by
  rw [isFree, List.contains_iff_mem, mem_freeVariables]

/-- The bound variables that the walk finds are the bound ones. -/
theorem mem_boundVariables {e : Expr} {x : Text} : x ∈ e.boundVariables ↔ e.Bound x :=
  (e.visits_survey _).mem_bound

end Expr

end Sequitur
