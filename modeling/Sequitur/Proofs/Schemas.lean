import Mathlib
import Sequitur.Schema.Basic
import Sequitur.Proofs.Replacement

/-!
# Instances of schemas

`s.instantiate σ` is the schema `s` with `σ` of its letters and variables in their place, and
`s.openNames` are those letters and variables. Matching is exact. A candidate that matches is an
instance by some `σ` that agrees with the bindings so far (`matchTree_sound`), and such an instance
matches (`matchTree_complete`). Either way the bindings become the old ones with the texts of `σ`
for the open names, and nothing else (`Extends`). Bindings are texts, so that agreement is of
canonical texts, which is why the first of the two is about well-formed candidates: two places that
share a name are then filled with the same tree (`MatchedBy.cons`).
-/

namespace Sequitur

namespace Expr

/-! ## Instantiation -/

mutual

/-- The schema with `σ x` in place of every propositional letter and every variable `x`. -/
def instantiate (σ : Text → Expr) : Expr → Expr
  | .binary k l r => .binary k (l.instantiate σ) (r.instantiate σ)
  | .negation a => .negation (a.instantiate σ)
  | .successor a => .successor (a.instantiate σ)
  | .quantified k x b => .quantified k x (b.instantiate σ)
  | .predicate p args => if args.isEmpty then σ p else .predicate p (instantiateAll σ args)
  | .function f args => .function f (instantiateAll σ args)
  | .var x => σ x
  | .zero => .zero

/-- The instances of several schemas. -/
def instantiateAll (σ : Text → Expr) : List Expr → List Expr
  | [] => []
  | e :: rest => e.instantiate σ :: instantiateAll σ rest

end

theorem instantiateAll_eq_map (σ : Text → Expr) (es : List Expr) :
    instantiateAll σ es = es.map (instantiate σ) := by
  induction es with
  | nil => rfl
  | cons e es ih => exact congrArg (e.instantiate σ :: ·) ih

/-- A propositional letter or a variable: what a schema leaves open. -/
def IsOpen : Expr → Prop
  | .var _ => True
  | .predicate _ args => args = []
  | _ => False

/-- A letter or a variable becomes what it stands for. -/
theorem IsOpen.instantiate_eq {s : Expr} (h : s.IsOpen) (σ : Text → Expr) :
    s.instantiate σ = σ s.name := by
  cases s with
  | var x => rfl
  | predicate p args =>
    cases h
    rfl
  | _ => exact h.elim

/-- A predicate with arguments keeps its name. -/
theorem instantiate_predicate {p : Text} {args : List Expr} (h : ¬ (predicate p args).IsOpen)
    (σ : Text → Expr) :
    (predicate p args).instantiate σ = .predicate p (args.map (instantiate σ)) := by
  rw [← instantiateAll_eq_map]
  exact if_neg fun hargs => h (List.isEmpty_iff.1 hargs)

/-- What is not left open stands in every instance. -/
theorem instantiate_root {s : Expr} (h : ¬ s.IsOpen) (σ : Text → Expr) :
    (s.Rooted → (s.instantiate σ).Rooted) ∧ (s.instantiate σ).kind = s.kind ∧
      (s.instantiate σ).name = s.name ∧
      (s.instantiate σ).children = s.children.map (instantiate σ) := by
  cases s with
  | var x => exact absurd trivial h
  | predicate p args =>
    rw [instantiate_predicate h]
    exact ⟨fun _ => trivial, rfl, rfl, rfl⟩
  | function f args => exact ⟨fun _ => trivial, rfl, rfl, instantiateAll_eq_map σ args⟩
  | _ => exact ⟨id, rfl, rfl, rfl⟩

/-! ## What a schema leaves open -/

instance : DecidablePred IsOpen
  | .var _ | .predicate _ [] => .isTrue (by trivial)
  | .predicate _ (_ :: _) => .isFalse nofun
  | .binary .. | .negation _ | .successor _ | .quantified .. | .function .. | .zero => .isFalse id

/-- The propositional letters and the variables that occur in a schema. -/
def openNames (s : Expr) : List Text := (s.preorder.filter fun e => decide e.IsOpen).map name

/-- The open names of a schema are that of its root, if it is open, and those of its subtrees. -/
theorem openNames_eq_append (s : Expr) :
    s.openNames = (if s.IsOpen then [s.name] else []) ++ s.children.flatMap openNames := by
  unfold openNames
  rw [preorder_eq, List.filter_cons, List.filter_flatMap]
  by_cases h : s.IsOpen <;> simp [h, List.map_flatMap]

/-- A letter or a variable has its own name as the only open one. -/
theorem IsOpen.openNames_eq {s : Expr} (h : s.IsOpen) : s.openNames = [s.name] := by
  have hchildren : s.children = [] := by
    cases s with
    | var x => rfl
    | predicate p args => exact h
    | _ => exact h.elim
  rw [openNames_eq_append, if_pos h, hchildren, List.flatMap_nil, List.append_nil]

/-- Where the root is not open, the open names are those of the subtrees. -/
theorem openNames_of_not_isOpen {s : Expr} (h : ¬ s.IsOpen) :
    s.openNames = s.children.flatMap openNames := by
  rw [openNames_eq_append, if_neg h, List.nil_append]

/-- Where the root is not open, instances are equal when their subtrees are. -/
theorem instantiate_eq_iff_children {s : Expr} (h : ¬ s.IsOpen) {σ τ : Text → Expr} :
    s.instantiate σ = s.instantiate τ ↔
      s.children.map (instantiate σ) = s.children.map (instantiate τ) := by
  refine ⟨fun heq => ?_, fun heq => ?_⟩
  · rw [← (instantiate_root h σ).2.2.2, ← (instantiate_root h τ).2.2.2, heq]
  · cases s with
    | var x => exact absurd trivial h
    | predicate p args =>
      rw [instantiate_predicate h, instantiate_predicate h]
      exact congrArg (predicate p) heq
    | function f args =>
      show function f (instantiateAll σ args) = function f (instantiateAll τ args)
      rw [instantiateAll_eq_map, instantiateAll_eq_map]
      exact congrArg (function f) heq
    | binary k l r =>
      obtain ⟨hl, hr⟩ := List.cons.inj heq
      exact congrArg₂ (binary k) hl (List.cons.inj hr).1
    | negation a => exact congrArg negation (List.cons.inj heq).1
    | successor a => exact congrArg successor (List.cons.inj heq).1
    | quantified k x a => exact congrArg (quantified k x) (List.cons.inj heq).1
    | zero => rfl

/-- Assignments have the same instance when they agree on what is left open, and only then. -/
theorem instantiate_eq_iff {s : Expr} {σ τ : Text → Expr} :
    s.instantiate σ = s.instantiate τ ↔ ∀ x ∈ s.openNames, σ x = τ x := by
  induction s using induction_children with
  | node s ih =>
    by_cases ho : s.IsOpen
    · rw [ho.instantiate_eq, ho.instantiate_eq, ho.openNames_eq, List.forall_mem_singleton]
    · rw [openNames_of_not_isOpen ho, instantiate_eq_iff_children ho, List.map_inj_left,
        List.forall_mem_flatMap]
      exact forall₂_congr ih

end Expr

namespace Schema

open Sequitur.Expr

/-! ## Matching -/

theorem andThen_true (o : Outcome) : o.andThen (fun b => (true, b)) = o := by
  obtain ⟨ok, b⟩ := o
  cases ok <;> rfl

/-- Two matches in a row succeed when the first does and the second goes on from its bindings. -/
theorem andThen_eq_true {o : Outcome} {next : Bindings → Outcome} {b' : Bindings} :
    o.andThen next = (true, b') ↔ ∃ b, o = (true, b) ∧ next b = (true, b') := by
  obtain ⟨ok, b⟩ := o
  cases ok <;> simp [Outcome.andThen]

/-- A letter or a variable is matched by binding it. -/
theorem matchTree_of_isOpen {s : Expr} (h : s.IsOpen) (c : Expr) (b : Bindings) :
    matchTree s c b = Schema.bind s.name c b := by
  cases s with
  | var x => rfl
  | predicate p args =>
    cases h
    rfl
  | _ => exact h.elim

/-- Where the root is not open, it is matched literally and the subtrees one by one. -/
theorem matchTree_eq_literal {s : Expr} (h : ¬ s.IsOpen) (c : Expr) (b : Bindings) :
    matchTree s c b = literal s.kind s.name c b fun cs =>
      if cs.length = s.children.length then matchAll s.children cs b else (false, b) := by
  cases s with
  | var x => exact absurd trivial h
  | predicate p args => exact if_neg fun hargs => h (List.isEmpty_iff.1 hargs)
  | function f args => rfl
  | binary k l r =>
    refine congrArg (literal k [] c b) (funext fun cs => ?_)
    match cs with
    | [] | [_] | _ :: _ :: _ :: _ => rfl
    | [cl, cr] =>
      refine congrArg (Outcome.andThen _) (funext fun b => ?_)
      exact (andThen_true _).symm
  | negation a | successor a | quantified k x a =>
    refine congrArg (literal _ _ c b) (funext fun cs => ?_)
    match cs with
    | [] | _ :: _ :: _ => rfl
    | [c] => exact (andThen_true _).symm
  | zero =>
    refine congrArg (literal _ _ c b) (funext fun cs => ?_)
    cases cs <;> rfl

/-- `σ` has the texts that the bindings give to the names. -/
def AgreesOn (xs : List Text) (σ : Text → Expr) (b : Bindings) : Prop :=
  ∀ x ∈ xs, ∀ text ∈ b.lookup x, (σ x).canonical = text

instance (xs : List Text) (σ : Text → Expr) (b : Bindings) : Decidable (AgreesOn xs σ b) :=
  inferInstanceAs (Decidable (∀ x ∈ xs, _))

/-- The bindings `b'` are `b` with the texts of `σ` for the names, and nothing else. -/
def Extends (xs : List Text) (σ : Text → Expr) (b b' : Bindings) : Prop :=
  ∀ x, b'.lookup x = if x ∈ xs then some (σ x).canonical else b.lookup x

section
variable {xs ys : List Text} {σ τ : Text → Expr} {b b₁ b' : Bindings}

/-- Agreement depends on what the names in question stand for. -/
theorem AgreesOn.congr (h : AgreesOn xs σ b) (hτ : ∀ x ∈ xs, τ x = σ x) : AgreesOn xs τ b := by
  intro x hx text htext
  rw [hτ x hx]
  exact h x hx text htext

/-- Extension depends on what the names in question stand for. -/
theorem Extends.congr (h : Extends xs σ b b') (hτ : ∀ x ∈ xs, τ x = σ x) : Extends xs τ b b' := by
  intro x
  rw [h x]
  split
  · next hx => rw [hτ x hx]
  · rfl

/-- Bindings that are extended twice are extended by all the names. -/
theorem Extends.append (h : Extends xs σ b b₁) (h' : Extends ys σ b₁ b') :
    Extends (xs ++ ys) σ b b' := by
  intro x
  rw [h' x, h x]
  by_cases hy : x ∈ ys <;> by_cases hx : x ∈ xs <;> simp [hx, hy]

/-- Agreement with the bindings before a match is agreement with those after it. -/
theorem AgreesOn.append_iff (h : Extends xs σ b b₁) :
    AgreesOn xs σ b ∧ AgreesOn ys σ b₁ ↔ AgreesOn (xs ++ ys) σ b := by
  constructor
  · rintro ⟨hxs, hys⟩ x hx text htext
    by_cases hmem : x ∈ xs
    · exact hxs x hmem text htext
    · refine hys x ((List.mem_append.1 hx).resolve_left hmem) text ?_
      rw [h x, if_neg hmem]
      exact htext
  · intro hall
    refine ⟨fun x hx => hall x (List.mem_append_left ys hx), fun x hx text htext => ?_⟩
    rw [h x] at htext
    split at htext
    · exact Option.some.inj htext
    · exact hall x (List.mem_append_right xs hx) text htext

/-- Binding a name succeeds only where it agrees with the bindings, and extends them by it. -/
theorem extends_bind {x : Text} (h : Schema.bind x (σ x) b = (true, b')) :
    AgreesOn [x] σ b ∧ Extends [x] σ b b' := by
  unfold Schema.bind at h
  split at h
  · next text hbound =>
    obtain ⟨htext, rfl⟩ := Prod.mk.inj h
    obtain rfl := eq_of_beq htext
    refine ⟨List.forall_mem_singleton.2 fun _ h => ?_, fun y => ?_⟩
    · exact Option.some.inj (hbound.symm.trans h)
    · by_cases hy : y = x <;> simp [hy, hbound]
  · next hnone =>
    obtain ⟨-, rfl⟩ := Prod.mk.inj h
    refine ⟨List.forall_mem_singleton.2 fun _ h => ?_, fun y => ?_⟩
    · cases hnone.symm.trans h
    · by_cases hy : y = x
      · simp [hy]
      · rw [List.lookup_cons, beq_false_of_ne hy, if_neg (by simpa using hy)]

/-- Binding a name succeeds where it agrees with the bindings. -/
theorem exists_bind {x : Text} (h : AgreesOn [x] σ b) :
    ∃ b', Schema.bind x (σ x) b = (true, b') := by
  unfold Schema.bind
  split
  · next text hbound =>
    have htext := h x (by simp) text hbound
    exact ⟨b, by simp [htext]⟩
  · exact ⟨_, rfl⟩

end

/-- The match of `cs` against `ss` is by `σ`. -/
structure MatchedBy (σ : Text → Expr) (ss cs : List Expr) (b b' : Bindings) : Prop where
  eq_map : cs = ss.map (instantiate σ)
  agrees : AgreesOn (ss.flatMap openNames) σ b
  bindings : Extends (ss.flatMap openNames) σ b b'

/-- A match of one tree, with its instance, agreement and extension. -/
theorem matchedBy_singleton {σ : Text → Expr} {s c : Expr} {b b' : Bindings} :
    MatchedBy σ [s] [c] b b' ↔
      c = s.instantiate σ ∧ AgreesOn s.openNames σ b ∧ Extends s.openNames σ b b' := by
  have hnames : [s].flatMap openNames = s.openNames := by simp
  constructor
  · rintro ⟨heq, hagrees, hextends⟩
    exact ⟨(List.cons.inj heq).1, hnames ▸ hagrees, hnames ▸ hextends⟩
  · rintro ⟨rfl, hagrees, hextends⟩
    exact ⟨rfl, hnames.symm ▸ hagrees, hnames.symm ▸ hextends⟩

/-- A match depends on what the open names stand for. -/
theorem MatchedBy.congr {σ τ : Text → Expr} {ss cs : List Expr} {b b' : Bindings}
    (h : MatchedBy σ ss cs b b') (hτ : ∀ x ∈ ss.flatMap openNames, τ x = σ x) :
    MatchedBy τ ss cs b b' where
  eq_map := by
    rw [h.eq_map]
    refine List.map_congr_left fun s hs => instantiate_eq_iff.2 fun x hx => ?_
    exact (hτ x (List.mem_flatMap.2 ⟨s, hs, hx⟩)).symm
  agrees := h.agrees.congr hτ
  bindings := h.bindings.congr hτ

/-- Two matches one after the other are by one assignment: a name that both have bound is bound by
the first to the text that the second finds. -/
theorem MatchedBy.cons {σ τ : Text → Expr} {s c : Expr} {ss cs : List Expr} {b b₁ b' : Bindings}
    (hσ : ∀ x, (σ x).WellFormed) (hτ : ∀ x, (τ x).WellFormed)
    (h : MatchedBy σ [s] [c] b b₁) (hs : MatchedBy τ ss cs b₁ b') :
    ∃ ρ : Text → Expr, (∀ x, (ρ x).WellFormed) ∧ MatchedBy ρ (s :: ss) (c :: cs) b b' := by
  obtain ⟨heq, hagrees, hextends⟩ := matchedBy_singleton.1 h
  let ρ (x : Text) : Expr := if x ∈ s.openNames then σ x else τ x
  have hρσ : ∀ x ∈ s.openNames, ρ x = σ x := fun x hx => if_pos hx
  have hρτ : ∀ x ∈ ss.flatMap openNames, ρ x = τ x := by
    intro x hx
    by_cases hmem : x ∈ s.openNames
    · have htext := hs.agrees x hx _ ((hextends x).trans (if_pos hmem))
      rw [hρσ x hmem, (canonical_inj (hτ x) (hσ x)).1 htext]
    · exact if_neg hmem
  have hextends' := hextends.congr hρσ
  have htail := hs.congr hρτ
  refine ⟨ρ, fun x => ?_, ?_, ?_, ?_⟩
  · show (if x ∈ s.openNames then σ x else τ x).WellFormed
    split
    exacts [hσ x, hτ x]
  · rw [List.map_cons, ← htail.eq_map, heq]
    exact congrArg (· :: cs) (instantiate_eq_iff.2 fun x hx => (hρσ x hx).symm)
  · exact (AgreesOn.append_iff hextends').1 ⟨hagrees.congr hρσ, htail.agrees⟩
  · exact hextends'.append htail.bindings

/-- A match of several trees is by one assignment, if this is so of each of them. -/
theorem matchAll_sound {ss cs : List Expr} {b b' : Bindings}
    (h : ∀ s ∈ ss, ∀ c b b', c.WellFormed → matchTree s c b = (true, b') →
      ∃ σ : Text → Expr, (∀ x, (σ x).WellFormed) ∧ MatchedBy σ [s] [c] b b')
    (hcs : ∀ c ∈ cs, c.WellFormed) (hlength : cs.length = ss.length)
    (hmatch : matchAll ss cs b = (true, b')) :
    ∃ σ : Text → Expr, (∀ x, (σ x).WellFormed) ∧ MatchedBy σ ss cs b b' := by
  induction ss generalizing cs b with
  | nil =>
    obtain rfl := List.length_eq_zero_iff.1 hlength
    cases hmatch
    exact ⟨fun _ => .zero, fun _ => .inr .zero, rfl, nofun, fun _ => rfl⟩
  | cons s ss ih =>
    cases cs with
    | nil => cases hlength
    | cons c cs =>
      obtain ⟨b₁, hhead, htail⟩ := andThen_eq_true.1 hmatch
      obtain ⟨σ, hσ, hs⟩ := h s (by simp) c b b₁ (hcs c (by simp)) hhead
      obtain ⟨τ, hτ, hss⟩ := ih (fun s hs => h s (by simp [hs])) (fun c hc => hcs c (by simp [hc]))
        (Nat.succ.inj hlength) htail
      exact hs.cons hσ hτ hss

/-- A candidate that matches is an instance, by what the bindings then say. -/
theorem matchTree_sound {s : Expr} (hs : s.WellFormed) {c : Expr} {b b' : Bindings}
    (hc : c.WellFormed) (h : matchTree s c b = (true, b')) :
    ∃ σ : Text → Expr, (∀ x, (σ x).WellFormed) ∧ MatchedBy σ [s] [c] b b' := by
  induction s using induction_children generalizing c b b' with
  | node s ih =>
    by_cases ho : s.IsOpen
    · rw [matchTree_of_isOpen ho] at h
      obtain ⟨hagrees, hextends⟩ := extends_bind (σ := fun _ => c) h
      refine ⟨fun _ => c, fun _ => hc, matchedBy_singleton.2 ⟨?_, ?_⟩⟩
      · rw [ho.instantiate_eq]
      · rw [ho.openNames_eq]
        exact ⟨hagrees, hextends⟩
    · rw [matchTree_eq_literal ho, literal] at h
      split at h
      · next hroot =>
        split at h
        · next hlength =>
          obtain ⟨σ, hσ, hchildren⟩ := matchAll_sound
            (fun s' hs' c b b' hc h => ih s' hs' (hs.of_mem_children hs') hc h)
            (fun c' hc' => hc.of_mem_children hc') hlength h
          obtain ⟨hr, hk, hn, hcs⟩ := instantiate_root ho σ
          refine ⟨σ, hσ, matchedBy_singleton.2 ⟨?_, ?_⟩⟩
          · refine hc.rooted.ext (hr hs.rooted) ?_ ?_ ?_
            · rw [hk, hroot.1]
            · rw [hn, hroot.2]
            · rw [hcs, hchildren.eq_map]
          · rw [openNames_of_not_isOpen ho]
            exact ⟨hchildren.agrees, hchildren.bindings⟩
        · simp at h
      · simp at h

/-- Several trees match their instances, if each of them does. -/
theorem matchAll_complete {σ : Text → Expr} {ss : List Expr}
    (h : ∀ s ∈ ss, ∀ b, AgreesOn s.openNames σ b →
      ∃ b', matchTree s (s.instantiate σ) b = (true, b') ∧ Extends s.openNames σ b b')
    {b : Bindings} (hb : AgreesOn (ss.flatMap openNames) σ b) :
    ∃ b', matchAll ss (ss.map (instantiate σ)) b = (true, b') ∧
      Extends (ss.flatMap openNames) σ b b' := by
  induction ss generalizing b with
  | nil => exact ⟨b, rfl, fun _ => rfl⟩
  | cons s ss ih =>
    rw [List.flatMap_cons] at hb
    obtain ⟨b₁, hhead, hb₁⟩ := h s (by simp) b fun x hx => hb x (List.mem_append_left _ hx)
    obtain ⟨b', htail, hb'⟩ := ih (fun s hs => h s (by simp [hs]))
      ((AgreesOn.append_iff hb₁).2 hb).2
    exact ⟨b', andThen_eq_true.2 ⟨b₁, hhead, htail⟩, hb₁.append hb'⟩

/-- An instance matches, and the bindings then have its values. -/
theorem matchTree_complete {σ : Text → Expr} (s : Expr) {b : Bindings}
    (hb : AgreesOn s.openNames σ b) :
    ∃ b', matchTree s (s.instantiate σ) b = (true, b') ∧ Extends s.openNames σ b b' := by
  induction s using induction_children generalizing b with
  | node s ih =>
    by_cases ho : s.IsOpen
    · rw [ho.openNames_eq] at hb ⊢
      rw [matchTree_of_isOpen ho, ho.instantiate_eq]
      obtain ⟨b', h⟩ := exists_bind hb
      exact ⟨b', h, (extends_bind h).2⟩
    · obtain ⟨-, hk, hn, hcs⟩ := instantiate_root ho σ
      rw [openNames_of_not_isOpen ho] at hb ⊢
      rw [matchTree_eq_literal ho, literal, if_pos ⟨hk, hn⟩, hcs, if_pos (List.length_map _)]
      exact matchAll_complete (fun s' hs' b hb => ih s' hs' hb) hb

/-- An instance of a schema is recognised as one. -/
theorem isInstanceOf_instantiate (s : Expr) (σ : Text → Expr) :
    (s.instantiate σ).isInstanceOf s = true := by
  have hnil : AgreesOn s.openNames σ [] := fun x _ text h => nomatch h
  obtain ⟨b', h, -⟩ := matchTree_complete s hnil
  exact congrArg Prod.fst h

/-- Being an instance of a schema, as it is decided and as it is meant. -/
theorem isInstanceOf_iff {s c : Expr} (hs : s.WellFormed) (hc : c.WellFormed) :
    c.isInstanceOf s = true ↔ ∃ σ : Text → Expr, (∀ x, (σ x).WellFormed) ∧ c = s.instantiate σ := by
  constructor
  · intro h
    obtain ⟨σ, hσ, hmatched⟩ := matchTree_sound hs hc (Prod.ext h rfl)
    exact ⟨σ, hσ, (matchedBy_singleton.1 hmatched).1⟩
  · rintro ⟨σ, -, rfl⟩
    exact isInstanceOf_instantiate s σ

/-! ## The axiom schemas -/

/-- Every schema is the tree that its text is read as. -/
theorem parseFormula_source {s : Schema} (h : s ∈ all) :
    s.source.parseFormula = .ok s.formula := by
  have hall : all.map (fun s => s.source.parseFormula) = all.map fun s => .ok s.formula := by
    cbv
  exact List.map_inj_left.1 hall s h

/-- The schemas are formulas. -/
theorem isFormula_of_mem_all {s : Schema} (h : s ∈ all) : s.formula.IsFormula :=
  Text.isFormula_of_parseFormula (parseFormula_source h)

/-! ## Formulas for letters and terms for variables -/

/-- Every letter stands for a formula and every variable for a term. -/
def Assigns (σ : Text → Expr) : Prop :=
  ∀ x, (Text.isUpperIdent x = true → (σ x).IsFormula) ∧
    (Text.isLowerIdent x = true → (σ x).IsTerm)

/-- The name stands for a tree of its own sort. -/
def Sorted (σ : Text → Expr) (x : Text) : Prop :=
  Text.isUpperIdent x = true ∧ (σ x).IsFormula ∨ Text.isLowerIdent x = true ∧ (σ x).IsTerm

section
variable {σ τ : Text → Expr}

/-- The instances of arguments are the same where those of each are. -/
theorem map_instantiate_congr {args : List Expr}
    (h : ∀ a ∈ args, (a.instantiate σ).IsTerm → a.instantiate τ = a.instantiate σ)
    (hargs : ∀ a ∈ args.map (instantiate σ), a.IsTerm) :
    args.map (instantiate τ) = args.map (instantiate σ) :=
  List.map_congr_left fun a ha => h a ha (hargs _ (List.mem_map_of_mem ha))

/-- The instance of a term, where it is a term, rests on the names of the right sort only. -/
theorem instantiate_congr_term {s : Expr} (hs : s.IsTerm) (h : (s.instantiate σ).IsTerm)
    (hτ : ∀ x, Sorted σ x → τ x = σ x) : s.instantiate τ = s.instantiate σ := by
  induction hs with
  | var hx => exact hτ _ (.inr ⟨hx, h⟩)
  | zero => rfl
  | successor _ ih =>
    cases h with
    | successor h => exact congrArg Expr.successor (ih h)
  | plus _ _ ihl ihr | times _ _ ihl ihr =>
    cases h
    exact congrArg₂ (Expr.binary _) (ihl ‹_›) (ihr ‹_›)
  | @function f args _ _ _ ih =>
    change (Expr.function f (instantiateAll σ args)).IsTerm at h
    show Expr.function f (instantiateAll τ args) = .function f (instantiateAll σ args)
    rw [instantiateAll_eq_map] at h
    rw [instantiateAll_eq_map, instantiateAll_eq_map]
    cases h with
    | function _ _ hargs => exact congrArg _ (map_instantiate_congr ih hargs)

/-- The instance of a formula that is a formula depends only on the names that stand for trees of
their own sort. -/
theorem instantiate_congr_formula {s : Expr} (hs : s.IsFormula) (h : (s.instantiate σ).IsFormula)
    (hτ : ∀ x, Sorted σ x → τ x = σ x) : s.instantiate τ = s.instantiate σ := by
  induction hs with
  | equals hl hr =>
    cases h with
    | equals hl' hr' =>
      exact congrArg₂ Expr.equals (instantiate_congr_term hl hl' hτ)
        (instantiate_congr_term hr hr' hτ)
  | @predicate p args hp hargs =>
    by_cases hopen : args = []
    · subst hopen
      exact hτ p (.inl ⟨hp, h⟩)
    · rw [instantiate_predicate hopen] at h
      rw [instantiate_predicate hopen, instantiate_predicate hopen]
      cases h with
      | predicate _ hargs' =>
        exact congrArg _ (map_instantiate_congr
          (fun a ha h => instantiate_congr_term (hargs a ha) h hτ) hargs')
  | negation _ ih =>
    cases h with
    | negation h => exact congrArg Expr.negation (ih h)
  | implies _ _ ihl ihr | or _ _ ihl ihr | and _ _ ihl ihr =>
    cases h
    exact congrArg₂ (Expr.binary _) (ihl ‹_›) (ihr ‹_›)
  | forAll _ _ ih | exist _ _ ih =>
    cases h
    exact congrArg (Expr.quantified _ _) (ih ‹_›)

end

/-- A formula that is an instance of a schema is one by formulas and terms. -/
theorem exists_assigns {s : Expr} (hs : s.IsFormula) {σ : Text → Expr}
    (h : (s.instantiate σ).IsFormula) : ∃ τ, Assigns τ ∧ s.instantiate τ = s.instantiate σ := by
  have hchoice (x : Text) : ∃ e : Expr, ((Text.isUpperIdent x = true → e.IsFormula) ∧
      (Text.isLowerIdent x = true → e.IsTerm)) ∧ (Sorted σ x → e = σ x) := by
    by_cases hx : Sorted σ x
    · refine ⟨σ x, ?_, fun _ => rfl⟩
      rcases hx with ⟨hupper, hform⟩ | ⟨hlower, hterm⟩
      · exact ⟨fun _ => hform, fun hlower => absurd hupper (Text.not_isUpperIdent hlower)⟩
      · exact ⟨fun hupper => absurd hupper (Text.not_isUpperIdent hlower), fun _ => hterm⟩
    · by_cases hlower : Text.isLowerIdent x = true
      · exact ⟨.zero, ⟨fun hupper => absurd hupper (Text.not_isUpperIdent hlower), fun _ => .zero⟩,
          fun hsorted => absurd hsorted hx⟩
      · exact ⟨.equals .zero .zero, ⟨fun _ => .equals .zero .zero, fun h => absurd h hlower⟩,
          fun hsorted => absurd hsorted hx⟩
  choose τ hτ heq using hchoice
  exact ⟨τ, hτ, instantiate_congr_formula hs h heq⟩

/-- The formula is the schema with formulas in place of its letters and terms in place of its
variables. -/
def Instance (s : Schema) (e : Expr) : Prop := ∃ σ, Assigns σ ∧ e = s.formula.instantiate σ

section
variable {s : Schema} {e : Expr}

/-- For a formula to be an instance of a schema any assignment will do: it can be chosen to respect
the sorts. -/
theorem instance_iff_exists (hs : s ∈ all) (he : e.IsFormula) :
    s.Instance e ↔ ∃ σ, e = s.formula.instantiate σ := by
  constructor
  · rintro ⟨σ, -, heq⟩
    exact ⟨σ, heq⟩
  · rintro ⟨σ, rfl⟩
    obtain ⟨τ, hτ, heq⟩ := exists_assigns (isFormula_of_mem_all hs) he
    exact ⟨τ, hτ, heq.symm⟩

/-- The match decides whether a formula is an instance of a schema. -/
theorem isInstanceOf_iff_instance (hs : s ∈ all) (he : e.IsFormula) :
    e.isInstanceOf s.formula = true ↔ s.Instance e := by
  rw [instance_iff_exists hs he]
  constructor
  · intro h
    obtain ⟨σ, -, heq⟩ := (isInstanceOf_iff (.inl (isFormula_of_mem_all hs)) (.inl he)).1 h
    exact ⟨σ, heq⟩
  · rintro ⟨σ, rfl⟩
    exact isInstanceOf_instantiate s.formula σ

/-- The formula is an instance of the schema and of none that stands before it in the list. -/
def IsFirst (s : Schema) (e : Expr) : Prop :=
  ∃ before after, all = before ++ s :: after ∧ s.Instance e ∧ ∀ r ∈ before, ¬ r.Instance e

/-- The schema that is found is the first that the formula is an instance of. -/
theorem find?_eq_some_iff (he : e.IsFormula) : find? e = some s ↔ s.IsFirst e := by
  unfold find?
  rw [List.find?_eq_some_iff_append]
  constructor
  · rintro ⟨hinst, before, after, hall, hbefore⟩
    refine ⟨before, after, hall, ?_, fun r hr hrinst => ?_⟩
    · exact (isInstanceOf_iff_instance (by simp [hall]) he).1 hinst
    · have hnot := hbefore r hr
      rw [(isInstanceOf_iff_instance (by simp [hall, hr]) he).2 hrinst] at hnot
      cases hnot
  · rintro ⟨before, after, hall, hinst, hbefore⟩
    refine ⟨(isInstanceOf_iff_instance (by simp [hall]) he).2 hinst, before, after, hall, ?_⟩
    intro r hr
    have hnot := mt (isInstanceOf_iff_instance (by simp [hall, hr]) he).1 (hbefore r hr)
    simpa using hnot

/-- No schema is found exactly for what is an instance of none. -/
theorem find?_eq_none_iff (he : e.IsFormula) : find? e = none ↔ ∀ s ∈ all, ¬ s.Instance e := by
  unfold find?
  rw [List.find?_eq_none]
  refine forall₂_congr fun s hs => ?_
  rw [isInstanceOf_iff_instance hs he]

end

/-! ## Matching with bindings given -/

section
variable {s c : Expr}

/-- A match of a formula succeeds exactly when an assignment of the right sorts gives it and agrees
with the bindings. -/
theorem matchTree_eq_true_iff (hs : s.IsFormula) (hc : c.IsFormula) (b : Bindings) :
    (matchTree s c b).1 = true ↔
      ∃ σ, Assigns σ ∧ c = s.instantiate σ ∧ AgreesOn s.openNames σ b := by
  constructor
  · intro h
    obtain ⟨σ, -, hmatched⟩ := matchTree_sound (.inl hs) (.inl hc) (Prod.ext h rfl)
    obtain ⟨rfl, hagrees, -⟩ := matchedBy_singleton.1 hmatched
    obtain ⟨τ, hτ, heq⟩ := exists_assigns hs hc
    exact ⟨τ, hτ, heq.symm, hagrees.congr (instantiate_eq_iff.1 heq)⟩
  · rintro ⟨σ, -, rfl, hagrees⟩
    obtain ⟨b', h, -⟩ := matchTree_complete s hagrees
    exact congrArg Prod.fst h

/-- The candidate determines what is bound. -/
theorem extends_of_matchTree (hs : s.IsFormula) (hc : c.IsFormula) {b : Bindings}
    (h : (matchTree s c b).1 = true) {σ : Text → Expr} (hσ : c = s.instantiate σ) :
    Extends s.openNames σ b (matchTree s c b).2 := by
  obtain ⟨τ, -, hmatched⟩ := matchTree_sound (.inl hs) (.inl hc) (Prod.ext h rfl)
  obtain ⟨hτ, -, hextends⟩ := matchedBy_singleton.1 hmatched
  exact hextends.congr (instantiate_eq_iff.1 (hσ.symm.trans hτ))

/-- Matching is exact, whatever the bindings are at the start. A formula matches a schema when it is
the schema with formulas in place of its letters and terms in place of its variables, and these have
the texts that are already bound; afterwards the letters and variables of the schema are bound to
the texts of what stands in their place, and nothing else has changed. So the schema that is found
for a formula is the first of which it is an instance. -/
theorem matching_exact (hs : s.IsFormula) (hc : c.IsFormula) (b : Bindings) :
    ((matchTree s c b).1 = true ↔
        ∃ σ, Assigns σ ∧ c = s.instantiate σ ∧ AgreesOn s.openNames σ b) ∧
      ((matchTree s c b).1 = true → ∀ σ, c = s.instantiate σ →
        Extends s.openNames σ b (matchTree s c b).2) ∧
      (∀ r, find? c = some r ↔ r.IsFirst c) ∧ (find? c = none ↔ ∀ r ∈ all, ¬ r.Instance c) :=
  ⟨matchTree_eq_true_iff hs hc b, fun h _ hσ => extends_of_matchTree hs hc h hσ,
    fun _ => find?_eq_some_iff hc, find?_eq_none_iff hc⟩

/-- `A` is bound before the match, to the text that it is then found to stand for. The binding of
`B`, which is no name of the schema, is kept, although no tree has its text. -/
theorem matching_exact_given :
    ∃ b' : Bindings, matchTree (.implies (.predicate "A" []) (.equals (.var "x") (.var "x")))
        (.implies (.predicate "P" [.zero]) (.equals (.var "y") (.var "y")))
        [("A", "P(0)"), ("B", ")")] = (true, b') ∧
      b'.lookup (Text.ofString "x") = some (Text.ofString "y") ∧
      b'.lookup (Text.ofString "A") = some (Text.ofString "P(0)") ∧
      b'.lookup (Text.ofString "B") = some (Text.ofString ")") := by
  have hA : IsFormula (.predicate "A" []) := .predicate (by decide) (by simp)
  have hP : IsFormula (.predicate "P" [.zero]) :=
    .predicate (by decide) (List.forall_mem_singleton.2 .zero)
  have hx : IsTerm (.var "x") := .var (by decide)
  have hy : IsTerm (.var "y") := .var (by decide)
  let σ (x : Text) : Expr := if Text.isUpperIdent x then .predicate "P" [.zero] else .var "y"
  have hσ : Assigns σ := by
    refine fun x => ⟨fun hupper => ?_, fun hlower => ?_⟩
    · rw [show σ x = _ from if_pos hupper]
      exact hP
    · rw [show σ x = _ from if_neg (Text.not_isUpperIdent hlower)]
      exact hy
  obtain ⟨hiff, hextends, -⟩ := matching_exact (.implies hA (.equals hx hx))
    (.implies hP (.equals hy hy)) [("A", "P(0)"), ("B", ")")]
  have hmatch := hiff.2 ⟨σ, hσ, by cbv, by decide⟩
  have hlookup := hextends hmatch σ (by cbv)
  refine ⟨_, Prod.ext hmatch rfl, ?_, ?_, ?_⟩
  · exact (hlookup "x").trans (by cbv)
  · exact (hlookup "A").trans (by cbv)
  · exact (hlookup "B").trans (by cbv)

end

end Schema

end Sequitur
