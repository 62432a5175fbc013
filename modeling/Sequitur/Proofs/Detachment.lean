import Mathlib
import Sequitur.Proofs.Completeness

/-!
# Modus ponens through the index is the plain search

Modus ponens goes through the implications to a formula in line order, stops at the first that is
not before the line, and asks the index for one line only, the first with the text of the left
side. The plain search looks at all pairs of earlier lines. Both find the same
(`Proof.modusPonens_is_plain_search`): the positions are ascending, so the first that answers is the
least that can (`findSome?_eq_some_iff_isLeast`), and the first of all lines with a text is before
the line as soon as any of them is (`earlier?_eq_some_iff`).
-/

namespace Sequitur

/-! ## The plain search -/

namespace Proof

/-- The lines before line `k` that are the formula `e`. -/
def linesBefore (p : Proof) (k : Nat) (e : Expr) : Set Nat :=
  {i | i < k ∧ p.formulas[i]? = some (some e)}

/-- The lines before line `k` that are implications to `e` and whose left side is a line before
line `k`, be it above or below the implication. -/
def detachingLines (p : Proof) (k : Nat) (e : Expr) : Set Nat :=
  {j | ∃ a, j ∈ p.linesBefore k (.implies a e) ∧ (p.linesBefore k a).Nonempty}

/-- Line `j` is the first implication from which `e` can be detached, and line `i` is the first
line that is its left side. -/
def FirstDetachment (p : Proof) (k : Nat) (e : Expr) (i j : Nat) : Prop :=
  IsLeast (p.detachingLines k e) j ∧
    ∃ a, p.formulas[j]? = some (some (.implies a e)) ∧ IsLeast (p.linesBefore k a) i

end Proof

/-- Over an ascending list, the first position that answers is the least one that does. -/
theorem findSome?_eq_some_iff_isLeast {β : Type} {l : List Nat} (hl : l.Pairwise (· < ·))
    {f : Nat → Option β} {b : β} :
    l.findSome? f = some b ↔ ∃ j, IsLeast {j | j ∈ l ∧ (f j).isSome} j ∧ f j = some b := by
  constructor
  · intro h
    obtain ⟨l₁, j, l₂, rfl, hj, hnone⟩ := List.findSome?_eq_some_iff.1 h
    refine ⟨j, ⟨⟨by simp, by simp [hj]⟩, ?_⟩, hj⟩
    rintro m ⟨hm, hsome⟩
    rcases List.mem_append.1 hm with hm | hm
    · simp [hnone m hm] at hsome
    · rcases List.mem_cons.1 hm with rfl | hm
      · exact le_rfl
      · have hright := (List.pairwise_append.1 hl).2.1
        exact le_of_lt (List.rel_of_pairwise_cons hright hm)
  · rintro ⟨j, ⟨⟨hmem, -⟩, hleast⟩, hj⟩
    obtain ⟨l₁, l₂, rfl⟩ := List.append_of_mem hmem
    refine List.findSome?_eq_some_iff.2 ⟨l₁, j, l₂, rfl, hj, fun m hm => ?_⟩
    by_contra hsome
    have hle : j ≤ m := hleast ⟨by simp [hm], Option.isSome_iff_ne_none.2 hsome⟩
    have hlt : m < j := (List.pairwise_append.1 hl).2.2 m hm j (by simp)
    omega

namespace Context

open Sequitur.Expr

variable {p : Proof} {safety : Bool} {k : Nat} {e : Expr}

/-- The line that is found for a formula is the first one. -/
theorem isLeast_of_earlier? (hp : p.WellFormed) (he : e.IsFormula) {i : Nat}
    (h : (ofProof p safety).earlier? e k = some i) : IsLeast (p.linesBefore k e) i := by
  refine ⟨earlier?_eq_some hp he h, ?_⟩
  rintro m ⟨hmk, hline⟩
  rw [earlier?_eq_findIdx?, List.findIdx?_eq_some_iff_getElem] at h
  obtain ⟨_, _, hmin⟩ := h
  by_contra hlt
  refine hmin m (not_le.1 hlt) ?_
  rw [← List.getElem?_take_of_lt hmk] at hline
  obtain ⟨_, hget⟩ := List.getElem?_eq_some_iff.1 hline
  rw [hget]
  exact Index.hasText_iff.2 ⟨e, rfl, rfl⟩

/-- The first line with the text of `e` counts only when it is before line `k`, and then it is the
first of the lines before line `k` that are `e`. -/
theorem earlier?_eq_some_iff (hp : p.WellFormed) (he : e.IsFormula) {i : Nat} :
    (ofProof p safety).earlier? e k = some i ↔ IsLeast (p.linesBefore k e) i := by
  refine ⟨isLeast_of_earlier? hp he, fun h => ?_⟩
  obtain ⟨m, hm⟩ : ∃ m, (ofProof p safety).earlier? e k = some m := earlier?_of_before ⟨i, h.1⟩
  rw [hm, (isLeast_of_earlier? hp he hm).unique h]

/-- The lines that the index gives as implications to a text are implications to it. -/
theorem exists_of_mem_implications {key : Text} {j : Nat}
    (h : j ∈ (ofProof p safety).index.implications key) :
    ∃ a b, p.formulas[j]? = some (some (.implies a b)) ∧ b.canonical = key := by
  rw [show (ofProof p safety).index = Index.ofProof p from rfl, Index.implications_ofProof,
    Index.mem_positions] at h
  obtain ⟨-, line, hline, hleads⟩ := h
  obtain ⟨a, b, rfl, hb⟩ := Index.leadsTo_iff.1 hleads
  exact ⟨a, b, hline, hb⟩

/-- What modus ponens finds with the implication in line `j`. -/
def detachAt (c : Context) (k j : Nat) : Attempt := do
  let a ← c.antecedent? j
  let i ← c.earlier? a k
  Attempt.justify { rule := .modusPonens, premise := i, via := j }

theorem modusPonens_eq_findSome? (c : Context) (k : Nat) (e : Expr) : c.modusPonens k e =
    ((c.index.implications e.canonical).takeWhile (· < k)).findSome? (c.detachAt k) := rfl

/-- The implication in line `j` is of use exactly when its left side is a line before line `k`, and
the first such line is taken. -/
theorem detachAt_eq_some_iff (hp : p.WellFormed) {j : Nat} {a b : Expr}
    (hj : p.formulas[j]? = some (some (.implies a b))) {r : Except Problem Justification} :
    (ofProof p safety).detachAt k j = some r ↔ ∃ i, IsLeast (p.linesBefore k a) i ∧
      r = .ok { rule := .modusPonens, premise := i, via := j } := by
  have hant : (ofProof p safety).antecedent? j = some a := antecedent?_eq_some.2 ⟨b, hj⟩
  have ha := (hp.isFormula hj).of_implies.1
  unfold detachAt
  rw [hant, Option.bind_eq_bind, Option.bind_some, Option.bind_eq_bind, Option.bind_eq_some_iff]
  refine exists_congr fun i => and_congr (earlier?_eq_some_iff hp ha) ?_
  rw [Attempt.justify, Option.some.injEq, eq_comm]

/-- An implication can be used exactly when its left side stands before the line. -/
theorem isSome_detachAt_iff (hp : p.WellFormed) {j : Nat} {a b : Expr}
    (hj : p.formulas[j]? = some (some (.implies a b))) :
    ((ofProof p safety).detachAt k j).isSome = true ↔ (p.linesBefore k a).Nonempty := by
  rw [Option.isSome_iff_exists]
  constructor
  · rintro ⟨r, hr⟩
    obtain ⟨i, hi, -⟩ := (detachAt_eq_some_iff hp hj).1 hr
    exact ⟨i, hi.1⟩
  · intro hne
    exact ⟨_, (detachAt_eq_some_iff hp hj).2
      ⟨_, ⟨Nat.sInf_mem hne, fun m hm => Nat.sInf_le hm⟩, rfl⟩⟩

/-- The positions that answer are the implications from which `e` can be detached. -/
theorem answering_eq_detachingLines (hp : p.WellFormed) (he : e.IsFormula) :
    {j | j ∈ ((ofProof p safety).index.implications e.canonical).takeWhile (· < k) ∧
      ((ofProof p safety).detachAt k j).isSome = true} = p.detachingLines k e := by
  ext j
  constructor
  · rintro ⟨hmem, hsome⟩
    have hjk : j < k := by simpa using List.mem_takeWhile_imp hmem
    obtain ⟨a, b, hj, hb⟩ := exists_of_mem_implications ((List.takeWhile_subset _) hmem)
    obtain rfl := (canonical_inj (.inl (hp.isFormula hj).of_implies.2) (.inl he)).1 hb
    exact ⟨a, ⟨hjk, hj⟩, (isSome_detachAt_iff hp hj).1 hsome⟩
  · rintro ⟨a, ⟨hjk, hj⟩, hne⟩
    refine ⟨?_, (isSome_detachAt_iff hp hj).2 hne⟩
    rw [takeWhile_implications, Index.mem_positions, Nat.sub_zero, List.getElem?_take_of_lt hjk]
    exact ⟨Nat.zero_le j, _, hj, Index.leadsTo_iff.2 ⟨a, e, rfl, rfl⟩⟩

/-- Modus ponens justifies a line exactly by its first detachment. -/
theorem modusPonens_eq_some_iff (hp : p.WellFormed) (he : e.IsFormula)
    {r : Except Problem Justification} :
    (ofProof p safety).modusPonens k e = some r ↔ ∃ i j, p.FirstDetachment k e i j ∧
      r = .ok { rule := .modusPonens, premise := i, via := j } := by
  have hsorted : (((ofProof p safety).index.implications e.canonical).takeWhile (· < k)).Pairwise
      (· < ·) := by
    rw [takeWhile_implications]
    exact Index.sorted_positions _ _ _
  rw [modusPonens_eq_findSome?, findSome?_eq_some_iff_isLeast hsorted,
    answering_eq_detachingLines hp he]
  constructor
  · rintro ⟨j, hleast, hr⟩
    obtain ⟨a, ⟨-, hj⟩, -⟩ := hleast.1
    obtain ⟨i, hi, rfl⟩ := (detachAt_eq_some_iff hp hj).1 hr
    exact ⟨i, j, ⟨hleast, a, hj, hi⟩, rfl⟩
  · rintro ⟨i, j, ⟨hleast, a, hj, hi⟩, rfl⟩
    exact ⟨j, hleast, (detachAt_eq_some_iff hp hj).2 ⟨i, hi, rfl⟩⟩

end Context

/-- Modus ponens through the index is the plain search. Of a line that was read it says either
nothing or, for a pair of lines, that it follows from them. It gives the lines `i` and `j` exactly
when `j` is the first line before it that is an implication to it with the left side before it,
and `i` is the first line that is this left side. It says nothing exactly when no two lines before
it, in either order, are an implication to it and the left side of the implication. And every line
the index gives as an implication is one, whatever text was asked for. -/
theorem Proof.modusPonens_is_plain_search {header : Text} {lines : List Text} {p : Proof}
    (hread : Proof.read header lines = .ok p) (safety : Bool) {k : Nat} {e : Expr}
    (hline : p.formulas[k]? = some (some e)) :
    (∀ i j, (Context.ofProof p safety).modusPonens k e =
        Attempt.justify { rule := .modusPonens, premise := i, via := j } ↔
      p.FirstDetachment k e i j) ∧
    (∀ r, (Context.ofProof p safety).modusPonens k e = some r →
      ∃ i j, r = .ok { rule := .modusPonens, premise := i, via := j }) ∧
    ((Context.ofProof p safety).modusPonens k e = none ↔
      ¬ ∃ i < k, ∃ j < k, ∃ a, p.formulas[i]? = some (some a) ∧
        p.formulas[j]? = some (some (.implies a e))) ∧
    (∀ key, ∀ j ∈ (Context.ofProof p safety).index.implications key, ∃ a b,
      p.formulas[j]? = some (some (.implies a b)) ∧ b.canonical = key ∧
        (Context.ofProof p safety).antecedent? j = some a) := by
  have hp := wellFormed_of_read hread
  have he := hp.isFormula hline
  refine ⟨fun i j => ?_, fun r hr => ?_, ?_, fun key j hj => ?_⟩
  · refine (Context.modusPonens_eq_some_iff hp he).trans ⟨?_, fun h => ⟨i, j, h, rfl⟩⟩
    rintro ⟨i', j', h, hr⟩
    cases hr
    exact h
  · obtain ⟨i, j, -, rfl⟩ := (Context.modusPonens_eq_some_iff hp he).1 hr
    exact ⟨i, j, rfl⟩
  · rw [Context.modusPonens_eq_none_iff hp he, not_iff_not]
    constructor
    · rintro ⟨a, ⟨i, hi, ha⟩, j, hj, hae⟩
      exact ⟨i, hi, j, hj, a, ha, hae⟩
    · rintro ⟨i, hi, j, hj, a, ha, hae⟩
      exact ⟨a, ⟨i, hi, ha⟩, j, hj, hae⟩
  · obtain ⟨a, b, hab, hb⟩ := Context.exists_of_mem_implications hj
    exact ⟨a, b, hab, hb, Context.antecedent?_eq_some.2 ⟨b, hab⟩⟩

/-- The implication stands above its left side, both stand there twice, and a line between them
cannot be read. -/
theorem Proof.modusPonens_is_plain_search_repeated :
    ∃ p, Proof.read "P,P->Q|-Q" ["P->Q", "(P", "P->Q", "P", "P", "Q"] = .ok p ∧
      p.formulas[5]? = some (some (.predicate "Q" [])) ∧
      p.FirstDetachment 5 (.predicate "Q" []) 3 0 := by
  have hrun : (Proof.read "P,P->Q|-Q" ["P->Q", "(P", "P->Q", "P", "P", "Q"]).map
      (fun p => (p.formulas[5]?, (Context.ofProof p false).modusPonens 5 (.predicate "Q" []))) =
      .ok (some (some (.predicate "Q" [])),
        Attempt.justify { rule := .modusPonens, premise := 3, via := 0 }) := by cbv
  obtain ⟨p, hread, hp⟩ := Proof.exists_of_map_eq_ok hrun
  obtain ⟨hline, hmp⟩ := Prod.mk.inj hp
  exact ⟨p, hread, hline, ((modusPonens_is_plain_search hread false hline).1 3 0).1 hmp⟩

end Sequitur
