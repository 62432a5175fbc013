import Mathlib
import Sequitur.Text.Basic

/-!
# Texts that are split and joined

Splitting a text at a byte is splitting it as a list (`splitOn_eq`), so that the facts about lists
hold of texts. A separator divides the parts before it from those after it
(`splitOn_append_cons`), no part has the separator in it (`not_mem_of_mem_splitOn`), and splitting
gives back what was joined, or ended line by line, when the separator is in none of the parts
(`splitOn_join`, `splitOn_flatMap`).
-/

namespace Sequitur

namespace Text

variable {sep : Byte} {s t : Text}

/-! ## Joining -/

theorem join_cons_cons (sep t u : Text) (ts : List Text) :
    join sep (t :: u :: ts) = t ++ (sep ++ join sep (u :: ts)) := by
  simp [join]

/-- Parts that are joined in two groups have one more separator between the groups. -/
theorem join_append {sep : Text} {ss ts : List Text} (hs : ss ≠ []) (ht : ts ≠ []) :
    join sep (ss ++ ts) = join sep ss ++ (sep ++ join sep ts) := by
  obtain ⟨t, ts, rfl⟩ := List.exists_cons_of_ne_nil ht
  induction ss with
  | nil => exact absurd rfl hs
  | cons s ss ih =>
    cases ss with
    | nil =>
      rw [List.singleton_append, join_cons_cons]
      simp [join]
    | cons s' ss =>
      rw [List.cons_append, List.cons_append, join_cons_cons, join_cons_cons, ← List.cons_append,
        ih (by simp)]
      simp

/-- What stands in a text between other texts is found there. -/
theorem hasInfix_append (part before after : Text) :
    hasInfix part (before ++ (part ++ after)) = true := by
  induction before with
  | nil =>
    rw [List.nil_append]
    cases htext : part ++ after with
    | nil => rw [(List.append_eq_nil_iff.1 htext).1]; rfl
    | cons b rest =>
      rw [hasInfix, ← htext, List.isPrefixOf_iff_prefix.2 (List.prefix_append part after),
        Bool.true_or]
  | cons b before ih => rw [List.cons_append, hasInfix, ih, Bool.or_true]

/-! ## Splitting -/

/-- Splitting a text is splitting the list of its bytes. -/
theorem splitOn_eq (sep : Byte) (t : Text) : splitOn sep t = List.splitOn sep t := by
  induction t with
  | nil => rfl
  | cons b t ih =>
    obtain ⟨part, parts, hparts⟩ := List.exists_cons_of_ne_nil (List.splitOn_ne_nil sep t)
    rw [splitOn, ih, List.splitOn_cons_eq_if_modifyHead, hparts]
    simp only [beq_iff_eq, List.modifyHead_cons]

/-- A separator divides the parts before it from those after it. -/
theorem splitOn_append_cons (sep : Byte) (s t : Text) :
    splitOn sep (s ++ sep :: t) = splitOn sep s ++ splitOn sep t := by
  simp only [splitOn_eq, List.splitOn_eq_splitOnP]
  exact List.splitOnP_append_cons s t (beq_self_eq_true sep)

/-- A text without the separator is its only part. -/
theorem splitOn_of_not_mem (hs : sep ∉ s) : splitOn sep s = [s] := by
  rw [splitOn_eq, List.splitOn_eq_splitOnP]
  exact List.splitOnP_eq_singleton fun b hb => beq_false_of_ne (ne_of_mem_of_not_mem hb hs)

/-- Splitting gives back the parts that were joined, when none of them has the separator. -/
theorem splitOn_join {ts : List Text} (hne : ts ≠ []) (hs : ∀ t ∈ ts, sep ∉ t) :
    splitOn sep (join [sep] ts) = ts := by
  rw [splitOn_eq]
  exact List.splitOn_intercalate sep hs hne

/-- A text whose lines are each ended by `sep` is split into these lines and what follows the
last one. -/
theorem splitOn_flatMap {ts : List Text} (h : ∀ t ∈ ts, sep ∉ t) :
    splitOn sep (ts.flatMap (· ++ [sep])) = ts ++ [[]] := by
  induction ts with
  | nil => rfl
  | cons t ts ih =>
    obtain ⟨ht, hts⟩ := List.forall_mem_cons.1 h
    rw [List.flatMap_cons, List.append_assoc, List.singleton_append, splitOn_append_cons,
      splitOn_of_not_mem ht, ih hts, List.singleton_append, List.cons_append]

/-- No part has the separator in it. -/
theorem not_mem_of_mem_splitOn {part : Text} (h : part ∈ splitOn sep t) : sep ∉ part := by
  induction t generalizing part with
  | nil =>
    rw [List.mem_singleton.1 h]
    exact List.not_mem_nil
  | cons b t ih =>
    rw [splitOn] at h
    split_ifs at h with hb
    · rcases List.mem_cons.1 h with rfl | h
      · exact List.not_mem_nil
      · exact ih h
    · obtain ⟨first, parts, hparts⟩ := List.exists_cons_of_ne_nil (List.splitOn_ne_nil sep t)
      rw [← splitOn_eq] at hparts
      rw [hparts] at h ih
      rcases List.mem_cons.1 h with rfl | h
      · rw [List.mem_cons, not_or]
        exact ⟨Ne.symm hb, ih List.mem_cons_self⟩
      · exact ih (List.mem_cons_of_mem first h)

end Text

end Sequitur
