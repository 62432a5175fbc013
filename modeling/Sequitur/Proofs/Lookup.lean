import Mathlib
import Sequitur.Proof.Check

/-!
# The index answers as a search would

The index of a proof is built from the last line to the first. What it says of a text is what a
search through the lines finds: the first line with that text (`firstLine?_ofProof`), the lines
that are implications with that consequent, in line order (`implications_ofProof`), and the first
such hypothesis (`hypothesis?_ofProof`). Each is an induction over the lines, in which the line
added last is the first one.
-/

namespace Sequitur.Index

/-- The line was read and has the canonical text `key`. -/
def hasText (key : Text) (line : Option Expr) : Bool := line.any (·.canonical == key)

/-- The line is an implication whose right side has the canonical text `key`. -/
def leadsTo (key : Text) : Option Expr → Bool
  | some (.implies _ right) => right.canonical == key
  | _ => false

/-- A line has the text `key` when it was read as a formula with that canonical text. -/
theorem hasText_iff {key : Text} {line : Option Expr} :
    hasText key line = true ↔ ∃ e, line = some e ∧ e.canonical = key := by
  cases line <;> simp [hasText]

/-- A line leads to `key` when it was read as an implication to a formula with that canonical
text. -/
theorem leadsTo_iff {key : Text} {line : Option Expr} :
    leadsTo key line = true ↔ ∃ a r, line = some (.implies a r) ∧ r.canonical = key := by
  unfold leadsTo
  split
  · next right => simp
  · next h =>
    refine iff_of_false (by simp) ?_
    rintro ⟨a, r, rfl, -⟩
    exact h a r rfl

/-- The positions of the implications to `key`, where the first line is line `k`. -/
def positions (key : Text) (k : Nat) : List (Option Expr) → List Nat
  | [] => []
  | line :: rest =>
    if leadsTo key line then k :: positions key (k + 1) rest else positions key (k + 1) rest

section
variable (index : Index) (k : Nat) (key : Text)

/-- Entering a line puts it first for its own text and leaves every other text alone. -/
theorem first_addLine (line : Option Expr) :
    (index.addLine k line).first[key]? =
      if hasText key line then some k else index.first[key]? := by
  cases line with
  | none => rfl
  | some e =>
    have hfirst : (index.addLine k (some e)).first = index.first.insert e.canonical k := by
      cases e with
      | binary kind l r => cases kind <;> rfl
      | _ => rfl
    rw [hfirst]
    exact Std.HashMap.getElem?_insert

/-- Entering a line puts it in front of the implications to its own right side and leaves the others
alone. -/
theorem consequents_addLine (line : Option Expr) :
    (index.addLine k line).consequents.getD key [] =
      if leadsTo key line then k :: index.consequents.getD key []
      else index.consequents.getD key [] := by
  cases line with
  | none => rfl
  | some e =>
    cases e with
    | binary kind l r =>
      cases kind with
      | implication =>
        show (index.consequents.insert r.canonical _).getD key [] =
          if r.canonical == key then _ else _
        rw [Std.HashMap.getD_insert]
        split
        · next h => rw [eq_of_beq h]
        · rfl
      | _ => rfl
    | _ => rfl

/-- After lines have been entered from the last to the first, the first of them that has a text is
the one found for it. -/
theorem first_addLines (lines : List (Option Expr)) :
    (index.addLines k lines).first[key]? =
      ((lines.findIdx? (hasText key)).map (· + k)).or index.first[key]? := by
  induction lines generalizing k with
  | nil => rfl
  | cons line lines ih =>
    show ((index.addLines (k + 1) lines).addLine k line).first[key]? = _
    rw [first_addLine, ih, List.findIdx?_cons]
    split
    · simp
    · rw [Option.map_map]
      congr 2
      funext i
      exact Nat.add_right_comm i k 1

/-- After lines have been entered, the implications to a text are found at their positions, before
those that were there. -/
theorem consequents_addLines (lines : List (Option Expr)) :
    (index.addLines k lines).consequents.getD key [] =
      positions key k lines ++ index.consequents.getD key [] := by
  induction lines generalizing k with
  | nil => rfl
  | cons line lines ih =>
    show ((index.addLines (k + 1) lines).addLine k line).consequents.getD key [] =
      (if leadsTo key line then _ else _) ++ _
    rw [consequents_addLine, ih]
    split <;> rfl

/-- Entering lines leaves the hypotheses alone. -/
theorem hypotheses_addLines (lines : List (Option Expr)) :
    (index.addLines k lines).hypotheses = index.hypotheses := by
  induction lines generalizing k with
  | nil => rfl
  | cons line lines ih =>
    have hline (index : Index) : (index.addLine k line).hypotheses = index.hypotheses := by
      unfold addLine
      split
      · rfl
      · dsimp only
        split <;> rfl
    exact (hline _).trans (ih (k + 1))

/-- After hypotheses have been entered, the first of them that has a text is the one found for
it. -/
theorem hypotheses_addHypotheses (hs : List Expr) :
    (index.addHypotheses k hs).hypotheses[key]? =
      ((hs.findIdx? (·.canonical == key)).map (· + k)).or index.hypotheses[key]? := by
  induction hs generalizing k with
  | nil => rfl
  | cons h hs ih =>
    show ((index.addHypotheses (k + 1) hs).hypotheses.insert h.canonical k)[key]? = _
    rw [Std.HashMap.getElem?_insert, ih, List.findIdx?_cons]
    split
    · simp
    · rw [Option.map_map]
      congr 2
      funext i
      exact Nat.add_right_comm i k 1

/-- Entering hypotheses leaves the lines alone. -/
theorem addHypotheses_lines (hs : List Expr) :
    (index.addHypotheses k hs).first = index.first ∧
      (index.addHypotheses k hs).consequents = index.consequents := by
  induction hs generalizing k with
  | nil => exact ⟨rfl, rfl⟩
  | cons h hs ih => exact ih (k + 1)

end

/-! ## Positions -/

/-- The positions of the implications to `key` are those of the lines that lead to it. -/
theorem mem_positions {key : Text} {k j : Nat} {lines : List (Option Expr)} :
    j ∈ positions key k lines ↔
      k ≤ j ∧ ∃ line, lines[j - k]? = some line ∧ leadsTo key line = true := by
  induction lines generalizing k with
  | nil => simp [positions]
  | cons line lines ih =>
    have hhead : j ∈ positions key k (line :: lines) ↔
        leadsTo key line = true ∧ j = k ∨ j ∈ positions key (k + 1) lines := by
      show j ∈ (if leadsTo key line then _ else _) ↔ _
      split
      · next h => simp [h]
      · next h => simp [h]
    rw [hhead, ih]
    rcases lt_trichotomy j k with hlt | rfl | hgt
    · simp only [hlt.ne, and_false, false_or]
      omega
    · simp
    · have hsub : j - k = (j - (k + 1)) + 1 := by omega
      simp only [hgt.ne', and_false, false_or, hsub, List.getElem?_cons_succ]
      simp only [Nat.succ_le_of_lt hgt, hgt.le]

/-- The positions of the implications go up. -/
theorem sorted_positions (key : Text) (k : Nat) (lines : List (Option Expr)) :
    (positions key k lines).Pairwise (· < ·) := by
  induction lines generalizing k with
  | nil => exact .nil
  | cons line lines ih =>
    show (if leadsTo key line then _ else _ : List Nat).Pairwise (· < ·)
    split
    · exact List.pairwise_cons.2 ⟨fun j hj => (mem_positions.1 hj).1, ih (k + 1)⟩
    · exact ih (k + 1)

/-- The positions before a line are those among the lines before it. -/
theorem takeWhile_positions (key : Text) (k n : Nat) (lines : List (Option Expr)) :
    (positions key k lines).takeWhile (· < k + n) = positions key k (lines.take n) := by
  induction lines generalizing k n with
  | nil => simp [positions]
  | cons line lines ih =>
    cases n with
    | zero =>
      show List.takeWhile _ _ = []
      rw [List.takeWhile_eq_nil_iff]
      intro hpos hlt
      have hle := (mem_positions.1 (List.get_mem _ ⟨0, hpos⟩)).1
      simp only [decide_eq_true_eq] at hlt
      omega
    | succ n =>
      have hcomm : k + (n + 1) = k + 1 + n := by omega
      show (if leadsTo key line then _ else _ : List Nat).takeWhile _ =
        if leadsTo key line then _ else _
      rw [hcomm, ← ih]
      split
      · rw [List.takeWhile_cons_of_pos (by simp; omega)]
      · rfl

/-! ## The index of a proof -/

variable (p : Proof) (key : Text)

/-- The index of a proof finds the first line with a given text. -/
theorem firstLine?_ofProof : (ofProof p).firstLine? key = p.formulas.findIdx? (hasText key) := by
  show (ofProof p).first[key]? = _
  rw [ofProof, (addHypotheses_lines _ _ _).1, first_addLines]
  simp [Index.empty]

/-- The index of a proof finds the first hypothesis with a given text. -/
theorem hypothesis?_ofProof :
    (ofProof p).hypothesis? key = p.hypotheses.findIdx? (·.canonical == key) := by
  show (ofProof p).hypotheses[key]? = _
  rw [ofProof, hypotheses_addHypotheses, hypotheses_addLines]
  simp [Index.empty]

/-- The index of a proof finds all implications to a given text, in the order of the lines. -/
theorem implications_ofProof : (ofProof p).implications key = positions key 0 p.formulas := by
  show (ofProof p).consequents.getD key [] = _
  rw [ofProof, (addHypotheses_lines _ _ _).2, consequents_addLines]
  simp [Index.empty]

end Sequitur.Index
