import Mathlib
import Sequitur.Deduction.Fragment
import Sequitur.Proofs.Sequents

/-!
# The lines of a filled fragment

The built-in templates are texts, and filling them in is replacement in a text. With formulas for
the placeholders every pattern has a formula of its own (`Pattern.expr`). Filling in a pattern gives
the canonical text of that formula, without the outer parentheses where the pattern is an
implication on a line of its own (`substitute_line`). These lines have no line feed, no white space
and are not empty, so cutting the filled template into lines gives them back (`fill_template`), and
each is read as its formula (`parse_filledLine`).
-/

namespace Sequitur

/-! ## The formula of a pattern -/

namespace Pattern

open Sequitur.Expr

/-- What the placeholders stand for. -/
structure Values where
  hypothesis : Expr
  left : Expr
  right : Expr
  name : Text
  isFormula_hypothesis : hypothesis.IsFormula
  isFormula_left : left.IsFormula
  isFormula_right : right.IsFormula
  isLowerIdent_name : Text.isLowerIdent name = true

/-- The formula of a pattern. -/
def expr (v : Values) : Pattern → Expr
  | H => v.hypothesis
  | A => v.left
  | B => v.right
  | implies l r => .implies (l.expr v) (r.expr v)
  | and l r => .and (l.expr v) (r.expr v)
  | all b => .forAll v.name (b.expr v)
  | some b => .exist v.name (b.expr v)

/-- A pattern stands for a formula. -/
theorem isFormula_expr (v : Values) (p : Pattern) : (p.expr v).IsFormula := by
  induction p with
  | H => exact v.isFormula_hypothesis
  | A => exact v.isFormula_left
  | B => exact v.isFormula_right
  | implies l r ihl ihr => exact .implies ihl ihr
  | and l r ihl ihr => exact .and ihl ihr
  | all b ih => exact .forAll v.isLowerIdent_name ih
  | some b ih => exact .exist v.isLowerIdent_name ih

/-! ## Filling in -/

/-- The filling has the texts of the values for the placeholders of the pattern. It may lack
others. -/
def Filled (f : Filling) (v : Values) : Pattern → Prop
  | H => f.hypothesis = v.hypothesis.canonical
  | A => f.left = v.left.canonical
  | B => f.right = v.right.canonical
  | implies l r | and l r => l.Filled f v ∧ r.Filled f v
  | all b | some b => f.name = v.name ∧ b.Filled f v

/-- A filling that has all placeholders suits every pattern. -/
theorem filled_of_eq {f : Filling} {v : Values} (hH : f.hypothesis = v.hypothesis.canonical)
    (hA : f.left = v.left.canonical) (hB : f.right = v.right.canonical) (hx : f.name = v.name)
    (p : Pattern) : p.Filled f v := by
  induction p with
  | H => exact hH
  | A => exact hA
  | B => exact hB
  | implies l r ihl ihr | and l r ihl ihr => exact ⟨ihl, ihr⟩
  | all b ih | some b ih => exact ⟨hx, ih⟩

/-- A byte that opens no placeholder is left as it is. -/
theorem substitute_cons (f : Filling) {b : Byte} (hb : b ≠ 123) (rest : Text) :
    Template.substitute f (b :: rest) = b :: Template.substitute f rest := by
  rw [Template.substitute.eq_def]
  split <;> simp_all

/-- A text without placeholders is left as it is. -/
theorem substitute_append (f : Filling) {s : Text} (hs : 123 ∉ s) (rest : Text) :
    Template.substitute f (s ++ rest) = s ++ Template.substitute f rest := by
  induction s with
  | nil => rfl
  | cons b s ih =>
    rw [List.mem_cons, not_or] at hs
    rw [List.cons_append, substitute_cons f (Ne.symm hs.1), ih hs.2, List.cons_append]

/-- Each placeholder is filled in with its own text. -/
theorem substitute_placeholder (f : Filling) (rest : Text) :
    Template.substitute f (placeholder 72 ++ rest) = f.hypothesis ++ Template.substitute f rest ∧
    Template.substitute f (placeholder 65 ++ rest) = f.left ++ Template.substitute f rest ∧
    Template.substitute f (placeholder 66 ++ rest) = f.right ++ Template.substitute f rest ∧
    Template.substitute f (placeholder 120 ++ rest) = f.name ++ Template.substitute f rest :=
  ⟨rfl, rfl, rfl, rfl⟩

/-- No sign opens a placeholder. -/
theorem not_mem_symbol (k : Kind) : (123 : Byte) ∉ k.symbol := by
  cases k with
  | other => exact List.not_mem_nil
  | _ => decide

/-- An implication of patterns is written as one of formulas. -/
theorem text_implies (l r : Pattern) : (l.implies r).text =
    40 :: (l.text ++ (Kind.implication.symbol ++ (r.text ++ [41]))) := by
  show Text.ofString "(" ++ l.text ++ Text.ofString "->" ++ r.text ++ Text.ofString ")" = _
  simp only [List.append_assoc]
  rfl

/-- A conjunction of patterns is written as one of formulas. -/
theorem text_and (l r : Pattern) : (l.and r).text =
    40 :: (l.text ++ (Kind.conjunction.symbol ++ (r.text ++ [41]))) := by
  show Text.ofString "(" ++ l.text ++ Text.ofString "&" ++ r.text ++ Text.ofString ")" = _
  simp only [List.append_assoc]
  rfl

section
variable {f : Filling} {v : Values}

/-- The pattern is filled in as the canonical text of its formula, whatever follows it. -/
def FillsIn (f : Filling) (v : Values) (p : Pattern) : Prop :=
  ∀ rest, Template.substitute f (p.text ++ rest) =
    (p.expr v).canonical ++ Template.substitute f rest

/-- A pattern with two sides is filled in when its sides are. -/
theorem substitute_binary {l r : Pattern} (hl : l.FillsIn f v) (hr : r.FillsIn f v) (k : Kind)
    (rest : Text) :
    Template.substitute f (40 :: (l.text ++ (k.symbol ++ (r.text ++ [41]))) ++ rest) =
      (binary k (l.expr v) (r.expr v)).canonical ++ Template.substitute f rest := by
  rw [canonical_binary]
  simp only [List.append_assoc, List.cons_append]
  rw [substitute_cons f (by decide), hl, substitute_append f (not_mem_symbol k), hr,
    List.nil_append, substitute_cons f (by decide), List.nil_append]

/-- A quantified pattern is filled in when its body is and the name is given. -/
theorem substitute_quantified {b : Pattern} (hb : b.FillsIn f v) (hname : f.name = v.name)
    (k : Kind) (rest : Text) :
    Template.substitute f (40 :: (k.symbol ++ (placeholder 120 ++ (b.text ++ [41]))) ++ rest) =
      (quantified k v.name (b.expr v)).canonical ++ Template.substitute f rest := by
  rw [canonical_quantified]
  simp only [List.append_assoc, List.cons_append]
  rw [substitute_cons f (by decide), substitute_append f (not_mem_symbol k),
    (substitute_placeholder f _).2.2.2, hname, hb, List.nil_append, substitute_cons f (by decide),
    List.nil_append]

/-- A filled pattern is the canonical text of its formula. -/
theorem Filled.fillsIn {p : Pattern} (h : p.Filled f v) : p.FillsIn f v := by
  intro rest
  induction p generalizing rest with
  | H => exact (substitute_placeholder f rest).1.trans (congrArg (· ++ _) h)
  | A => exact (substitute_placeholder f rest).2.1.trans (congrArg (· ++ _) h)
  | B => exact (substitute_placeholder f rest).2.2.1.trans (congrArg (· ++ _) h)
  | implies l r ihl ihr =>
    rw [text_implies]
    exact substitute_binary (ihl h.1) (ihr h.2) .implication rest
  | and l r ihl ihr =>
    rw [text_and]
    exact substitute_binary (ihl h.1) (ihr h.2) .conjunction rest
  | all b ih => exact substitute_quantified (ih h.2) h.1 .universal rest
  | some b ih => exact substitute_quantified (ih h.2) h.1 .existential rest

/-- The text of a filled pattern on a line of its own. -/
def filledLine (v : Values) : Pattern → Text
  | implies l r => (l.expr v).canonical ++ 45 :: 62 :: (r.expr v).canonical
  | p => (p.expr v).canonical

/-- A pattern on a line of its own is filled in as its formula, without the outer parentheses of an
implication. -/
theorem substitute_line {p : Pattern} (h : p.Filled f v) (rest : Text) :
    Template.substitute f (p.line ++ rest) = p.filledLine v ++ Template.substitute f rest := by
  cases p with
  | implies l r =>
    have hline : (l.implies r).line ++ rest = l.text ++ ([45, 62] ++ (r.text ++ rest)) := by
      show l.text ++ Text.ofString "->" ++ r.text ++ rest = _
      simp only [List.append_assoc]
      rfl
    rw [hline, h.1.fillsIn, substitute_append f (by decide), h.2.fillsIn]
    simp [filledLine]
  | H | A | B | and | all | some => exact h.fillsIn rest

/-- A filled template is made of the filled lines. -/
theorem substitute_template {ps : List Pattern} (h : ∀ p ∈ ps, p.Filled f v) :
    Template.substitute f (template ps) = Text.join [Byte.newline] (ps.map (filledLine v)) := by
  have hend (p : Pattern) (hp : p.Filled f v) : Template.substitute f p.line = p.filledLine v := by
    have := substitute_line hp []
    rwa [List.append_nil, show Template.substitute f [] = [] from rfl, List.append_nil] at this
  induction ps with
  | nil => rfl
  | cons p ps ih =>
    cases ps with
    | nil => simpa [template, Text.join] using hend p (h p (by simp))
    | cons q ps =>
      have htemplate : template (p :: q :: ps) = p.line ++ Byte.newline :: template (q :: ps) :=
        Text.join_cons_cons ..
      rw [htemplate, substitute_line (h p (by simp)), substitute_cons f (by decide),
        ih fun r hr => h r (List.mem_cons_of_mem p hr)]
      exact (Text.join_cons_cons [Byte.newline] (p.filledLine v) (q.filledLine v)
        (ps.map (filledLine v))).symm

end

/-! ## Reading the lines -/

/-- A filled line has no white space in it. -/
theorem visible_filledLine (v : Values) (p : Pattern) :
    (p.filledLine v).all Byte.isVisible = true := by
  cases p with
  | implies l r =>
    rw [filledLine, List.all_append, List.all_cons, List.all_cons, (isFormula_expr v l).visible,
      (isFormula_expr v r).visible]
    rfl
  | H | A | B | and | all | some => exact (isFormula_expr v _).visible

/-- A filled line is read as the formula of its pattern. -/
theorem parse_filledLine (v : Values) (p : Pattern) :
    (p.filledLine v).parseFormula = .ok (p.expr v) := by
  cases p with
  | implies l r =>
    have hl := isFormula_expr v l
    have hr := isFormula_expr v r
    have hscan : Token.scan ((l.implies r).filledLine v) =
        (l.expr v).tokens ++ .arrow :: (r.expr v).tokens := by
      rw [filledLine, hl.scans _ (Text.digitFree_cons.2 (by decide)), Token.scan_arrow_cons,
        WellFormed.scan_canonical (.inl hr)]
    rw [Grammar.parseFormula_eq_ok_iff, Text.stripSpace_eq_self (visible_filledLine v _), hscan]
    exact .implies (.conj (.unary hl.derives)) (derives_expr_of_unary hr.derives)
  | H | A | B | and | all | some => exact (isFormula_expr v _).parse_canonical

theorem stripSpace_filledLine (v : Values) (p : Pattern) :
    (p.filledLine v).stripSpace = p.filledLine v :=
  Text.stripSpace_eq_self (visible_filledLine v p)

/-- A filled line is not empty. -/
theorem filledLine_ne_nil (v : Values) (p : Pattern) : p.filledLine v ≠ [] := by
  rw [← stripSpace_filledLine]
  exact Text.stripSpace_ne_nil (parse_filledLine v p)

/-- A filled line is one line. -/
theorem newline_not_mem_filledLine (v : Values) (p : Pattern) :
    Byte.newline ∉ p.filledLine v := by
  intro h
  exact absurd (List.all_eq_true.1 (visible_filledLine v p) _ h) (by decide)

section
variable {f : Filling} {v : Values} {ps : List Pattern}

/-- Filling in a template gives one line for each of its patterns. -/
theorem fill_template (hne : ps ≠ []) (h : ∀ p ∈ ps, p.Filled f v) :
    Template.fill (template ps) f = ps.map (filledLine v) := by
  have hlines : ∀ t ∈ ps.map (filledLine v), Byte.newline ∉ t := by
    intro t ht
    obtain ⟨q, -, rfl⟩ := List.mem_map.1 ht
    exact newline_not_mem_filledLine v q
  have hstrip : (ps.map (filledLine v)).map Text.stripSpace = ps.map (filledLine v) := by
    rw [List.map_map]
    exact List.map_congr_left fun q _ => stripSpace_filledLine v q
  unfold Template.fill
  rw [substitute_template h, Text.splitOn_join (by simpa using hne) hlines, hstrip,
    List.filter_eq_self]
  intro t ht
  obtain ⟨q, -, rfl⟩ := List.mem_map.1 ht
  simpa using filledLine_ne_nil v q

/-- The lines of a filled template are read as the formulas of its patterns. -/
theorem parse_fill (hne : ps ≠ []) (h : ∀ p ∈ ps, p.Filled f v) :
    (Template.fill (template ps) f).map Text.parseFormula = (ps.map (expr v)).map .ok := by
  rw [fill_template hne h, List.map_map, List.map_map]
  exact List.map_congr_left fun q _ => parse_filledLine v q

end

end Pattern

end Sequitur
