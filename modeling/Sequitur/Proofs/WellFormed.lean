import Mathlib
import Sequitur.Expr.Canonical
import Sequitur.Proofs.Reading

/-!
# Well-formed trees and their canonical texts

`Expr.IsTerm` and `Expr.IsFormula` single out the trees that are terms and formulas: connectives
stand over formulas, terms only under equations, arithmetic and argument lists, and names are
identifiers of the right case.

The tokens of a canonical text are written down by `Expr.tokens`, and scanning finds them
(`IsTerm.scans`, `IsFormula.scans`): the text is put together so that no two neighbours run into
one token, wherever it is followed by something that does not start with a digit. The only bytes
in a canonical text are visible ones, so it has no white space
(`WellFormed.stripSpace_canonical`).
-/

namespace Sequitur

namespace Expr

/-- Terms: variables, zero, successors, sums, products, and functions with at least one argument. -/
inductive IsTerm : Expr → Prop
  | var {x} : Text.isLowerIdent x = true → IsTerm (.var x)
  | zero : IsTerm .zero
  | successor {t} : IsTerm t → IsTerm (.successor t)
  | plus {s t} : IsTerm s → IsTerm t → IsTerm (.plus s t)
  | times {s t} : IsTerm s → IsTerm t → IsTerm (.times s t)
  | function {f args} : Text.isLowerIdent f = true → args ≠ [] → (∀ a ∈ args, IsTerm a) →
      IsTerm (.function f args)

/-- Formulas: equations and predicates of terms, and connectives and quantifiers over formulas. -/
inductive IsFormula : Expr → Prop
  | equals {s t} : IsTerm s → IsTerm t → IsFormula (.equals s t)
  | predicate {p args} : Text.isUpperIdent p = true → (∀ a ∈ args, IsTerm a) →
      IsFormula (.predicate p args)
  | negation {a} : IsFormula a → IsFormula (.negation a)
  | implies {a b} : IsFormula a → IsFormula b → IsFormula (.implies a b)
  | or {a b} : IsFormula a → IsFormula b → IsFormula (.or a b)
  | and {a b} : IsFormula a → IsFormula b → IsFormula (.and a b)
  | forAll {x a} : Text.isLowerIdent x = true → IsFormula a → IsFormula (.forAll x a)
  | exist {x a} : Text.isLowerIdent x = true → IsFormula a → IsFormula (.exist x a)

/-- A well-formed tree is a formula or a term. -/
def WellFormed (e : Expr) : Prop := e.IsFormula ∨ e.IsTerm

/-! ## The tokens of a canonical text -/

mutual

/-- The tokens of the canonical text of a tree. -/
def tokens : Expr → List Token
  | .binary k l r => .lparen :: (l.tokens ++ (Token.scan k.symbol ++ (r.tokens ++ [.rparen])))
  | .negation a => .lparen :: .bang :: (a.tokens ++ [.rparen])
  | .successor a => a.tokens ++ [.prime]
  | .quantified k x b => .lparen :: (Token.scan k.symbol ++ .ident x :: (b.tokens ++ [.rparen]))
  | .predicate p args => .ident p :: tokensInside args
  | .function f args => .ident f :: tokensInside args
  | .var x => [.ident x]
  | .zero => [.zero]

/-- The tokens of an argument list, parentheses included. -/
def tokensInside : List Expr → List Token
  | [] => []
  | a :: rest => .lparen :: (a.tokens ++ tokensAfter rest)

/-- The tokens from a further argument to the closing parenthesis. -/
def tokensAfter : List Expr → List Token
  | [] => [.rparen]
  | a :: rest => .comma :: (a.tokens ++ tokensAfter rest)

end

-- the equations of the three functions, one for each constructor
theorem tokens_binary (k : Kind) (l r : Expr) : (binary k l r).tokens =
    .lparen :: (l.tokens ++ (Token.scan k.symbol ++ (r.tokens ++ [.rparen]))) := rfl
theorem tokens_negation (a : Expr) :
    (negation a).tokens = .lparen :: .bang :: (a.tokens ++ [.rparen]) := rfl
theorem tokens_successor (a : Expr) : (successor a).tokens = a.tokens ++ [.prime] := rfl
theorem tokens_quantified (k : Kind) (x : Text) (b : Expr) : (quantified k x b).tokens =
    .lparen :: (Token.scan k.symbol ++ .ident x :: (b.tokens ++ [.rparen])) := rfl
theorem tokens_predicate (p : Text) (args : List Expr) :
    (predicate p args).tokens = .ident p :: tokensInside args := rfl
theorem tokens_function (f : Text) (args : List Expr) :
    (function f args).tokens = .ident f :: tokensInside args := rfl
theorem tokens_var (x : Text) : (var x).tokens = [.ident x] := rfl
theorem tokens_zero : tokens .zero = [.zero] := rfl
theorem tokensInside_cons (a : Expr) (args : List Expr) :
    tokensInside (a :: args) = .lparen :: (a.tokens ++ tokensAfter args) := rfl
theorem tokensAfter_cons (a : Expr) (args : List Expr) :
    tokensAfter (a :: args) = .comma :: (a.tokens ++ tokensAfter args) := rfl

/-- The text from a further argument to the closing parenthesis. -/
def canonicalAfter : List Expr → Text
  | [] => [41]
  | a :: rest => 44 :: (a.canonical ++ canonicalAfter rest)

/-- The text of an argument list, parentheses included. -/
def canonicalInside : List Expr → Text
  | [] => []
  | a :: rest => 40 :: (a.canonical ++ canonicalAfter rest)

theorem canonicalAll_eq_map (args : List Expr) : canonicalAll args = args.map canonical := by
  induction args with
  | nil => rfl
  | cons a rest ih => exact congrArg (a.canonical :: ·) ih

/-- Arguments between commas, with the parenthesis that closes them. -/
theorem join_append (a : Expr) (rest : List Expr) :
    Text.join [44] ((a :: rest).map canonical) ++ [41] = a.canonical ++ canonicalAfter rest := by
  induction rest generalizing a with
  | nil => simp [Text.join, canonicalAfter]
  | cons b rest ih =>
    rw [canonicalAfter, ← ih b]
    simp [Text.join, List.intercalate]

/-- The written argument list is the text of `canonicalInside`. -/
theorem argumentList_eq (args : List Expr) :
    argumentList (canonicalAll args) = canonicalInside args := by
  cases args with
  | nil => rfl
  | cons a rest =>
    show Text.ofString "(" ++ Text.join (Text.ofString ",") (canonicalAll (a :: rest)) ++
      Text.ofString ")" = _
    rw [canonicalAll_eq_map, List.append_assoc]
    exact congrArg (40 :: ·) (join_append a rest)

/-! The canonical text of each node, byte by byte. -/

/-- A tree with two sides is written in parentheses, with its sign between them. -/
theorem canonical_binary (k : Kind) (l r : Expr) :
    (binary k l r).canonical = 40 :: (l.canonical ++ (k.symbol ++ (r.canonical ++ [41]))) := by
  show Text.ofString "(" ++ l.canonical ++ k.symbol ++ r.canonical ++ Text.ofString ")" = _
  simp only [List.append_assoc]
  rfl

/-- A negation is written in parentheses, behind its sign. -/
theorem canonical_negation (a : Expr) :
    (negation a).canonical = 40 :: 33 :: (a.canonical ++ [41]) := rfl

/-- A successor is written with a prime behind it. -/
theorem canonical_successor (a : Expr) : (successor a).canonical = a.canonical ++ [39] := rfl

/-- A quantified formula is written in parentheses, with its sign, its variable and its body. -/
theorem canonical_quantified (k : Kind) (x : Text) (b : Expr) :
    (quantified k x b).canonical = 40 :: (k.symbol ++ (x ++ (b.canonical ++ [41]))) := by
  show Text.ofString "(" ++ k.symbol ++ x ++ b.canonical ++ Text.ofString ")" = _
  simp only [List.append_assoc]
  rfl

/-- A predicate is written as its name with the argument list behind it. -/
theorem canonical_predicate (p : Text) (args : List Expr) :
    (predicate p args).canonical = p ++ canonicalInside args := by
  rw [← argumentList_eq]
  rfl

/-- A function is written as its name with the argument list behind it. -/
theorem canonical_function (f : Text) (args : List Expr) :
    (function f args).canonical = f ++ canonicalInside args := by
  rw [← argumentList_eq]
  rfl

theorem canonical_var (x : Text) : (var x).canonical = x := rfl

theorem canonical_zero : canonical .zero = [48] := rfl

/-! ## Scanning a canonical text -/

/-- The canonical text of the tree is scanned as its tokens, whatever follows that does not
continue a name. -/
def Scans (e : Expr) : Prop :=
  ∀ rest : Text, rest.DigitFree → Token.scan (e.canonical ++ rest) = e.tokens ++ Token.scan rest

/-- A sign is separate from what stands around it. -/
theorem scan_symbol_append {k : Kind} (hk : k.symbol ≠ []) (rest : Text) :
    Token.scan (k.symbol ++ rest) = Token.scan k.symbol ++ Token.scan rest ∧
      Text.DigitFree (k.symbol ++ rest) := by
  cases k with
  | implication =>
    exact ⟨Token.scan_arrow_cons rest, Text.digitFree_cons.2 (by decide)⟩
  | disjunction | conjunction | negation | universal | existential | equality | sum | product
  | successor =>
    exact ⟨Token.scan_byte_cons (by decide) (by decide) rest, Text.digitFree_cons.2 (by decide)⟩
  | predicate | function | var | zero | other => exact absurd rfl hk

theorem scan_rparen (rest : Text) : Token.scan ([41] ++ rest) = .rparen :: Token.scan rest :=
  Token.scan_byte_cons (by decide) (by decide) rest

/-- A tree with a sign between its sides is scanned as its tokens if its sides are. -/
theorem scans_binary {k : Kind} (hk : k.symbol ≠ []) {l r : Expr} (hl : l.Scans) (hr : r.Scans) :
    (binary k l r).Scans := by
  intro rest _
  have hclose : Text.DigitFree ([41] ++ rest) := Text.digitFree_cons.2 (by decide)
  obtain ⟨hsign, hfree⟩ := scan_symbol_append hk (r.canonical ++ ([41] ++ rest))
  rw [canonical_binary, tokens_binary, List.cons_append,
    Token.scan_byte_cons (by decide) (by decide)]
  simp only [List.append_assoc]
  rw [hl _ hfree, hsign, hr _ hclose, scan_rparen]
  simp

/-- A negation is scanned as its tokens if what it negates is. -/
theorem scans_negation {a : Expr} (ha : a.Scans) : (negation a).Scans := by
  intro rest _
  have hclose : Text.DigitFree ([41] ++ rest) := Text.digitFree_cons.2 (by decide)
  rw [canonical_negation, tokens_negation, List.cons_append, List.cons_append,
    Token.scan_byte_cons (by decide) (by decide), Token.scan_byte_cons (by decide) (by decide),
    List.append_assoc, ha _ hclose, scan_rparen]
  simp

/-- A successor is scanned as its tokens if what stands before the prime is. -/
theorem scans_successor {a : Expr} (ha : a.Scans) : (successor a).Scans := by
  intro rest _
  have hprime : Text.DigitFree ([39] ++ rest) := Text.digitFree_cons.2 (by decide)
  have hscan : Token.scan ([39] ++ rest) = .prime :: Token.scan rest :=
    Token.scan_byte_cons (by decide) (by decide) rest
  rw [canonical_successor, tokens_successor, List.append_assoc, ha _ hprime, hscan]
  simp

/-- A quantified formula is scanned as its tokens if its body is, and if the body does not continue
the name of the variable. -/
theorem scans_quantified {k : Kind} (hk : k.symbol ≠ []) {x : Text}
    (hx : Text.isIdent Byte.isLetter x = true) {b : Expr} (hb : b.Scans)
    (hfree : ∀ rest : Text, Text.DigitFree (b.canonical ++ rest)) : (quantified k x b).Scans := by
  intro rest _
  have hclose : Text.DigitFree ([41] ++ rest) := Text.digitFree_cons.2 (by decide)
  rw [canonical_quantified, tokens_quantified, List.cons_append,
    Token.scan_byte_cons (by decide) (by decide)]
  simp only [List.append_assoc]
  rw [(scan_symbol_append hk _).1, Token.scan_ident_append hx (hfree _), hb _ hclose, scan_rparen]
  simp

section
variable {args : List Expr}

/-- No name goes on into the arguments behind a comma. -/
theorem digitFree_canonicalAfter (rest : Text) : Text.DigitFree (canonicalAfter args ++ rest) := by
  cases args <;> exact Text.digitFree_cons.2 (by decide)

/-- No name goes on into its argument list. -/
theorem digitFree_canonicalInside {rest : Text} (h : rest.DigitFree) :
    Text.DigitFree (canonicalInside args ++ rest) := by
  cases args with
  | nil => exact h
  | cons a args => exact Text.digitFree_cons.2 (by decide)

/-- The arguments behind a comma are scanned as their tokens. -/
theorem scan_canonicalAfter (h : ∀ a ∈ args, a.Scans) (rest : Text) :
    Token.scan (canonicalAfter args ++ rest) = tokensAfter args ++ Token.scan rest := by
  induction args with
  | nil => exact scan_rparen rest
  | cons a args ih =>
    rw [canonicalAfter, tokensAfter_cons, List.cons_append,
      Token.scan_byte_cons (by decide) (by decide), List.append_assoc,
      h a (by simp) _ (digitFree_canonicalAfter rest), ih fun b hb => h b (by simp [hb])]
    simp

/-- An argument list is scanned as its tokens. -/
theorem scan_canonicalInside (h : ∀ a ∈ args, a.Scans) (rest : Text) :
    Token.scan (canonicalInside args ++ rest) = tokensInside args ++ Token.scan rest := by
  cases args with
  | nil => rfl
  | cons a args =>
    rw [canonicalInside, tokensInside_cons, List.cons_append,
      Token.scan_byte_cons (by decide) (by decide), List.append_assoc,
      h a (by simp) _ (digitFree_canonicalAfter rest),
      scan_canonicalAfter fun b hb => h b (by simp [hb])]
    simp

end

/-- The text of a term is scanned as its tokens. -/
theorem IsTerm.scans {e : Expr} (h : e.IsTerm) : e.Scans := by
  induction h with
  | var hx =>
    intro rest hr
    rw [canonical_var, Token.scan_ident_append (Text.isIdent_isLetter.2 (.inr hx)) hr, tokens_var]
    rfl
  | zero =>
    intro rest hr
    rw [canonical_zero, List.singleton_append, Token.scan_byte_cons (by decide) (by decide),
      tokens_zero]
    rfl
  | successor _ ih => exact scans_successor ih
  | plus _ _ ihs iht | times _ _ ihs iht => exact scans_binary (by decide) ihs iht
  | function hf _ _ ih =>
    intro rest hr
    rw [canonical_function, List.append_assoc,
      Token.scan_ident_append (Text.isIdent_isLetter.2 (.inr hf)) (digitFree_canonicalInside hr),
      scan_canonicalInside ih, tokens_function]
    rfl

/-- A formula starts with a parenthesis or a letter. -/
theorem IsFormula.digitFree_append {e : Expr} (h : e.IsFormula) (rest : Text) :
    Text.DigitFree (e.canonical ++ rest) := by
  cases h with
  | predicate hp =>
    obtain ⟨b, digits, rfl, hb, -⟩ := Text.isIdent_iff.1 hp
    rw [canonical_predicate]
    exact Text.digitFree_cons.2 (Byte.isDigit_of_isLetter (Byte.isLetter_of_isUpper hb))
  | equals | implies | or | and =>
    rw [canonical_binary]
    exact Text.digitFree_cons.2 (by decide)
  | negation =>
    rw [canonical_negation]
    exact Text.digitFree_cons.2 (by decide)
  | forAll | exist =>
    rw [canonical_quantified]
    exact Text.digitFree_cons.2 (by decide)

/-- The text of a formula is scanned as its tokens. -/
theorem IsFormula.scans {e : Expr} (h : e.IsFormula) : e.Scans := by
  induction h with
  | equals hs ht => exact scans_binary (by decide) hs.scans ht.scans
  | predicate hp hargs =>
    intro rest hr
    rw [canonical_predicate, List.append_assoc,
      Token.scan_ident_append (Text.isIdent_isLetter.2 (.inl hp)) (digitFree_canonicalInside hr),
      scan_canonicalInside fun a ha => (hargs a ha).scans, tokens_predicate]
    rfl
  | negation _ ih => exact scans_negation ih
  | implies _ _ iha ihb | or _ _ iha ihb | and _ _ iha ihb =>
    exact scans_binary (by decide) iha ihb
  | forAll hx ha ih | exist hx ha ih =>
    exact scans_quantified (by decide) (Text.isIdent_isLetter.2 (.inr hx)) ih ha.digitFree_append

/-- The text of a well-formed tree, on its own, is scanned as its tokens. -/
theorem WellFormed.scan_canonical {e : Expr} (h : e.WellFormed) :
    Token.scan e.canonical = e.tokens := by
  have hs : e.Scans := h.elim IsFormula.scans IsTerm.scans
  simpa [Token.scan] using hs [] Text.digitFree_nil

/-! ## The bytes of a canonical text -/

theorem visible_symbol (k : Kind) : k.symbol.all Byte.isVisible = true := by
  cases k <;> rfl

/-- Arguments behind a comma have no white space if none of them has any. -/
theorem visible_canonicalAfter {args : List Expr}
    (h : ∀ a ∈ args, a.canonical.all Byte.isVisible = true) :
    (canonicalAfter args).all Byte.isVisible = true := by
  induction args with
  | nil => rfl
  | cons a args ih =>
    rw [canonicalAfter, List.all_cons, List.all_append, h a (by simp),
      ih fun b hb => h b (by simp [hb])]
    rfl

/-- An argument list has no white space if none of the arguments has any. -/
theorem visible_canonicalInside {args : List Expr}
    (h : ∀ a ∈ args, a.canonical.all Byte.isVisible = true) :
    (canonicalInside args).all Byte.isVisible = true := by
  cases args with
  | nil => rfl
  | cons a args =>
    rw [canonicalInside, List.all_cons, List.all_append, h a (by simp),
      visible_canonicalAfter fun b hb => h b (by simp [hb])]
    rfl

/-- The text of a term has no white space in it. -/
theorem IsTerm.visible {e : Expr} (h : e.IsTerm) : e.canonical.all Byte.isVisible = true := by
  induction h with
  | var hx =>
    rw [canonical_var]
    exact Text.isIdent_visible (Text.isIdent_isLetter.2 (.inr hx))
  | zero =>
    rw [canonical_zero]
    rfl
  | successor _ ih =>
    rw [canonical_successor, List.all_append, ih]
    rfl
  | plus _ _ ihs iht | times _ _ ihs iht =>
    rw [canonical_binary, List.all_cons, List.all_append, List.all_append, List.all_append,
      visible_symbol, ihs, iht]
    rfl
  | function hf _ _ ih =>
    rw [canonical_function, List.all_append, visible_canonicalInside ih,
      Text.isIdent_visible (Text.isIdent_isLetter.2 (.inr hf))]
    rfl

/-- The text of a formula has no white space in it. -/
theorem IsFormula.visible {e : Expr} (h : e.IsFormula) :
    e.canonical.all Byte.isVisible = true := by
  induction h with
  | equals hs ht =>
    rw [canonical_binary, List.all_cons, List.all_append, List.all_append, List.all_append,
      visible_symbol, hs.visible, ht.visible]
    rfl
  | predicate hp hargs =>
    rw [canonical_predicate, List.all_append,
      visible_canonicalInside fun a ha => (hargs a ha).visible,
      Text.isIdent_visible (Text.isIdent_isLetter.2 (.inl hp))]
    rfl
  | negation _ ih =>
    rw [canonical_negation, List.all_cons, List.all_cons, List.all_append, ih]
    rfl
  | implies _ _ iha ihb | or _ _ iha ihb | and _ _ iha ihb =>
    rw [canonical_binary, List.all_cons, List.all_append, List.all_append, List.all_append,
      visible_symbol, iha, ihb]
    rfl
  | forAll hx _ ih | exist hx _ ih =>
    rw [canonical_quantified, List.all_cons, List.all_append, List.all_append, List.all_append,
      visible_symbol, ih, Text.isIdent_visible (Text.isIdent_isLetter.2 (.inr hx))]
    rfl

/-- A canonical text has no white space. -/
theorem WellFormed.stripSpace_canonical {e : Expr} (h : e.WellFormed) :
    e.canonical.stripSpace = e.canonical :=
  Text.stripSpace_eq_self (h.elim IsFormula.visible IsTerm.visible)

end Expr

end Sequitur
