import Mathlib
import Sequitur.Proofs.WellFormed

/-!
# Unique readability

A canonical text is read as the tree it belongs to, and whatever is read is well-formed. The
canonical tokens of a term are derived as an increment and those of a formula as a `Unary`
(`IsTerm.derives`, `IsFormula.derives`), so no enclosing parentheses are needed. A derivation
whose names are identifiers denotes a well-formed tree (`Derives.wellFormed`), and scanning finds
only identifiers. Finally a formula has an equality sign or an upper-case name somewhere and a term
has neither, so the two never share a text. Comparing canonical texts therefore compares trees
(`Expr.canonical_inj`), which is what every later argument about the checker rests on.
-/

namespace Sequitur

open Grammar

namespace Expr

/-! ## Deriving a canonical text -/

/-- The parser takes an identifier with a small letter for one. -/
theorem isLowerName_of_isLowerIdent {x : Text} (h : Text.isLowerIdent x = true) :
    Parser.isLowerName x = true := by
  obtain ⟨b, digits, rfl, hb, -⟩ := Text.isIdent_iff.1 h
  exact hb

/-- The parser takes an identifier with a capital letter for one. -/
theorem isUpperName_of_isUpperIdent {x : Text} (h : Text.isUpperIdent x = true) :
    Parser.isUpperName x = true := by
  obtain ⟨b, digits, rfl, hb, -⟩ := Text.isIdent_iff.1 h
  exact hb

/-- An increment alone is a term. -/
theorem derives_term_of_inc {e : Expr} {ts : List Token} (h : Derives (.inc e) ts) :
    Derives (.term e) ts :=
  .add (.mul (.inc h))

/-- A `Unary` alone is a formula. -/
theorem derives_expr_of_unary {e : Expr} {ts : List Token} (h : Derives (.unary e) ts) :
    Derives (.expr e) ts :=
  .disj (.conj (.unary h))

/-- The grammar derives arguments from the tokens between their parentheses, if it derives each of
them. -/
theorem derives_args {a : Expr} {args : List Expr}
    (h : ∀ e ∈ a :: args, Derives (.inc e) e.tokens) :
    ∃ ts, tokensInside (a :: args) = .lparen :: (ts ++ [.rparen]) ∧
      Derives (.args (a :: args)) ts := by
  have hafter : ∀ (args : List Expr) (a : Expr), (∀ e ∈ a :: args, Derives (.inc e) e.tokens) →
      ∃ ts, a.tokens ++ tokensAfter args = ts ++ [.rparen] ∧ Derives (.args (a :: args)) ts := by
    intro args
    induction args with
    | nil =>
      intro a h
      exact ⟨a.tokens, rfl, .lastArg (derives_term_of_inc (h a (by simp)))⟩
    | cons b args ih =>
      intro a h
      obtain ⟨ts, hts, hd⟩ := ih b fun e he => h e (by simp [he])
      refine ⟨a.tokens ++ .comma :: ts, ?_, .arg (derives_term_of_inc (h a (by simp))) hd⟩
      rw [tokensAfter_cons, hts, List.append_assoc, List.cons_append]
  obtain ⟨ts, hts, hd⟩ := hafter args a h
  exact ⟨ts, by rw [tokensInside_cons, hts], hd⟩

/-- The sides of a binary node with its sign between them, in parentheses. -/
theorem tokens_binary_sign {k : Kind} {sign : Token} (hk : Token.scan k.symbol = [sign])
    (l r : Expr) :
    (binary k l r).tokens = .lparen :: ((l.tokens ++ sign :: r.tokens) ++ [.rparen]) := by
  rw [tokens_binary, hk]
  simp

theorem derives_group {e : Expr} {ts : List Token} (h : Derives (.add e) ts) :
    Derives (.inc e) (.lparen :: (ts ++ [.rparen])) :=
  .primary (.group (.add h))

/-- The grammar derives a term from its tokens. -/
theorem IsTerm.derives {e : Expr} (h : e.IsTerm) : Derives (.inc e) e.tokens := by
  induction h with
  | var hx =>
    rw [tokens_var]
    exact .primary (.var (isLowerName_of_isLowerIdent hx))
  | zero =>
    rw [tokens_zero]
    exact .primary .zero
  | successor _ ih =>
    rw [tokens_successor]
    exact .successor ih
  | @plus s t _ _ ihs iht =>
    rw [tokens_binary_sign rfl]
    exact derives_group (.plus (.mul (.inc ihs)) (.inc iht))
  | @times s t _ _ ihs iht =>
    rw [tokens_binary_sign rfl]
    exact derives_group (.mul (.times (.inc ihs) iht))
  | @function f args hf hne _ ih =>
    obtain ⟨a, args, rfl⟩ := List.exists_cons_of_ne_nil hne
    obtain ⟨ts, hts, hd⟩ := derives_args ih
    rw [tokens_function, hts]
    exact .primary (.function (isLowerName_of_isLowerIdent hf) hd)

/-- The grammar derives a formula from its tokens. -/
theorem IsFormula.derives {e : Expr} (h : e.IsFormula) : Derives (.unary e) e.tokens := by
  induction h with
  | @equals s t hs ht =>
    have heq := Derives.equals (derives_term_of_inc hs.derives) (derives_term_of_inc ht.derives)
    rw [tokens_binary_sign rfl]
    exact .parens (derives_expr_of_unary (.predicate heq))
  | @predicate p args hp hargs =>
    rw [tokens_predicate]
    cases args with
    | nil => exact .predicate (.letter (isUpperName_of_isUpperIdent hp))
    | cons a args =>
      obtain ⟨ts, hts, hd⟩ := derives_args fun e he => (hargs e he).derives
      rw [hts]
      exact .predicate (.applied (isUpperName_of_isUpperIdent hp) hd)
  | negation _ ih =>
    rw [tokens_negation]
    exact .parens (derives_expr_of_unary (.negation ih))
  | implies _ _ iha ihb =>
    rw [tokens_binary_sign rfl]
    exact .parens (.implies (.conj (.unary iha)) (derives_expr_of_unary ihb))
  | or _ _ iha ihb =>
    rw [tokens_binary_sign rfl]
    exact .parens (.disj (.or (.conj (.unary iha)) (.unary ihb)))
  | and _ _ iha ihb =>
    rw [tokens_binary_sign rfl]
    exact .parens (.disj (.conj (.and (.unary iha) ihb)))
  | forAll hx _ ih =>
    rw [tokens_quantified]
    have hquantified := Derives.forAll (isLowerName_of_isLowerIdent hx) ih
    exact .parens (derives_expr_of_unary (.quantified hquantified))
  | exist hx _ ih =>
    rw [tokens_quantified]
    exact .parens (derives_expr_of_unary (.quantified (.exist (isLowerName_of_isLowerIdent hx) ih)))

/-- A canonical text of a formula is read as that formula. -/
theorem IsFormula.parse_canonical {e : Expr} (h : e.IsFormula) :
    e.canonical.parseFormula = .ok e := by
  rw [parseFormula_eq_ok_iff, WellFormed.stripSpace_canonical (.inl h),
    WellFormed.scan_canonical (.inl h)]
  exact derives_expr_of_unary h.derives

/-- A canonical text of a term is read as that term. -/
theorem IsTerm.parse_canonical {e : Expr} (h : e.IsTerm) : e.canonical.parseTerm = .ok e := by
  rw [parseTerm_eq_ok_iff, WellFormed.stripSpace_canonical (.inr h),
    WellFormed.scan_canonical (.inr h)]
  exact derives_term_of_inc h.derives

end Expr

/-! ## Whatever is read is well-formed -/

/-- The trees of the phrase are formulas or terms, as its nonterminal says. -/
def Grammar.Phrase.WellFormed : Phrase → Prop
  | .expr e | .disj e | .conj e | .unary e | .quantified e | .predicate e => e.IsFormula
  | .term e | .add e | .mul e | .inc e | .primary e => e.IsTerm
  | .args es => es ≠ [] ∧ ∀ e ∈ es, e.IsTerm

/-- The names among the tokens are identifiers. -/
def Token.Named (ts : List Token) : Prop :=
  ∀ x, .ident x ∈ ts → Text.isIdent Byte.isLetter x = true

theorem Token.Named.left {ts us : List Token} (h : Named (ts ++ us)) : Named ts :=
  fun x hx => h x (List.mem_append_left us hx)

theorem Token.Named.right {ts us : List Token} {t : Token} (h : Named (ts ++ t :: us)) :
    Named us :=
  fun x hx => h x (List.mem_append_right ts (List.mem_cons_of_mem t hx))

theorem Token.Named.tail {ts : List Token} {t : Token} (h : Named (t :: ts)) : Named ts :=
  fun x hx => h x (List.mem_cons_of_mem t hx)

/-- What the parser takes for a small name is an identifier with a small letter. -/
theorem Token.Named.isLowerIdent {ts : List Token} {x : Text} (h : Named (.ident x :: ts))
    (hx : Parser.isLowerName x = true) : Text.isLowerIdent x = true := by
  obtain ⟨b, digits, rfl, -, hd⟩ := Text.isIdent_iff.1 (h x (by simp))
  exact Text.isIdent_iff.2 ⟨b, digits, rfl, hx, hd⟩

/-- What the parser takes for a capital name is an identifier with a capital letter. -/
theorem Token.Named.isUpperIdent {ts : List Token} {x : Text} (h : Named (.ident x :: ts))
    (hx : Parser.isUpperName x = true) : Text.isUpperIdent x = true := by
  obtain ⟨b, digits, rfl, -, hd⟩ := Text.isIdent_iff.1 (h x (by simp))
  exact Text.isIdent_iff.2 ⟨b, digits, rfl, hx, hd⟩

/-- Scanning finds only identifiers as names. -/
theorem Token.named_scan (text : Text) : Named (scan text) := by
  obtain ⟨ts, hts⟩ := exists_lexes text
  rw [← hts.eq_scan]
  induction hts with
  | nil => simp [Named]
  | ident hb hd _ _ ih =>
    intro x hx
    rcases List.mem_cons.1 hx with hx | hx
    · obtain rfl := Token.ident.inj hx
      exact Text.isIdent_iff.2 ⟨_, _, rfl, hb, hd⟩
    · exact ih x hx
  | arrow _ ih | byte _ _ _ ih =>
    intro x hx
    rcases List.mem_cons.1 hx with hx | hx
    · cases hx
    · exact ih x hx

/-- A derivation over identifiers denotes a well-formed tree. -/
theorem Grammar.Derives.wellFormed {p : Phrase} {ts : List Token} (h : Derives p ts)
    (hn : Token.Named ts) : p.WellFormed := by
  induction h with
  | disj _ ih | conj _ ih | unary _ ih | quantified _ ih | predicate _ ih | add _ ih | mul _ ih
  | inc _ ih | primary _ ih => exact ih hn
  | implies _ _ ih₁ ih₂ => exact .implies (ih₁ hn.left) (ih₂ hn.right)
  | or _ _ ih₁ ih₂ => exact .or (ih₁ hn.left) (ih₂ hn.right)
  | and _ _ ih₁ ih₂ => exact .and (ih₁ hn.left) (ih₂ hn.right)
  | negation _ ih => exact .negation (ih hn.tail)
  | parens _ ih | group _ ih => exact ih hn.tail.left
  | forAll hx _ ih => exact .forAll (hn.tail.isLowerIdent hx) (ih hn.tail.tail)
  | exist hx _ ih => exact .exist (hn.tail.isLowerIdent hx) (ih hn.tail.tail)
  | letter hp => exact .predicate (hn.isUpperIdent hp) (by simp)
  | applied hp _ ih => exact .predicate (hn.isUpperIdent hp) (ih hn.tail.tail.left).2
  | equals _ _ ih₁ ih₂ => exact .equals (ih₁ hn.left) (ih₂ hn.right)
  | plus _ _ ih₁ ih₂ => exact .plus (ih₁ hn.left) (ih₂ hn.right)
  | times _ _ ih₁ ih₂ => exact .times (ih₁ hn.left) (ih₂ hn.right)
  | successor _ ih => exact .successor (ih hn.left)
  | var hx => exact .var (hn.isLowerIdent hx)
  | function hf _ ih =>
    obtain ⟨hne, hargs⟩ := ih hn.tail.tail.left
    exact .function (hn.isLowerIdent hf) hne hargs
  | zero => exact .zero
  | lastArg _ ih =>
    refine ⟨by simp, fun e he => ?_⟩
    rw [List.mem_singleton.1 he]
    exact ih hn
  | arg _ _ ih₁ ih₂ =>
    refine ⟨by simp, fun e he => ?_⟩
    rcases List.mem_cons.1 he with rfl | he
    · exact ih₁ hn.left
    · exact (ih₂ hn.right).2 e he

/-- What is read as a formula is one. -/
theorem Text.isFormula_of_parseFormula {text : Text} {e : Expr} (h : text.parseFormula = .ok e) :
    e.IsFormula :=
  (parseFormula_eq_ok_iff.1 h).wellFormed (Token.named_scan _)

theorem Text.isTerm_of_parseTerm {text : Text} {e : Expr} (h : text.parseTerm = .ok e) :
    e.IsTerm :=
  (parseTerm_eq_ok_iff.1 h).wellFormed (Token.named_scan _)

/-! ## Formulas and terms have different texts -/

/-- A token that stands in formulas only. -/
def Token.MarksFormula : Token → Prop
  | .ident x => Parser.isUpperName x = true
  | t => t = .equals

/-- What the tokens of a phrase tell about its nonterminal. -/
def Grammar.Phrase.Marked : Phrase → List Token → Prop
  | .expr _, ts | .disj _, ts | .conj _, ts | .unary _, ts | .quantified _, ts
  | .predicate _, ts => ∃ t ∈ ts, t.MarksFormula
  | .term _, ts | .add _, ts | .mul _, ts | .inc _, ts | .primary _, ts
  | .args _, ts => ∀ t ∈ ts, ¬ t.MarksFormula

/-- A formula has an equality sign or an upper-case name, and a term has neither. -/
theorem Grammar.Derives.marked {p : Phrase} {ts : List Token} (h : Derives p ts) :
    p.Marked ts := by
  induction h with
  | disj _ ih | conj _ ih | unary _ ih | quantified _ ih | predicate _ ih | add _ ih | mul _ ih
  | inc _ ih | primary _ ih | lastArg _ ih => exact ih
  | implies _ _ ih _ | or _ _ ih _ | and _ _ ih _ =>
    obtain ⟨t, ht, hm⟩ := ih
    exact ⟨t, List.mem_append_left _ ht, hm⟩
  | negation _ ih | parens _ ih | forAll _ _ ih | exist _ _ ih =>
    obtain ⟨t, ht, hm⟩ := ih
    exact ⟨t, by simp [ht], hm⟩
  | letter hp | applied hp => exact ⟨_, List.mem_cons_self, hp⟩
  | equals => exact ⟨.equals, by simp, rfl⟩
  | plus _ _ ih₁ ih₂ | times _ _ ih₁ ih₂ | arg _ _ ih₁ ih₂ =>
    intro t ht
    rcases List.mem_append.1 ht with ht | ht
    · exact ih₁ t ht
    · rcases List.mem_cons.1 ht with rfl | ht
      · simp [Token.MarksFormula]
      · exact ih₂ t ht
  | successor _ ih =>
    intro t ht
    rcases List.mem_append.1 ht with ht | ht
    · exact ih t ht
    · rw [List.mem_singleton.1 ht]
      simp [Token.MarksFormula]
  | var hx =>
    intro t ht
    rw [List.mem_singleton.1 ht]
    simp [Token.MarksFormula, isUpperName_of_isLowerName hx]
  | function hf _ ih =>
    intro t ht
    simp only [List.mem_cons, List.mem_append, List.not_mem_nil, or_false] at ht
    rcases ht with rfl | rfl | ht | rfl
    · simp [Token.MarksFormula, isUpperName_of_isLowerName hf]
    · simp [Token.MarksFormula]
    · exact ih t ht
    · simp [Token.MarksFormula]
  | group _ ih =>
    intro t ht
    simp only [List.mem_cons, List.mem_append, List.not_mem_nil, or_false] at ht
    rcases ht with rfl | ht | rfl
    · simp [Token.MarksFormula]
    · exact ih t ht
    · simp [Token.MarksFormula]
  | zero =>
    intro t ht
    rw [List.mem_singleton.1 ht]
    simp [Token.MarksFormula]

namespace Expr

/-- No formula has the canonical text of a term. -/
theorem IsFormula.canonical_ne {a b : Expr} (ha : a.IsFormula) (hb : b.IsTerm) :
    a.canonical ≠ b.canonical := by
  intro h
  have hts : a.tokens = b.tokens := by
    rw [← WellFormed.scan_canonical (.inl ha), ← WellFormed.scan_canonical (.inr hb), h]
  obtain ⟨t, ht, hm⟩ := ha.derives.marked
  exact hb.derives.marked t (hts ▸ ht) hm

/-- Well-formed trees with the same canonical text are the same. -/
theorem canonical_inj {a b : Expr} (ha : a.WellFormed) (hb : b.WellFormed) :
    a.canonical = b.canonical ↔ a = b := by
  refine ⟨fun h => ?_, congrArg canonical⟩
  rcases ha with ha | ha <;> rcases hb with hb | hb
  · have hread := ha.parse_canonical
    rw [h, hb.parse_canonical] at hread
    exact (Except.ok.inj hread).symm
  · exact absurd h (ha.canonical_ne hb)
  · exact absurd h.symm (hb.canonical_ne ha)
  · have hread := ha.parse_canonical
    rw [h, hb.parse_canonical] at hread
    exact (Except.ok.inj hread).symm

/-- Well-formed trees with the same text are the same. -/
theorem same_iff {a b : Expr} (ha : a.WellFormed) (hb : b.WellFormed) :
    a.same b = true ↔ a = b := by
  rw [same, beq_iff_eq, canonical_inj ha hb]

/-- Unique readability. The canonical text of a formula is read as that formula and the canonical
text of a term as that term, whatever is read is a formula or a term, and two well-formed trees
compare as equal exactly when they are the same tree. -/
theorem unique_readability :
    (∀ f : Expr, f.IsFormula → f.canonical.parseFormula = .ok f) ∧
      (∀ t : Expr, t.IsTerm → t.canonical.parseTerm = .ok t) ∧
      (∀ (text : Text) (e : Expr), text.parseFormula = .ok e → e.IsFormula) ∧
      (∀ (text : Text) (e : Expr), text.parseTerm = .ok e → e.IsTerm) ∧
      ∀ a b : Expr, a.WellFormed → b.WellFormed → (a.same b = true ↔ a = b) :=
  ⟨fun _ h => h.parse_canonical, fun _ h => h.parse_canonical,
    fun _ _ h => Text.isFormula_of_parseFormula h, fun _ _ h => Text.isTerm_of_parseTerm h,
    fun _ _ ha hb => same_iff ha hb⟩

/-- A quantifier has no separator before its body, and a successor no parentheses. -/
theorem unique_readability_quantifier :
    Text.parseFormula "(@x1P1(f(x1,0)'))" =
      .ok (.forAll "x1" (.predicate "P1" [.successor (.function "f" [.var "x1", .zero])])) := by
  have hterm : IsTerm (.successor (.function "f" [.var "x1", .zero])) :=
    .successor (.function (by decide) (by simp) (by
      intro a ha
      rcases List.mem_pair.1 ha with rfl | rfl
      · exact .var (by decide)
      · exact .zero))
  have hformula : IsFormula
      (.forAll "x1" (.predicate "P1" [.successor (.function "f" [.var "x1", .zero])])) :=
    .forAll (by decide) (.predicate (by decide) (by simpa using hterm))
  have htext : canonical
      (.forAll "x1" (.predicate "P1" [.successor (.function "f" [.var "x1", .zero])])) =
      Text.ofString "(@x1P1(f(x1,0)'))" := by cbv
  rw [← htext]
  exact unique_readability.1 _ hformula

end Expr

end Sequitur
