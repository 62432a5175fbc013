import Mathlib
import Sequitur.Expr.Parser

/-!
# The grammar of formulas and terms

The grammar, as derivations over lists of tokens. A `Phrase` is a nonterminal together with the
tree a text derived from it denotes, and `Derives p ts` says that the tokens `ts` are derived from
the nonterminal of `p` and denote its tree. There is one constructor for each alternative; a
repetition has one constructor for the item alone and one for an item more, on the side on which
the trees nest. `'(' Expr ')'` and `'(' Term ')'` are alternatives like all others: nothing here
looks ahead.

Two facts prepare the comparison with the readers. The parentheses of a phrase are balanced, so
looking for a closing parenthesis passes over it (`Derives.closesBeforeSign_append`), and a term
that starts with a parenthesis shows a sign after the partner of that parenthesis as soon as a
sign follows the term (`Derives.opensTerm`).
-/

namespace Sequitur.Grammar

open Sequitur.Parser

/-- A nonterminal of the grammar and the tree, or for arguments the trees, that it denotes. -/
inductive Phrase where
  | expr (e : Expr)
  | disj (e : Expr)
  | conj (e : Expr)
  | unary (e : Expr)
  | quantified (e : Expr)
  | predicate (e : Expr)
  | term (e : Expr)
  | add (e : Expr)
  | mul (e : Expr)
  | inc (e : Expr)
  | primary (e : Expr)
  | args (es : List Expr)

/-- The tokens are derived from the nonterminal of the phrase and denote its tree. -/
inductive Derives : Phrase → List Token → Prop
  /-- `Expr := Disj ('->' Expr)?` -/
  | disj {e ts} : Derives (.disj e) ts → Derives (.expr e) ts
  | implies {a b ts us} : Derives (.disj a) ts → Derives (.expr b) us →
      Derives (.expr (.implies a b)) (ts ++ .arrow :: us)
  /-- `Disj := Conj ('|' Conj)*` -/
  | conj {e ts} : Derives (.conj e) ts → Derives (.disj e) ts
  | or {a b ts us} : Derives (.disj a) ts → Derives (.conj b) us →
      Derives (.disj (.or a b)) (ts ++ .bar :: us)
  /-- `Conj := Unary ('&' Unary)*` -/
  | unary {e ts} : Derives (.unary e) ts → Derives (.conj e) ts
  | and {a b ts us} : Derives (.conj a) ts → Derives (.unary b) us →
      Derives (.conj (.and a b)) (ts ++ .ampersand :: us)
  /-- `Unary := '!' Unary | '(' Expr ')' | Quantified | Predicate` -/
  | negation {e ts} : Derives (.unary e) ts → Derives (.unary (.negation e)) (.bang :: ts)
  | parens {e ts} : Derives (.expr e) ts → Derives (.unary e) (.lparen :: (ts ++ [.rparen]))
  | quantified {e ts} : Derives (.quantified e) ts → Derives (.unary e) ts
  | predicate {e ts} : Derives (.predicate e) ts → Derives (.unary e) ts
  /-- `Quantified := ('@'|'?') Variable Unary` -/
  | forAll {x e ts} : isLowerName x = true → Derives (.unary e) ts →
      Derives (.quantified (.forAll x e)) (.forAll :: .ident x :: ts)
  | exist {x e ts} : isLowerName x = true → Derives (.unary e) ts →
      Derives (.quantified (.exist x e)) (.exist :: .ident x :: ts)
  /-- `Predicate := UpperId ('(' Term (',' Term)* ')')? | Term '=' Term` -/
  | letter {p} : isUpperName p = true → Derives (.predicate (.predicate p [])) [.ident p]
  | applied {p es ts} : isUpperName p = true → Derives (.args es) ts →
      Derives (.predicate (.predicate p es)) (.ident p :: .lparen :: (ts ++ [.rparen]))
  | equals {a b ts us} : Derives (.term a) ts → Derives (.term b) us →
      Derives (.predicate (.equals a b)) (ts ++ .equals :: us)
  /-- `Term := Add` -/
  | add {e ts} : Derives (.add e) ts → Derives (.term e) ts
  /-- `Add := Mul ('+' Mul)*` -/
  | mul {e ts} : Derives (.mul e) ts → Derives (.add e) ts
  | plus {a b ts us} : Derives (.add a) ts → Derives (.mul b) us →
      Derives (.add (.plus a b)) (ts ++ .plus :: us)
  /-- `Mul := Inc ('*' Inc)*` -/
  | inc {e ts} : Derives (.inc e) ts → Derives (.mul e) ts
  | times {a b ts us} : Derives (.mul a) ts → Derives (.inc b) us →
      Derives (.mul (.times a b)) (ts ++ .star :: us)
  /-- `Inc := Primary ("'")*` -/
  | primary {e ts} : Derives (.primary e) ts → Derives (.inc e) ts
  | successor {e ts} : Derives (.inc e) ts → Derives (.inc (.successor e)) (ts ++ [.prime])
  /-- `Primary := LowerId ('(' Term (',' Term)* ')')? | '(' Term ')' | '0'` -/
  | var {x} : isLowerName x = true → Derives (.primary (.var x)) [.ident x]
  | function {f es ts} : isLowerName f = true → Derives (.args es) ts →
      Derives (.primary (.function f es)) (.ident f :: .lparen :: (ts ++ [.rparen]))
  | group {e ts} : Derives (.term e) ts → Derives (.primary e) (.lparen :: (ts ++ [.rparen]))
  | zero : Derives (.primary .zero) [.zero]
  /-- `Term (',' Term)*` -/
  | lastArg {e ts} : Derives (.term e) ts → Derives (.args [e]) ts
  | arg {e es ts us} : Derives (.term e) ts → Derives (.args es) us →
      Derives (.args (e :: es)) (ts ++ .comma :: us)

/-- No phrase is empty. -/
theorem Derives.length_pos {p : Phrase} {ts : List Token} (h : Derives p ts) : 0 < ts.length := by
  induction h <;> simp_all

/-! ## Looking for a closing parenthesis -/

/-- A token that is no parenthesis is passed over. -/
theorem closesBeforeSign_cons {t : Token} (hl : t ≠ .lparen) (hr : t ≠ .rparen) (depth : Nat)
    (ts : List Token) : closesBeforeSign depth (t :: ts) = closesBeforeSign depth ts := by
  rw [closesBeforeSign.eq_def]
  split <;> simp_all

/-- An opening parenthesis goes one level down. -/
theorem closesBeforeSign_lparen (depth : Nat) (ts : List Token) :
    closesBeforeSign depth (.lparen :: ts) = closesBeforeSign (depth + 1) ts := rfl

/-- A parenthesis that closes an inner one. -/
theorem closesBeforeSign_rparen {depth : Nat} (h : 0 < depth) (ts : List Token) :
    closesBeforeSign (depth + 1) (.rparen :: ts) = closesBeforeSign depth ts := by
  rw [closesBeforeSign.eq_def]
  simp only [Nat.add_sub_cancel]
  rw [if_neg (by omega)]

/-- The parentheses of a phrase are balanced. -/
theorem Derives.closesBeforeSign_append {p : Phrase} {ts : List Token} (h : Derives p ts)
    {depth : Nat} (hd : 0 < depth) (rest : List Token) :
    closesBeforeSign depth (ts ++ rest) = closesBeforeSign depth rest := by
  induction h generalizing depth rest with
  | disj _ ih | conj _ ih | unary _ ih | quantified _ ih | predicate _ ih | add _ ih | mul _ ih
  | inc _ ih | primary _ ih | lastArg _ ih => exact ih hd rest
  | implies _ _ ih₁ ih₂ | or _ _ ih₁ ih₂ | and _ _ ih₁ ih₂ | equals _ _ ih₁ ih₂ | plus _ _ ih₁ ih₂
  | times _ _ ih₁ ih₂ | arg _ _ ih₁ ih₂ =>
    rw [List.append_assoc, List.cons_append, ih₁ hd,
      closesBeforeSign_cons (by decide) (by decide), ih₂ hd]
  | negation _ ih =>
    rw [List.cons_append, closesBeforeSign_cons (by decide) (by decide), ih hd]
  | forAll _ _ ih | exist _ _ ih =>
    rw [List.cons_append, List.cons_append, closesBeforeSign_cons (by decide) (by decide),
      closesBeforeSign_cons (by simp) (by simp), ih hd]
  | letter | var =>
    rw [List.cons_append, closesBeforeSign_cons (by simp) (by simp), List.nil_append]
  | zero =>
    rw [List.cons_append, closesBeforeSign_cons (by decide) (by decide), List.nil_append]
  | successor _ ih =>
    rw [List.append_assoc, ih hd, List.cons_append, closesBeforeSign_cons (by decide) (by decide),
      List.nil_append]
  | parens _ ih | group _ ih =>
    rw [List.cons_append, List.append_assoc, closesBeforeSign_lparen, ih (Nat.succ_pos _),
      List.cons_append, closesBeforeSign_rparen hd, List.nil_append]
  | applied _ _ ih | function _ _ ih =>
    rw [List.cons_append, List.cons_append, List.append_assoc,
      closesBeforeSign_cons (by simp) (by simp), closesBeforeSign_lparen, ih (Nat.succ_pos _),
      List.cons_append, closesBeforeSign_rparen hd, List.nil_append]

/-- The signs that tell a term in parentheses from a formula in parentheses. -/
def IsSign (t : Token) : Prop := t = .equals ∨ t = .plus ∨ t = .star ∨ t = .prime

/-- A closing parenthesis shows the token after it. -/
theorem closesBeforeSign_one_rparen (ts : List Token) :
    closesBeforeSign 1 (.rparen :: ts) = true ↔ ∃ t ∈ ts.head?, IsSign t := by
  rw [closesBeforeSign.eq_def]
  simp only [Nat.le_refl, if_true]
  cases ts with
  | nil => simp
  | cons t ts => split <;> simp_all [IsSign]

/-- The nonterminals that derive terms. -/
def Phrase.IsTerm : Phrase → Prop
  | .term _ | .add _ | .mul _ | .inc _ | .primary _ => True
  | _ => False

/-- A term in front of a sign that starts with a parenthesis has a sign after the partner of that
parenthesis: the parenthesis belongs to the first primary, and after it comes the sign or what
else continues the term. -/
theorem Derives.opensTerm {p : Phrase} {ts : List Token} (h : Derives p ts) (hp : p.IsTerm)
    {sign : Token} (hs : IsSign sign) {ts' : List Token} (hts : ts = .lparen :: ts')
    (rest : List Token) : opensTerm (ts' ++ sign :: rest) = true := by
  induction h generalizing sign ts' rest with
  | add _ ih | mul _ ih | inc _ ih | primary _ ih => exact ih trivial hs hts rest
  | @plus _ _ ts us h₁ _ ih _ | @times _ _ ts us h₁ _ ih _ =>
    obtain ⟨t, ts, rfl⟩ := List.exists_cons_of_length_pos h₁.length_pos
    rw [List.cons_append, List.cons.injEq] at hts
    obtain ⟨rfl, rfl⟩ := hts
    rw [List.append_assoc, List.cons_append]
    exact ih trivial (by simp [IsSign]) rfl _
  | @successor _ ts h₁ ih =>
    obtain ⟨t, ts, rfl⟩ := List.exists_cons_of_length_pos h₁.length_pos
    rw [List.cons_append, List.cons.injEq] at hts
    obtain ⟨rfl, rfl⟩ := hts
    rw [List.append_assoc, List.cons_append]
    exact ih trivial (by simp [IsSign]) rfl _
  | group h₁ =>
    obtain rfl := (List.cons.inj hts).2
    rw [Parser.opensTerm, List.append_assoc, h₁.closesBeforeSign_append Nat.one_pos]
    exact (closesBeforeSign_one_rparen _).2 ⟨sign, rfl, hs⟩
  | var | zero | function => simp at hts
  | _ => exact hp.elim

/-- A formula in parentheses has no sign after them. -/
theorem Derives.not_opensTerm {p : Phrase} {ts : List Token} (h : Derives p ts)
    {rest : List Token} (hr : ∀ t ∈ rest.head?, ¬ IsSign t) :
    Parser.opensTerm (ts ++ .rparen :: rest) = false := by
  rw [Parser.opensTerm, h.closesBeforeSign_append Nat.one_pos, ← Bool.not_eq_true,
    closesBeforeSign_one_rparen]
  rintro ⟨t, ht, hs⟩
  exact hr t ht hs

end Sequitur.Grammar
