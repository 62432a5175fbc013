import Mathlib
import Sequitur.Proofs.FilledTokens
import Sequitur.Proofs.Numerals

/-!
# Instantiating a text that is not canonical

Instantiation puts a numeral for a name in any text, not only in a canonical one. On the tokens it
fills the places of the name (`Token.fill`), and filling a derivation gives one of the substituted
tree, where only variables have the name (`Grammar.Derives.fill`). Where a quantifier or a function
has it, the filled tokens are no phrase (`Grammar.Derives.varOnly_of_runs`).

But the filled tokens need not be those of the new text. A canonical text has a parenthesis after
the variable of a quantifier; other texts may have a name there, as in `@xv=0`, which is `@x(v=0)`.
A numeral in the place of that name starts with a digit, and the variable takes it in: `@x0=0`. So
the new text is scanned as the filled tokens if the name stands after no other name
(`Text.scan_instantiate`), and otherwise it is not read at all.
-/

namespace Sequitur

open Grammar Token

namespace Expr

/-- The tokens of a numeral are zero and its primes. -/
theorem tokens_numeral (n : Nat) : (numeral n).tokens = .zero :: List.replicate n .prime := by
  induction n with
  | zero => rfl
  | succ n ih => rw [numeral, tokens_successor, ih, List.replicate_succ', List.cons_append]

theorem numeral_ne_var (n : Nat) (y : Text) : numeral n ≠ .var y := by
  cases n <;> nofun

/-- What a numeral consists of are bytes that can be seen, and no names. -/
theorem byte_of_mem_numeral {n : Nat} {t : Token} (h : t ∈ (numeral n).tokens) :
    ∃ b : Byte, t = .byte b ∧ b.isVisible = true := by
  rw [tokens_numeral] at h
  rcases List.mem_cons.1 h with rfl | h
  · exact ⟨48, rfl, rfl⟩
  · exact ⟨39, List.eq_of_mem_replicate h, rfl⟩

end Expr

/-- The tokens with a numeral for the name. -/
abbrev Token.instantiated (v : Text) (n : Nat) (ts : List Token) : List Token :=
  ts.flatMap (fill v (Expr.numeral n).tokens)

section
variable {v : Text} {n : Nat} {ts : List Token}

/-- The tokens with a numeral in them are those of before and visible bytes. -/
theorem Token.mem_instantiated {u : Token} (h : u ∈ instantiated v n ts) :
    (∃ b : Byte, u = .byte b ∧ b.isVisible = true) ∨ u ∈ ts := by
  obtain ⟨t, ht, hu⟩ := List.mem_flatMap.1 h
  rcases mem_fill hu with hu | rfl
  · exact .inl (Expr.byte_of_mem_numeral hu)
  · exact .inr ht

/-- A numeral brings in no names. -/
theorem Token.Named.instantiated (h : Named ts) : Named (instantiated v n ts) := by
  intro x hx
  rcases mem_instantiated hx with ⟨b, ⟨⟩, -⟩ | hx
  exact h x hx

end

/-- Putting a numeral into a text is putting its tokens among those of the text. -/
theorem Text.instantiate_eq_spell (text v : Text) (n : Int) :
    text.instantiate v n = spell (instantiated v n.toNat (scan text)) := by
  rw [instantiate, ← Expr.canonical_numeral, ← (Expr.isTerm_numeral _).spell_tokens,
    replaceIdent_spell]

/-- A numeral brings in no white space. -/
theorem Text.visible_instantiate {text : Text} (h : text.all Byte.isVisible = true) (v : Text)
    (n : Int) : (text.instantiate v n).all Byte.isVisible = true := by
  rw [List.all_eq_true] at h ⊢
  intro b hb
  rw [instantiate_eq_spell] at hb
  obtain ⟨t, ht, hb⟩ := List.mem_flatMap.1 hb
  rcases mem_instantiated ht with ⟨c, rfl, hc⟩ | ht
  · cases List.mem_singleton.1 hb
    exact hc
  · refine h b ?_
    rw [← spell_scan text]
    exact List.mem_flatMap.2 ⟨t, ht, hb⟩

/-- Where the name stands after no other, the tokens of the text with a numeral are those with the
numeral's tokens. -/
theorem Text.scan_instantiate {text v : Text} (h : ¬ text.Adjoins v) (n : Int) :
    scan (text.instantiate v n) = instantiated v n.toNat (scan text) := by
  rw [instantiate, ← Expr.canonical_numeral, scan_replaceIdent h (Expr.isTerm_numeral _)]

/-! ## Derivations -/

namespace Grammar

/-- The nonterminal with the tree substituted. A term may take the place of a variable, and it need
not be a primary one. -/
def Phrase.subst (v : Text) (t : Expr) : Phrase → Phrase
  | .expr e => .expr (e.subst v t)
  | .disj e => .disj (e.subst v t)
  | .conj e => .conj (e.subst v t)
  | .unary e => .unary (e.subst v t)
  | .quantified e => .quantified (e.subst v t)
  | .predicate e => .predicate (e.subst v t)
  | .term e => .term (e.subst v t)
  | .add e => .add (e.subst v t)
  | .mul e => .mul (e.subst v t)
  | .inc e | .primary e => .inc (e.subst v t)
  | .args es => .args (Expr.substAll es v t)

variable {p : Phrase} {ts : List Token} {v : Text}

/-- Filling the tokens of a phrase with those of a term substitutes the term. -/
theorem Derives.fill (hv : Text.isLowerIdent v = true) {t : Expr} {us : List Token}
    (ht : Derives (.inc t) us) (h : Derives p ts) (hn : Named ts) (hp : p.VarOnly v) :
    Derives (p.subst v t) (ts.flatMap (Token.fill v us)) := by
  have hchildren {e : Expr} (h : ∀ a ∈ [e], a.VarOnly v) : ∀ c ∈ e.children, c.VarOnly v :=
    fun _ hc => (List.forall_mem_singleton.1 h).of_mem_children hc
  have hbinary {k : Kind} {a b : Expr} (h : ∀ e ∈ [Expr.binary k a b], e.VarOnly v) :
      (∀ e ∈ [a], e.VarOnly v) ∧ ∀ e ∈ [b], e.VarOnly v :=
    List.forall_mem_append.1 (hchildren h)
  induction h with
  | disj _ ih => exact .disj (ih hn hp)
  | conj _ ih => exact .conj (ih hn hp)
  | unary _ ih => exact .unary (ih hn hp)
  | quantified _ ih => exact .quantified (ih hn hp)
  | predicate _ ih => exact .predicate (ih hn hp)
  | add _ ih => exact .add (ih hn hp)
  | mul _ ih => exact .mul (ih hn hp)
  | inc _ ih => exact .inc (ih hn hp)
  | primary _ ih => exact ih hn hp
  | lastArg _ ih => exact .lastArg (ih hn hp)
  | implies _ _ ih₁ ih₂ =>
    obtain ⟨ha, hb⟩ := hbinary hp
    rw [List.flatMap_append]
    exact .implies (ih₁ hn.left ha) (ih₂ hn.right hb)
  | or _ _ ih₁ ih₂ =>
    obtain ⟨ha, hb⟩ := hbinary hp
    rw [List.flatMap_append]
    exact .or (ih₁ hn.left ha) (ih₂ hn.right hb)
  | and _ _ ih₁ ih₂ =>
    obtain ⟨ha, hb⟩ := hbinary hp
    rw [List.flatMap_append]
    exact .and (ih₁ hn.left ha) (ih₂ hn.right hb)
  | equals _ _ ih₁ ih₂ =>
    obtain ⟨ha, hb⟩ := hbinary hp
    rw [List.flatMap_append]
    exact .equals (ih₁ hn.left ha) (ih₂ hn.right hb)
  | plus _ _ ih₁ ih₂ =>
    obtain ⟨ha, hb⟩ := hbinary hp
    rw [List.flatMap_append]
    exact .plus (ih₁ hn.left ha) (ih₂ hn.right hb)
  | times _ _ ih₁ ih₂ =>
    obtain ⟨ha, hb⟩ := hbinary hp
    rw [List.flatMap_append]
    exact .times (ih₁ hn.left ha) (ih₂ hn.right hb)
  | arg _ _ ih₁ ih₂ =>
    obtain ⟨he, hes⟩ := List.forall_mem_cons.1 hp
    rw [List.flatMap_append]
    exact .arg (ih₁ hn.left (List.forall_mem_singleton.2 he)) (ih₂ hn.right hes)
  | successor _ ih =>
    rw [List.flatMap_append]
    exact .successor (ih hn.left (hchildren hp))
  | negation _ ih => exact .negation (ih hn.tail (hchildren hp))
  | parens _ ih =>
    rw [List.flatMap_cons, List.flatMap_append]
    exact .parens (ih hn.tail.left hp)
  | group _ ih =>
    rw [List.flatMap_cons, List.flatMap_append]
    exact .primary (.group (ih hn.tail.left hp))
  | forAll hx _ ih =>
    obtain ⟨hne, he⟩ := (List.forall_mem_singleton.1 hp).of_quantified (by decide)
    rw [List.flatMap_cons, List.flatMap_cons, fill_ident hne]
    show Derives (.quantified ((Expr.forAll _ _).subst v t)) _
    rw [Expr.subst_quantified_of_ne hne]
    exact .forAll hx (ih hn.tail.tail (List.forall_mem_singleton.2 he))
  | exist hx _ ih =>
    obtain ⟨hne, he⟩ := (List.forall_mem_singleton.1 hp).of_quantified (by decide)
    rw [List.flatMap_cons, List.flatMap_cons, fill_ident hne]
    show Derives (.quantified ((Expr.exist _ _).subst v t)) _
    rw [Expr.subst_quantified_of_ne hne]
    exact .exist hx (ih hn.tail.tail (List.forall_mem_singleton.2 he))
  | letter hx =>
    rw [List.flatMap_cons, fill_ident (hn.ne_of_isUpperName hx hv)]
    exact .letter hx
  | applied hx _ ih =>
    rw [List.flatMap_cons, fill_ident (hn.ne_of_isUpperName hx hv), List.flatMap_cons,
      List.flatMap_append]
    exact .applied hx (ih hn.tail.tail.left (hchildren hp))
  | @var x hx =>
    -- the one place where the term comes in
    rw [List.flatMap_singleton]
    by_cases hxv : x = v
    · subst hxv
      rw [fill_self]
      show Derives (.inc ((Expr.var x).subst x t)) us
      rwa [Expr.subst_var]
    · rw [fill_ident hxv]
      show Derives (.inc ((Expr.var x).subst v t)) _
      rw [show (Expr.var x).subst v t = .var x from if_neg hxv]
      exact .primary (.var hx)
  | @function f _ _ hf _ ih =>
    have hne : f ≠ v := (List.forall_mem_singleton.1 hp).name_ne nofun
    rw [List.flatMap_cons, fill_ident hne, List.flatMap_cons, List.flatMap_append]
    exact .primary (.function hf (ih hn.tail.tail.left (hchildren hp)))
  | zero => exact .primary .zero

end Grammar

/-! ## Reading the new text -/

namespace Text

section
variable {text v : Text} {f e : Expr} (hstrip : text.stripSpace = text)
  (hparse : text.parseFormula = .ok f) (hv : isLowerIdent v = true)
include hstrip hparse

/-- The grammar derives the formula that was read. -/
theorem derives_of_parseFormula : Derives (.expr f) (scan text) := by
  have hderives := parseFormula_eq_ok_iff.1 hparse
  rwa [hstrip] at hderives

/-- The text with a numeral is read exactly as what the grammar derives from its tokens. -/
theorem parseFormula_instantiate_iff_derives (v : Text) (n : Int) (e : Expr) :
    (text.instantiate v n).parseFormula = .ok e ↔
      Derives (.expr e) (scan (text.instantiate v n)) := by
  have hvisible := (derives_of_parseFormula hstrip hparse).visible_text
  rw [parseFormula_eq_ok_iff, stripSpace_eq_self (visible_instantiate hvisible v n)]

include hv

/-- The grammar derives the formula with the numeral substituted, where no quantifier and no
function has the name. -/
theorem derives_instantiated (hf : f.Spares v) (n : Nat) :
    Derives (.expr (f.subst v (.numeral n))) (instantiated v n (scan text)) := by
  have hvar := Expr.WellFormed.varOnly_of_spares hv (.inl (isFormula_of_parseFormula hparse)) hf
  exact Derives.fill hv (Expr.isTerm_numeral n).derives (derives_of_parseFormula hstrip hparse)
    (named_scan text) (List.forall_mem_singleton.2 hvar)

/-- Where the name stands after no other, the new text is read as the substitution instance, and
only if no quantifier binds the name and no function is called so. -/
theorem parseFormula_instantiate_of_not_adjoins (hapart : ¬ text.Adjoins v) (n : Int) :
    (text.instantiate v n).parseFormula = .ok e ↔
      f.Spares v ∧ e = f.subst v (.numeral n.toNat) := by
  have hread := parseFormula_instantiate_iff_derives hstrip hparse v n
  rw [scan_instantiate hapart] at hread
  constructor
  · intro he
    have hvar := (derives_of_parseFormula hstrip hparse).varOnly_of_runs hv
      (Expr.isTerm_numeral _) (Expr.numeral_ne_var _) (named_scan text)
      ((hread e).1 he).completes.runs
    have hf : f.Spares v :=
      (Expr.WellFormed.varOnly_iff_spares hv (.inl (isFormula_of_parseFormula hparse))).1
        (List.forall_mem_singleton.1 hvar)
    refine ⟨hf, ?_⟩
    exact Except.ok.inj (he.symm.trans ((hread _).2 (derives_instantiated hstrip hparse hv hf _)))
  · rintro ⟨hf, rfl⟩
    exact (hread _).2 (derives_instantiated hstrip hparse hv hf _)

/-- A name that comes before the filled one takes in the zero of the numeral. -/
theorem joined_of_adjoins (hf : f.Spares v) (hadj : text.Adjoins v) (n : Nat) :
    ∃ x, [Token.ident x, .zero] <:+: instantiated v n (scan text) := by
  obtain ⟨x, hx⟩ := hadj
  have hinfix := hx.flatMap (fill v (Expr.numeral n).tokens)
  rw [List.flatMap_cons, List.flatMap_singleton, fill_self] at hinfix
  -- otherwise two numerals would stand in a row
  have hne : x ≠ v := by
    rintro rfl
    rw [fill_self] at hinfix
    have hruns := (derives_instantiated hstrip hparse hv hf n).completes.runs.of_infix hinfix
    nth_rewrite 2 [Expr.tokens_numeral] at hruns
    exact Place.not_runs_tokens_append (Expr.isTerm_numeral n) (Expr.numeral_ne_var n) rfl _ hruns
  rw [fill_ident hne] at hinfix
  have hhead : [Token.ident x, .zero] <:+: [.ident x] ++ (Expr.numeral n).tokens := by
    rw [Expr.tokens_numeral]
    exact ⟨[], List.replicate n .prime, rfl⟩
  exact ⟨x, hhead.trans hinfix⟩

end

/-- Instantiating a text of a formula `f` that has no white space, canonical or not, by the numeral
of `n` for a name that no quantifier in `f` binds and no function in it has: the new text is read
where the name stands right after no other name, and then as `f` with the numeral substituted. -/
theorem parseFormula_instantiate_iff {text v : Text} {f : Expr} (hspace : text.SpaceFree)
    (hparse : text.parseFormula = .ok f) (hv : isLowerIdent v = true) (hf : f.Spares v) (n : Int)
    (e : Expr) : (text.instantiate v n).parseFormula = .ok e ↔
      ¬ text.Adjoins v ∧ e = f.subst v (.numeral n.toNat) := by
  have hstrip := hspace.stripSpace_of_parseFormula hparse
  by_cases hadj : text.Adjoins v
  · refine iff_of_false (fun he => ?_) fun ⟨hapart, _⟩ => hapart hadj
    have hcompletes := ((parseFormula_instantiate_iff_derives hstrip hparse v n e).1 he).completes
    rw [instantiate_eq_spell] at hcompletes
    exact Place.not_completes_of_joined (derives_instantiated hstrip hparse hv hf _).completes
      (named_scan text).instantiated (joined_of_adjoins hstrip hparse hv hf hadj _) hcompletes
  · rw [parseFormula_instantiate_of_not_adjoins hstrip hparse hv hadj n]
    exact ⟨fun ⟨_, he⟩ => ⟨hadj, he⟩, fun ⟨_, he⟩ => ⟨hf, he⟩⟩

/-- The name under a quantifier, in an argument and between signs, and right after no other name. -/
theorem parseFormula_instantiate_iff_quantified :
    parseFormula (instantiate "?y!x1'+y*x=x|P(f(x),x1)" "x" 2) =
      .ok (.or (.exist "y" (.negation (.equals
          (.plus (.successor (.var "x1")) (.times (.var "y") (.numeral 2))) (.numeral 2))))
        (.predicate "P" [.function "f" [.numeral 2], .var "x1"])) :=
  (parseFormula_instantiate_iff ((stripped_of_visible (by decide)).spaceFree)
    (by cbv) (by decide) (by decide) 2 _).2 ⟨by decide, rfl⟩

/-- A variable of a quantifier that is followed by the name takes in the numeral. -/
theorem not_parseFormula_instantiate_adjoining :
    SpaceFree "@xv=0" ∧ parseFormula "@xv=0" = .ok (.forAll "x" (.equals (.var "v") .zero)) ∧
      isLowerIdent "v" = true ∧ (Expr.forAll "x" (.equals (.var "v") .zero)).Spares "v" ∧
      instantiate "@xv=0" "v" 0 = "@x0=0" ∧
      ∀ e, parseFormula (instantiate "@xv=0" "v" 0) ≠ .ok e := by
  refine ⟨(stripped_of_visible (by decide)).spaceFree, by cbv, by decide, by decide, by cbv, ?_⟩
  intro e he
  have hnone : (parseFormula (instantiate "@xv=0" "v" 0)).toOption = none := by cbv
  rw [he] at hnone
  cases hnone

end Text

end Sequitur
