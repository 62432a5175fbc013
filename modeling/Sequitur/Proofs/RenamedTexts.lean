import Mathlib
import Sequitur.Proofs.Renaming
import Sequitur.Proofs.Verification

/-!
# Renaming identifiers in texts

In a text a renaming changes the identifiers among the tokens. The new text falls into the renamed
tokens (`Text.scan_rename`), for a new identifier ends where the old one did: what came after it was
no digit, and is none now. A derivation of the tokens is one of the renamed tokens
(`Grammar.Derives.rename`). So where a text is read as a formula, the renamed text is read as the
renamed formula, and a proof is read again when its texts are renamed
(`Proof.exists_read_renamed`).
-/

namespace Sequitur

/-! ## Tokens -/

/-- The token with another name, if it has one. -/
def Token.rename (f : Text → Text) : Token → Token
  | .ident x => .ident (f x)
  | t => t

/-- The text with `f x` in place of every identifier `x`. -/
def Text.rename (f : Text → Text) (text : Text) : Text :=
  Token.spell ((Token.scan text).map (Token.rename f))

/-- A renamed identifier is an identifier. -/
theorem Renaming.isIdent (ρ : Renaming) {x : Text} (hx : Text.isIdent Byte.isLetter x = true) :
    Text.isIdent Byte.isLetter (ρ.map x) = true := by
  rw [Text.isIdent_isLetter] at hx ⊢
  exact hx.imp ρ.upper ρ.lower

namespace Token

variable (ρ : Renaming)

/-- A renamed text starts with the same byte, unless that is a letter. -/
theorem Lexes.head?_of_rename {text : Text} {ts : List Token} (h : Lexes text ts) {b : Byte}
    (hb : b.isLetter = false) (hhead : (spell (ts.map (rename ρ.map))).head? = some b) :
    text.head? = some b := by
  cases h with
  | nil => exact hhead
  | @ident c digits rest ts hc hd =>
    have hident : Text.isIdent Byte.isLetter (c :: digits) = true :=
      Text.isIdent_iff.2 ⟨c, digits, rfl, hc, hd⟩
    obtain ⟨c', digits', heq, hc', -⟩ := Text.isIdent_iff.1 (ρ.isIdent hident)
    rw [List.map_cons, spell_cons] at hhead
    change (ρ.map (c :: digits) ++ _).head? = some b at hhead
    rw [heq] at hhead
    cases hhead
    cases hb.symm.trans hc'
  | arrow | byte => exact hhead

/-- A text that continues no name continues none after renaming. -/
theorem Lexes.digitFree_rename {text : Text} {ts : List Token} (h : Lexes text ts)
    (hfree : text.DigitFree) : (spell (ts.map (rename ρ.map))).DigitFree := by
  intro b hb
  cases hdigit : Byte.isDigit b with
  | false => rfl
  | true =>
    have hhead := h.head?_of_rename ρ (Byte.isLetter_of_isDigit hdigit) hb
    exact hdigit.symm.trans (hfree b hhead)

/-- The tokens of a renamed text are the renamed tokens. -/
theorem Lexes.rename {text : Text} {ts : List Token} (h : Lexes text ts) :
    Lexes (spell (ts.map (rename ρ.map))) (ts.map (rename ρ.map)) := by
  induction h with
  | nil => exact .nil
  | @ident b digits rest ts hb hd hfree hrest ih =>
    have hident : Text.isIdent Byte.isLetter (b :: digits) = true :=
      Text.isIdent_iff.2 ⟨b, digits, rfl, hb, hd⟩
    obtain ⟨b', digits', heq, hb', hd'⟩ := Text.isIdent_iff.1 (ρ.isIdent hident)
    rw [List.map_cons, spell_cons]
    change Lexes (ρ.map (b :: digits) ++ _) (.ident (ρ.map (b :: digits)) :: _)
    rw [heq]
    exact .ident hb' hd' (hrest.digitFree_rename ρ hfree) ih
  | arrow _ ih => exact .arrow ih
  | byte hb hhyphen hrest ih =>
    refine .byte hb ?_ ih
    rintro ⟨h45, h62⟩
    exact hhyphen ⟨h45, hrest.head?_of_rename ρ rfl h62⟩

end Token

/-- The tokens of a renamed text are the renamed tokens. -/
theorem Text.scan_rename (ρ : Renaming) (text : Text) :
    Token.scan (text.rename ρ.map) = (Token.scan text).map (Token.rename ρ.map) :=
  ((Token.lexes_iff_scan.2 rfl).rename ρ).eq_scan.symm

/-! ## Derivations -/

namespace Grammar

/-- The nonterminal with the renamed tree. -/
def Phrase.rename (f : Text → Text) : Phrase → Phrase
  | .expr e => .expr (e.rename f)
  | .disj e => .disj (e.rename f)
  | .conj e => .conj (e.rename f)
  | .unary e => .unary (e.rename f)
  | .quantified e => .quantified (e.rename f)
  | .predicate e => .predicate (e.rename f)
  | .term e => .term (e.rename f)
  | .add e => .add (e.rename f)
  | .mul e => .mul (e.rename f)
  | .inc e => .inc (e.rename f)
  | .primary e => .primary (e.rename f)
  | .args es => .args (Expr.renameAll f es)

variable {p : Phrase} {ts : List Token}

/-- The grammar derives the renamed phrase from the renamed tokens. -/
theorem Derives.rename (ρ : Renaming) (h : Derives p ts) (hn : Token.Named ts) :
    Derives (p.rename ρ.map) (ts.map (Token.rename ρ.map)) := by
  have hlower {x : Text} {us : List Token} (hn : Token.Named (.ident x :: us))
      (hx : Parser.isLowerName x = true) : Parser.isLowerName (ρ.map x) = true :=
    Expr.isLowerName_of_isLowerIdent (ρ.lower (hn.isLowerIdent hx))
  have hupper {x : Text} {us : List Token} (hn : Token.Named (.ident x :: us))
      (hx : Parser.isUpperName x = true) : Parser.isUpperName (ρ.map x) = true :=
    Expr.isUpperName_of_isUpperIdent (ρ.upper (hn.isUpperIdent hx))
  induction h with
  | disj _ ih => exact .disj (ih hn)
  | conj _ ih => exact .conj (ih hn)
  | unary _ ih => exact .unary (ih hn)
  | quantified _ ih => exact .quantified (ih hn)
  | predicate _ ih => exact .predicate (ih hn)
  | add _ ih => exact .add (ih hn)
  | mul _ ih => exact .mul (ih hn)
  | inc _ ih => exact .inc (ih hn)
  | primary _ ih => exact .primary (ih hn)
  | lastArg _ ih => exact .lastArg (ih hn)
  | implies _ _ ih₁ ih₂ =>
    rw [List.map_append]
    exact .implies (ih₁ hn.left) (ih₂ hn.right)
  | or _ _ ih₁ ih₂ =>
    rw [List.map_append]
    exact .or (ih₁ hn.left) (ih₂ hn.right)
  | and _ _ ih₁ ih₂ =>
    rw [List.map_append]
    exact .and (ih₁ hn.left) (ih₂ hn.right)
  | equals _ _ ih₁ ih₂ =>
    rw [List.map_append]
    exact .equals (ih₁ hn.left) (ih₂ hn.right)
  | plus _ _ ih₁ ih₂ =>
    rw [List.map_append]
    exact .plus (ih₁ hn.left) (ih₂ hn.right)
  | times _ _ ih₁ ih₂ =>
    rw [List.map_append]
    exact .times (ih₁ hn.left) (ih₂ hn.right)
  | arg _ _ ih₁ ih₂ =>
    rw [List.map_append]
    exact .arg (ih₁ hn.left) (ih₂ hn.right)
  | successor _ ih =>
    rw [List.map_append]
    exact .successor (ih hn.left)
  | negation _ ih => exact .negation (ih hn.tail)
  | parens _ ih =>
    rw [List.map_cons, List.map_append]
    exact .parens (ih hn.tail.left)
  | group _ ih =>
    rw [List.map_cons, List.map_append]
    exact .group (ih hn.tail.left)
  | forAll hx _ ih => exact .forAll (hlower hn.tail hx) (ih hn.tail.tail)
  | exist hx _ ih => exact .exist (hlower hn.tail hx) (ih hn.tail.tail)
  | letter hp => exact .letter (hupper hn hp)
  | applied hp _ ih =>
    rw [List.map_cons, List.map_cons, List.map_append]
    exact .applied (hupper hn hp) (ih hn.tail.tail.left)
  | var hx => exact .var (hlower hn hx)
  | function hf _ ih =>
    rw [List.map_cons, List.map_cons, List.map_append]
    exact .function (hlower hn hf) (ih hn.tail.tail.left)
  | zero => exact .zero

end Grammar

/-- Where a text is read as a formula, the renamed text is read as the renamed formula. -/
theorem Text.parseFormula_rename (ρ : Renaming) {text : Text} {e : Expr}
    (h : text.parseFormula = .ok e) :
    (text.stripSpace.rename ρ.map).parseFormula = .ok (e.rename ρ.map) := by
  have hderives := (Grammar.parseFormula_eq_ok_iff.1 h).rename ρ (Token.named_scan _)
  rw [← scan_rename] at hderives
  exact Grammar.parseFormula_eq_ok_iff.2 (by rwa [stripSpace_eq_self hderives.visible_text])

/-! ## Proofs -/

/-- The formula and its text, renamed. -/
def Statement.rename (f : Text → Text) (s : Statement) : Statement :=
  ⟨s.text.rename f, s.formula.rename f⟩

/-- A renamed statement has the text that it is read from. -/
theorem Statement.IsRead.rename (ρ : Renaming) {s : Statement} (h : s.IsRead)
    (hs : s.text.Stripped) : (s.rename ρ.map).IsRead := by
  have hparse := Text.parseFormula_rename ρ h
  rwa [hs.stripSpace_eq] at hparse

namespace Proof

/-- The texts of a proof, renamed. -/
def renamed (p : Proof) (f : Text → Text) : Rewriting where
  hypotheses := p.sequent.hypotheses.map fun s => s.text.rename f
  goal := p.sequent.goal.text.rename f
  lines := p.lines.map fun l => l.source.rename f

/-- The formulas of `q` are those of `p`, renamed. -/
structure IsRenamed (p : Proof) (f : Text → Text) (q : Proof) : Prop where
  hypotheses : q.hypotheses = p.hypotheses.map (Expr.rename f)
  goal : q.sequent.goal.formula = p.sequent.goal.formula.rename f
  formulas : q.formulas = p.formulas.map (Option.map (Expr.rename f))

@[simp] theorem source_readLine (text : Text) : (readLine text).source = text.stripSpace := rfl

@[simp] theorem parsed_readLine (text : Text) : (readLine text).parsed = text.parseFormula := rfl

/-- A line that was read is read, after renaming, as the renamed formula. -/
theorem formula?_readLine_rename (ρ : Renaming) {text : Text} {e : Expr}
    (h : (readLine text).formula? = some e) :
    (readLine ((readLine text).source.rename ρ.map)).formula? = some (e.rename ρ.map) := by
  rw [ProofLine.formula?_eq_some_iff, parsed_readLine] at h
  rw [ProofLine.formula?_eq_some_iff, parsed_readLine, source_readLine]
  exact Text.parseFormula_rename ρ h

/-- A proof whose lines were read is read again when its texts are renamed. -/
theorem exists_read_renamed (ρ : Renaming) {header : Text} {lines : List Text} {p : Proof}
    (hread : Proof.read header lines = .ok p) (hlines : ∀ o ∈ p.formulas, ∃ e, o = some e) :
    ∃ q, Proof.read (p.renamed ρ.map).header (p.renamed ρ.map).lines = .ok q ∧
      p.IsRenamed ρ.map q := by
  obtain ⟨hhyps, hgoal⟩ := isRead_of_read hread
  obtain ⟨hhyps', hgoal'⟩ := Sequent.stripped_of_parse (parse_of_read hread).1
  have hisRead : ∀ s ∈ p.sequent.hypotheses.map (Statement.rename ρ.map), s.IsRead := by
    intro s hs
    obtain ⟨s, hmem, rfl⟩ := List.mem_map.1 hs
    exact (hhyps s hmem).rename ρ (hhyps' s hmem)
  have hheader : Sequent.parse (p.renamed ρ.map).header = .ok
      ⟨(p.sequent.hypotheses.map (Statement.rename ρ.map)).map Statement.stripped,
        (p.sequent.goal.rename ρ.map).stripped⟩ := by
    rw [← Sequent.parse_format hisRead (hgoal.rename ρ hgoal'), List.map_map]
    rfl
  refine ⟨_, Grammar.bind_eq_ok.2 ⟨_, hheader, rfl⟩, ?_, rfl, ?_⟩
  · simp only [hypotheses, List.map_map]
    rfl
  · show ((p.lines.map _).map readLine).map ProofLine.formula? = (p.lines.map _).map _
    rw [List.map_map, List.map_map, List.map_map]
    refine List.map_congr_left fun l hl => ?_
    obtain ⟨e, he⟩ := hlines _ (List.mem_map_of_mem hl)
    rw [lines_of_read hread] at hl
    obtain ⟨text, -, rfl⟩ := List.mem_map.1 hl
    rw [Function.comp_apply, Function.comp_apply, Function.comp_apply,
      formula?_readLine_rename ρ he, he, Option.map_some]

end Proof

end Sequitur
