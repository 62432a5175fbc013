import Mathlib
import Sequitur.Proofs.Neighbours
import Sequitur.Proofs.Replacement

/-!
# Filling the places of a name

Replacing a name puts another text in its places. Where that is the text of a term, and the name
stands right after no other name (`Text.Adjoins`), the tokens of the new text are those of the old
one with the tokens of the term in the places of the name (`Text.scan_replaceIdent`).

If the term is no variable, the filled tokens are those of a phrase only where nothing but variables
had the name (`Grammar.Derives.varOnly_of_runs`). For such a term ends in zero, a prime or a
parenthesis, and after these neither the arguments of a function can come nor the operand of a
quantifier.

In a canonical text a variable stands right after no name (`Expr.IsFormula.not_adjoins`). So
replacing a name in it is substitution, or else what it leaves is no canonical text.
-/

namespace Sequitur

open Grammar Token

/-- Somewhere in the text the name `v` stands right after another name. -/
def Text.Adjoins (text v : Text) : Prop := ∃ x, [Token.ident x, .ident v] <:+: Token.scan text

instance (text v : Text) : Decidable (text.Adjoins v) :=
  decidable_of_iff (∃ t ∈ Token.scan text, (t matches .ident _) ∧
      [t, .ident v] <:+: Token.scan text) <| by
    constructor
    · rintro ⟨t, -, ht, h⟩
      cases t with
      | ident x => exact ⟨x, h⟩
      | arrow | byte => cases ht
    · rintro ⟨x, h⟩
      exact ⟨.ident x, h.subset List.mem_cons_self, rfl, h⟩

namespace Token

/-- The tokens `us` for the name `v`, and any other token as it is. -/
def fill (v : Text) (us : List Token) (t : Token) : List Token := if t = .ident v then us else [t]

section
variable {v : Text} {us : List Token} {t : Token}

theorem fill_self : fill v us (.ident v) = us := if_pos rfl

theorem fill_of_ne (h : t ≠ .ident v) : t.fill v us = [t] := if_neg h

theorem fill_ident {x : Text} (h : x ≠ v) : fill v us (.ident x) = [.ident x] :=
  fill_of_ne fun heq => h (ident.inj heq)

/-- A token after filling is one of the new ones or the old one. -/
theorem mem_fill {u : Token} (h : u ∈ t.fill v us) : u ∈ us ∨ u = t := by
  rw [fill] at h
  split at h
  · exact .inl h
  · exact .inr (List.mem_singleton.1 h)

/-- Filling in a token is replacing in its text. -/
theorem spell_fill : spell (t.fill v us) = t.replaced v (spell us) := by
  by_cases ht : t = .ident v
  · rw [ht, fill_self]
    exact (if_pos rfl).symm
  · rw [fill_of_ne ht, spell_cons]
    cases t with
    | ident x =>
      rw [replaced_of_ne fun heq => ht (congrArg _ heq)]
      exact List.append_nil x
    | arrow | byte => rfl

end

end Token

/-- Replacing a name in a text is filling in its tokens. -/
theorem Text.replaceIdent_spell (text v : Text) (us : List Token) :
    text.replaceIdent v (spell us) = spell ((scan text).flatMap (fill v us)) := by
  calc text.replaceIdent v (spell us)
      = (scan text).flatMap (replaced v (spell us)) := replaceIdent_eq text v (spell us)
    _ = (scan text).flatMap fun t => spell (t.fill v us) :=
      congrArg (List.flatMap · (scan text)) (funext fun t => spell_fill.symm)
    _ = spell ((scan text).flatMap (fill v us)) := List.flatMap_assoc.symm

/-! ## The tokens of the new text -/

theorem Expr.IsTerm.spell_tokens {t : Expr} (h : t.IsTerm) : spell t.tokens = t.canonical := by
  rw [← WellFormed.scan_canonical (.inr h), spell_scan]

/-- No text of a term makes an arrow with a hyphen before it. -/
theorem Expr.IsTerm.exists_canonical_eq_cons {t : Expr} (h : t.IsTerm) :
    ∃ b rest, t.canonical = b :: rest ∧ b ≠ 62 := by
  have hname {x : Text} (hx : Text.isLowerIdent x = true) : ∃ b rest, x = b :: rest ∧ b ≠ 62 := by
    obtain ⟨b, digits, rfl, hb, -⟩ := Text.isIdent_iff.1 hx
    refine ⟨b, digits, rfl, ?_⟩
    rintro rfl
    cases hb
  induction h with
  | var hx => exact hname hx
  | zero => exact ⟨48, [], rfl, by decide⟩
  | successor _ ih =>
    obtain ⟨b, rest, heq, hb⟩ := ih
    exact ⟨b, rest ++ [39], by rw [canonical_successor, heq]; rfl, hb⟩
  | plus | times => exact ⟨40, _, canonical_binary _ _ _, by decide⟩
  | function hf =>
    obtain ⟨b, rest, heq, hb⟩ := hname hf
    exact ⟨b, _, by rw [canonical_function, heq]; rfl, hb⟩

namespace Token

section
variable {v text : Text} {ts : List Token} {t : Expr}

/-- The new text starts with the same byte, unless that is a letter or the first byte of the
term. -/
theorem Lexes.head?_of_fill (h : Lexes text ts) (ht : t.IsTerm) {b : Byte}
    (hb : b.isLetter = false) (hterm : t.canonical.head? = some b → ts.head? ≠ some (.ident v))
    (hhead : (spell (ts.flatMap (fill v t.tokens))).head? = some b) : text.head? = some b := by
  cases h with
  | nil => exact hhead
  | @ident c digits rest ts hc =>
    rw [List.flatMap_cons, spell_append] at hhead
    by_cases hv : c :: digits = v
    · obtain ⟨d, rest', hcanonical, -⟩ := ht.exists_canonical_eq_cons
      rw [hv, fill_self, ht.spell_tokens, hcanonical] at hhead
      cases hhead
      exact absurd (congrArg (some ∘ Token.ident) hv) (hterm (by rw [hcanonical]; rfl))
    · rw [fill_ident hv] at hhead
      cases hhead
      cases hb.symm.trans hc
  | arrow | byte => exact hhead

/-- The tokens of the new text are the filled ones, if the name stands after no other. -/
theorem Lexes.fill (h : Lexes text ts) (ht : t.IsTerm)
    (hapart : ∀ x, ¬ [Token.ident x, .ident v] <:+: ts) :
    Lexes (spell (ts.flatMap (fill v t.tokens))) (ts.flatMap (fill v t.tokens)) := by
  have htail {u : Token} {ts : List Token} (h : ∀ x, ¬ [Token.ident x, .ident v] <:+: u :: ts) :
      ∀ x, ¬ [Token.ident x, .ident v] <:+: ts :=
    fun x hx => h x (hx.trans (List.suffix_cons u ts).isInfix)
  induction h with
  | nil => exact .nil
  | @ident b digits rest ts hb hd hfree hrest ih =>
    have hts := ih (htail hapart)
    have hnext : ts.head? ≠ some (.ident v) := by
      intro hhead
      obtain ⟨us, rfl⟩ := List.head?_eq_some_iff.1 hhead
      exact hapart (b :: digits) ⟨[], us, rfl⟩
    -- a digit after the identifier would have been there before, since no term comes next
    have hfree' : (spell (ts.flatMap (Token.fill v t.tokens))).DigitFree := by
      intro c hc
      cases hdigit : Byte.isDigit c with
      | false => rfl
      | true =>
        have hhead := hrest.head?_of_fill ht (Byte.isLetter_of_isDigit hdigit) (fun _ => hnext) hc
        exact hdigit.symm.trans (hfree c hhead)
    rw [List.flatMap_cons]
    by_cases hv : b :: digits = v
    · rw [hv, fill_self, spell_append, ht.spell_tokens, lexes_iff_scan, ht.scans _ hfree',
        ← hts.eq_scan]
    · rw [fill_ident hv, List.singleton_append, spell_cons]
      exact .ident hb hd hfree' hts
  | arrow _ ih => exact .arrow (ih (htail hapart))
  | byte hb hhyphen hrest ih =>
    refine .byte hb ?_ (ih (htail hapart))
    rintro ⟨h45, h62⟩
    have hterm : t.canonical.head? ≠ some 62 := by
      obtain ⟨d, rest', hcanonical, hd⟩ := ht.exists_canonical_eq_cons
      rw [hcanonical]
      exact fun h => hd (Option.some.inj h)
    exact hhyphen ⟨h45, hrest.head?_of_fill ht rfl (fun h => absurd h hterm) h62⟩

end

end Token

/-- Where the name stands after no other, the tokens of the text with a term in place of the name
are the filled ones. -/
theorem Text.scan_replaceIdent {text v : Text} {t : Expr} (h : ¬ text.Adjoins v) (ht : t.IsTerm) :
    scan (text.replaceIdent v t.canonical) = (scan text).flatMap (fill v t.tokens) := by
  rw [← ht.spell_tokens, replaceIdent_spell]
  exact ((lexes_iff_scan.2 rfl).fill ht fun x hx => h ⟨x, hx⟩).eq_scan.symm

/-! ## Filled with a term that is no variable -/

/-- A term that is no variable ends in a parenthesis, a prime or zero. -/
theorem Expr.IsTerm.exists_tokens_eq_append {t : Expr} (ht : t.IsTerm) (hvar : ∀ y, t ≠ .var y) :
    ∃ ts u, t.tokens = ts ++ [u] ∧ (u = .rparen ∨ u = .prime ∨ u = .zero) := by
  cases ht with
  | @var y => exact absurd rfl (hvar y)
  | zero => exact ⟨[], .zero, rfl, by simp⟩
  | @successor a => exact ⟨a.tokens, .prime, rfl, by simp⟩
  | @plus l r =>
    exact ⟨.lparen :: (l.tokens ++ .plus :: r.tokens), .rparen, tokens_binary_sign rfl l r, by simp⟩
  | @times l r =>
    exact ⟨.lparen :: (l.tokens ++ .star :: r.tokens), .rparen, tokens_binary_sign rfl l r, by simp⟩
  | @function f args _ hargs hterms =>
    obtain ⟨a, args, rfl⟩ := List.exists_cons_of_ne_nil hargs
    obtain ⟨ts, hts, -⟩ := derives_args fun e he => (hterms e he).derives
    exact ⟨.ident f :: .lparen :: ts, .rparen, by rw [tokens_function, hts]; rfl, by simp⟩

namespace Place

section
variable {s s' : Place} {v : Text} {t : Expr}

/-- After a term that is no variable an operand has ended, and it was no name. -/
theorem run_tokens (ht : t.IsTerm) (hvar : ∀ y, t ≠ .var y) (h : s.run t.tokens = some s') :
    s' = .done := by
  obtain ⟨ts, u, heq, hu⟩ := ht.exists_tokens_eq_append hvar
  rw [heq, run_append_iff] at h
  obtain ⟨m, -, hlast⟩ := h
  obtain ⟨_, hnext, ⟨⟩⟩ := Option.bind_eq_some_iff.1 hlast
  rcases hu with rfl | rfl | rfl <;> cases m <;> cases hnext <;> rfl

/-- It is followed by what can follow an operand that is no name. -/
theorem not_runs_tokens_append (ht : t.IsTerm) (hvar : ∀ y, t ≠ .var y) {u : Token}
    (h : next .done u = none) (us : List Token) : ¬ Runs (t.tokens ++ u :: us) := by
  rintro ⟨s, s', hrun⟩
  obtain ⟨m, hm, hu⟩ := run_append_iff.1 hrun
  cases run_tokens ht hvar hm
  obtain ⟨_, hnext, -⟩ := Option.bind_eq_some_iff.1 hu
  cases h.symm.trans hnext

/-- What starts an operand stands after none. -/
theorem next_done_of_start {u : Token} (h : next .start u = some s) : next .done u = none := by
  cases hnext : next .done u with
  | none => rfl
  | some s' => cases h.symm.trans (next_start_of_closes (closes_of_afterOperand hnext))

/-- An operand has a first token, one that can start it. -/
theorem Completes.exists_next {ts : List Token} (h : start.Completes ts) :
    ∃ u us s, ts = u :: us ∧ next .start u = some s := by
  cases ts with
  | nil =>
    obtain ⟨_, ⟨⟩, hends⟩ := h
    rcases hends with hends | hends <;> cases hends
  | cons u us =>
    obtain ⟨s, hs, -⟩ := completes_cons_iff.1 h
    exact ⟨u, us, s, rfl, hs⟩

/-- Filled tokens start an operand where the tokens did. -/
theorem Completes.exists_fill {ts : List Token} (h : start.Completes ts) (ht : t.IsTerm) :
    ∃ u us s, ts.flatMap (fill v t.tokens) = u :: us ∧ next .start u = some s := by
  obtain ⟨u, us, s, rfl, hs⟩ := h.exists_next
  rw [List.flatMap_cons]
  by_cases hu : u = .ident v
  · obtain ⟨w, ws, s', heq, hs'⟩ := ht.derives.completes.exists_next
    rw [hu, fill_self, heq]
    exact ⟨w, _, s', rfl, hs'⟩
  · rw [fill_of_ne hu]
    exact ⟨u, _, s, rfl, hs⟩

/-- A term other than a variable cannot stand behind the sign of a quantifier. -/
theorem not_runs_sign {u : Token} (hu : u = .forAll ∨ u = .exist) (ht : t.IsTerm)
    (hvar : ∀ y, t ≠ .var y) {ts : List Token} (hts : start.Completes ts) :
    ¬ Runs ((u :: .ident v :: ts).flatMap (fill v t.tokens)) := by
  intro hruns
  obtain ⟨w, ws, s, heq, hs⟩ := hts.exists_fill (v := v) ht
  have hne : u ≠ .ident v := by
    rintro rfl
    rcases hu with hu | hu <;> cases hu
  rw [List.flatMap_cons, List.flatMap_cons, fill_self, fill_of_ne hne, heq] at hruns
  exact not_runs_tokens_append ht hvar (next_done_of_start hs) ws
    (hruns.of_infix (List.suffix_cons u _).isInfix)

/-- A term other than a variable cannot stand before a parenthesis. -/
theorem not_runs_call (ht : t.IsTerm) (hvar : ∀ y, t ≠ .var y) (ts : List Token) :
    ¬ Runs ((.ident v :: .lparen :: ts).flatMap (fill v t.tokens)) := by
  intro hruns
  rw [List.flatMap_cons, List.flatMap_cons, fill_self] at hruns
  exact not_runs_tokens_append ht hvar rfl _ hruns

end

end Place

/-- A capital name is no small one. -/
theorem Token.Named.ne_of_isUpperName {v x : Text} {ts : List Token} (h : Named (.ident x :: ts))
    (hx : Parser.isUpperName x = true) (hv : Text.isLowerIdent v = true) : x ≠ v := by
  rintro rfl
  exact Text.not_isUpperIdent hv (h.isUpperIdent hx)

namespace Grammar

/-- The trees that the phrase denotes. -/
def Phrase.trees : Phrase → List Expr
  | .expr e | .disj e | .conj e | .unary e | .quantified e | .predicate e | .term e | .add e
  | .mul e | .inc e | .primary e => [e]
  | .args es => es

/-- In the trees of the phrase only variables are called `v`. -/
def Phrase.VarOnly (v : Text) (p : Phrase) : Prop := ∀ e ∈ p.trees, e.VarOnly v

/-- Filled with a term that is no variable, the tokens of a phrase are no longer next to each other
as in a phrase, unless only variables had the name. -/
theorem Derives.varOnly_of_runs {p : Phrase} {ts : List Token} {v : Text}
    (hv : Text.isLowerIdent v = true) {t : Expr} (ht : t.IsTerm) (hvar : ∀ y, t ≠ .var y)
    (h : Derives p ts) (hn : Named ts) (hruns : Place.Runs (ts.flatMap (fill v t.tokens))) :
    p.VarOnly v := by
  have hnil : [] ≠ v := by
    rintro rfl
    cases hv
  have hleft {ts us : List Token} (h : Place.Runs ((ts ++ us).flatMap (fill v t.tokens))) :
      Place.Runs (ts.flatMap (fill v t.tokens)) :=
    h.of_infix ((List.prefix_append ts us).isInfix.flatMap _)
  have htail {u : Token} {ts : List Token} (h : Place.Runs ((u :: ts).flatMap (fill v t.tokens))) :
      Place.Runs (ts.flatMap (fill v t.tokens)) :=
    h.of_infix ((List.suffix_cons u ts).isInfix.flatMap _)
  have hright {u : Token} {ts us : List Token}
      (h : Place.Runs ((ts ++ u :: us).flatMap (fill v t.tokens))) :
      Place.Runs (us.flatMap (fill v t.tokens)) :=
    htail (h.of_infix ((List.suffix_append ts (u :: us)).isInfix.flatMap _))
  have hnode {e : Expr} (hroot : e.name = v → e.kind = .var) (hc : ∀ c ∈ e.children, c.VarOnly v) :
      ∀ a ∈ [e], a.VarOnly v := List.forall_mem_singleton.2 (.node hroot hc)
  induction h with
  | disj _ ih | conj _ ih | unary _ ih | quantified _ ih | predicate _ ih | add _ ih | mul _ ih
  | inc _ ih | primary _ ih | lastArg _ ih => exact ih hn hruns
  | implies _ _ ih₁ ih₂ | or _ _ ih₁ ih₂ | and _ _ ih₁ ih₂ | equals _ _ ih₁ ih₂ | plus _ _ ih₁ ih₂
  | times _ _ ih₁ ih₂ =>
    exact hnode (fun hname => absurd hname hnil)
      (List.forall_mem_append.2 ⟨ih₁ hn.left (hleft hruns), ih₂ hn.right (hright hruns)⟩)
  | arg _ _ ih₁ ih₂ =>
    exact List.forall_mem_append.2 ⟨ih₁ hn.left (hleft hruns), ih₂ hn.right (hright hruns)⟩
  | successor _ ih => exact hnode (fun hname => absurd hname hnil) (ih hn.left (hleft hruns))
  | negation _ ih => exact hnode (fun hname => absurd hname hnil) (ih hn.tail (htail hruns))
  | parens _ ih | group _ ih => exact ih hn.tail.left (hleft (htail hruns))
  | @forAll x _ _ _ hbody ih | @exist x _ _ _ hbody ih =>
    have hne : x ≠ v := by
      rintro rfl
      exact Place.not_runs_sign (by simp) ht hvar hbody.completes hruns
    exact hnode (fun hname => absurd hname hne) (ih hn.tail.tail (htail (htail hruns)))
  | letter hx => exact hnode (fun hname => absurd hname (hn.ne_of_isUpperName hx hv)) nofun
  | applied hx _ ih =>
    exact hnode (fun hname => absurd hname (hn.ne_of_isUpperName hx hv))
      (ih hn.tail.tail.left (hleft (htail (htail hruns))))
  | var => exact hnode (fun _ => rfl) nofun
  | @function f _ _ _ _ ih =>
    have hne : f ≠ v := by
      rintro rfl
      exact Place.not_runs_call ht hvar _ hruns
    exact hnode (fun hname => absurd hname hne) (ih hn.tail.tail.left (hleft (htail (htail hruns))))
  | zero => exact hnode (fun hname => absurd hname hnil) nofun

end Grammar

/-! ## Canonical texts -/

namespace Token

/-- After a name there is no variable. -/
def Parted (t u : Token) : Prop := ∀ x y, t = .ident x → u = .ident y → Text.isUpperIdent y = true

section
variable {u : Token} {ts us : List Token}

/-- A token that is no name may stand before anything. -/
theorem isChain_parted_cons (hu : ∀ x, u ≠ .ident x) (hus : us.IsChain Parted) :
    (u :: us).IsChain Parted :=
  List.isChain_cons.2 ⟨fun _ _ x _ hx _ => absurd hx (hu x), hus⟩

/-- A token that is no name parts what stands on its two sides. -/
theorem isChain_parted_append (hu : ∀ x, u ≠ .ident x) (hts : ts.IsChain Parted)
    (hus : us.IsChain Parted) : (ts ++ u :: us).IsChain Parted := by
  refine hts.append (isChain_parted_cons hu hus) fun _ _ w hw _ y _ hy => ?_
  cases hw
  exact absurd hy (hu y)

end

end Token

namespace Expr

/-- No variable follows a name in an application, if none does so in its arguments. -/
theorem isChain_tokensInside {args : List Expr} (h : ∀ a ∈ args, a.tokens.IsChain Parted)
    (f : Text) : (Token.ident f :: tokensInside args).IsChain Parted := by
  have hafter (args : List Expr) (h : ∀ a ∈ args, a.tokens.IsChain Parted) :
      ∃ u us, tokensAfter args = u :: us ∧ (∀ x, u ≠ .ident x) ∧ us.IsChain Parted := by
    induction args with
    | nil => exact ⟨.rparen, [], rfl, by simp, .nil⟩
    | cons a args ih =>
      obtain ⟨u, us, heq, hu, hus⟩ := ih fun b hb => h b (by simp [hb])
      refine ⟨.comma, a.tokens ++ u :: us, by rw [tokensAfter_cons, heq], by simp, ?_⟩
      exact isChain_parted_append hu (h a (by simp)) hus
  cases args with
  | nil => exact .singleton _
  | cons a args =>
    obtain ⟨u, us, heq, hu, hus⟩ := hafter args fun b hb => h b (by simp [hb])
    have hinside := isChain_parted_append hu (h a (by simp)) hus
    rw [tokensInside_cons, heq]
    exact isChain_parted_append (by simp) (.singleton (Token.ident f)) hinside

/-- No variable follows a name in a tree with two sides, if none does so in its sides. -/
theorem isChain_tokens_binary {k : Kind} (sign : Token) (hk : Token.scan k.symbol = [sign])
    (hsign : ∀ x, sign ≠ .ident x) {l r : Expr} (hl : l.tokens.IsChain Parted)
    (hr : r.tokens.IsChain Parted) : (binary k l r).tokens.IsChain Parted := by
  rw [tokens_binary, hk]
  exact isChain_parted_cons (by simp) (isChain_parted_append hsign hl
    (isChain_parted_append (by simp) hr .nil))

/-- In the tokens of a term no variable follows a name. -/
theorem IsTerm.isChain_tokens {e : Expr} (h : e.IsTerm) : e.tokens.IsChain Parted := by
  induction h with
  | var | zero => exact .singleton _
  | successor _ ih => exact isChain_parted_append (by simp) ih .nil
  | plus _ _ ihs iht => exact isChain_tokens_binary .plus rfl (by simp) ihs iht
  | times _ _ ihs iht => exact isChain_tokens_binary .star rfl (by simp) ihs iht
  | @function f _ _ _ _ ih => exact isChain_tokensInside ih f

/-- The variable of a quantifier is the one name that another can stand after, and a formula starts
with no variable. -/
theorem IsFormula.isChain_quantified {k : Kind} (sign : Token) (hk : Token.scan k.symbol = [sign])
    (hsign : ∀ x, sign ≠ .ident x) (x : Text) {b : Expr} (hb : b.IsFormula)
    (h : b.tokens.IsChain Parted) : (quantified k x b).tokens.IsChain Parted := by
  have hstart : ∀ u ∈ (b.tokens ++ [Token.rparen]).head?, Parted (.ident x) u := by
    intro u hu _ y _ hy
    subst hy
    cases hb with
    | predicate hp =>
      cases hu
      exact hp
    | equals | negation | implies | or | and | forAll | exist => cases hu
  rw [tokens_quantified, hk]
  exact isChain_parted_cons (by simp) (isChain_parted_cons hsign
    (List.isChain_cons.2 ⟨hstart, isChain_parted_append (by simp) h .nil⟩))

/-- In the tokens of a formula no variable follows a name. -/
theorem IsFormula.isChain_tokens {e : Expr} (h : e.IsFormula) : e.tokens.IsChain Parted := by
  induction h with
  | equals hs ht =>
    exact isChain_tokens_binary .equals rfl (by simp) hs.isChain_tokens ht.isChain_tokens
  | @predicate p _ _ hargs => exact isChain_tokensInside (fun a ha => (hargs a ha).isChain_tokens) p
  | negation _ ih =>
    exact isChain_parted_cons (by simp) (isChain_parted_cons (by simp)
      (isChain_parted_append (by simp) ih .nil))
  | implies _ _ iha ihb => exact isChain_tokens_binary .arrow rfl (by simp) iha ihb
  | or _ _ iha ihb => exact isChain_tokens_binary .bar rfl (by simp) iha ihb
  | and _ _ iha ihb => exact isChain_tokens_binary .ampersand rfl (by simp) iha ihb
  | @forAll x _ _ ha ih => exact ha.isChain_quantified .forAll rfl (by simp) x ih
  | @exist x _ _ ha ih => exact ha.isChain_quantified .exist rfl (by simp) x ih

/-- In the canonical text of a formula no variable stands right after a name. -/
theorem IsFormula.not_adjoins {e : Expr} (h : e.IsFormula) {v : Text}
    (hv : Text.isLowerIdent v = true) : ¬ e.canonical.Adjoins v := by
  rintro ⟨x, hx⟩
  rw [WellFormed.scan_canonical (.inl h)] at hx
  have hchain := h.isChain_tokens.infix hx
  obtain ⟨hparted, -⟩ := List.isChain_cons_cons.1 hchain
  exact Text.not_isUpperIdent hv (hparted x v rfl rfl)

/-- If putting a term that is no variable for `x` leaves a canonical text, then only variables are
called `x`. -/
theorem IsFormula.varOnly_of_replaceIdent {x : Text} (hx : Text.isLowerIdent x = true)
    {e b t : Expr} (he : e.IsFormula) (ht : t.IsTerm) (hvar : ∀ y, t ≠ .var y) (hb : b.IsFormula)
    (h : b.canonical = e.canonical.replaceIdent x t.canonical) : e.VarOnly x := by
  have htokens : b.tokens = e.tokens.flatMap (fill x t.tokens) := by
    rw [← WellFormed.scan_canonical (.inl hb), h, Text.scan_replaceIdent (he.not_adjoins hx) ht,
      WellFormed.scan_canonical (.inl he)]
  have hnamed : Named e.tokens := by
    rw [← WellFormed.scan_canonical (.inl he)]
    exact named_scan _
  have hruns := hb.derives.completes.runs
  rw [htokens] at hruns
  exact List.forall_mem_singleton.1 (he.derives.varOnly_of_runs hx ht hvar hnamed hruns)

/-- Replacing a name in a canonical text is substitution, or it shows. Where no quantifier in the
formula binds `x` and no function is called so, putting the text of a term for `x` in the text of
the formula gives the text of the formula with the term substituted. Otherwise, and if the term is
zero, another numeral, `x'` or anything else but a variable, it gives the text of no formula. -/
theorem replaceIdent_substitutes_or_shows {e t : Expr} {x : Text} (he : e.IsFormula)
    (hx : Text.isLowerIdent x = true) (ht : t.IsTerm) :
    (e.Spares x → e.canonical.replaceIdent x t.canonical = (e.subst x t).canonical) ∧
    ((∀ y, t ≠ .var y) → ¬ e.Spares x →
      ∀ b : Expr, b.IsFormula → e.canonical.replaceIdent x t.canonical ≠ b.canonical) := by
  have hspares := WellFormed.varOnly_iff_spares hx (.inl he)
  refine ⟨fun h => he.replaceIdent_canonical (hspares.2 h), fun hvar h b hb heq => h ?_⟩
  exact hspares.1 (he.varOnly_of_replaceIdent hx ht hvar hb heq.symm)

/-- The successor of `x` for `x`, beside a name that begins with it, and where a quantifier binds
it. -/
theorem replaceIdent_substitutes_or_shows_successor :
    Text.replaceIdent "(?y((x1+f(x))=x))" "x" "x'" = "(?y((x1+f(x'))=x'))" ∧
      ∀ b : Expr, b.IsFormula → Text.replaceIdent "(@xP(x))" "x" "x'" ≠ b.canonical := by
  have hx : IsTerm (.var "x") := .var (by decide)
  have hcall : IsTerm (.function "f" [.var "x"]) :=
    .function (by decide) (by simp) (by simpa using hx)
  have hequation : IsFormula (.exist "y" (.equals
      (.plus (.var "x1") (.function "f" [.var "x"])) (.var "x"))) :=
    .exist (by decide) (.equals (.plus (.var (by decide)) hcall) hx)
  have hbound : IsFormula (.forAll "x" (.predicate "P" [.var "x"])) :=
    .forAll (by decide) (.predicate (by decide) (by simpa using hx))
  obtain ⟨hsubst, -⟩ := replaceIdent_substitutes_or_shows (x := "x") hequation (by decide)
    (.successor hx)
  obtain ⟨-, hshows⟩ := replaceIdent_substitutes_or_shows (x := "x") hbound (by decide)
    (.successor hx)
  exact ⟨hsubst (by decide), hshows nofun (by decide)⟩

end Expr

end Sequitur
