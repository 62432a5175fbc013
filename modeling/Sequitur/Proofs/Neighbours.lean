import Mathlib
import Sequitur.Proofs.Sequents

/-!
# Neighbours in a phrase

What can stand next to what in a formula or a term is a matter of the last two tokens. `Place` says
what they were, and `Place.next` goes from place to place over the tokens. Nothing is counted, so
that parentheses need not match, but every phrase of the grammar leads from where an operand has to
start to where one has ended (`Grammar.Derives.completes`). So tokens that lead nowhere are no
phrase: a quantifier sign needs a name after it and an operand after that, and neither zero nor a
prime is followed by a parenthesis.

The tokens on such a way are scanned again from their text one by one (`Place.scan_spell_cons`),
unless a name is followed by zero, which the name takes in. Then what is scanned leads nowhere
(`Place.not_completes_of_joined`).
-/

namespace Sequitur

open Grammar Token

/-- The tokens that stand after a tree inside a larger one. -/
def Token.Closes (u : Token) : Prop :=
  u ∈ [rparen, comma, prime, plus, star, equals, ampersand, bar, arrow]

/-- What stands before a place between two tokens. -/
inductive Place where
  /-- Nothing that ends an operand: a formula or a term has to start. -/
  | start
  /-- A quantifier sign. -/
  | sign
  /-- A name, which may be that of a predicate or function with arguments. -/
  | name
  /-- Any other end of a formula or term. -/
  | done
  deriving DecidableEq, Repr

namespace Place

/-- An operand can have ended here. -/
def Ends (s : Place) : Prop := s = .name ∨ s = .done

/-- The place after a token that starts an operand. -/
def startOperand : Token → Option Place
  | .bang | .lparen => some .start
  | .forAll | .exist => some .sign
  | .ident _ => some .name
  | .zero => some .done
  | _ => none

/-- The place after a token that stands after an operand. -/
def afterOperand : Token → Option Place
  | .rparen | .prime => some .done
  | .comma | .plus | .star | .equals | .ampersand | .bar | .arrow => some .start
  | _ => none

/-- The place after the variable of a quantifier. -/
def afterSign : Token → Option Place
  | .ident _ => some .start
  | _ => none

/-- The place after a token. -/
def next : Place → Token → Option Place
  | .start, t => startOperand t
  | .sign, t => afterSign t
  | .name, t => if t = .lparen then some .start else afterOperand t
  | .done, t => afterOperand t

/-- The place after several tokens. -/
def run (s : Place) : List Token → Option Place
  | [] => some s
  | t :: ts => (s.next t).bind (·.run ts)

/-- The tokens lead from the place to the end of an operand. -/
def Completes (s : Place) (ts : List Token) : Prop := ∃ s', s.run ts = some s' ∧ s'.Ends

/-- The tokens can stand next to each other in this order. -/
def Runs (ts : List Token) : Prop := ∃ s s' : Place, s.run ts = some s'

section
variable {s s' : Place} {t : Token} {ts us : List Token}

/-- Going over tokens in two parts. -/
theorem run_append : s.run (ts ++ us) = (s.run ts).bind (·.run us) := by
  induction ts generalizing s with
  | nil => rfl
  | cons t ts ih =>
    rw [List.cons_append, run, run, Option.bind_assoc]
    exact congrArg _ (funext fun _ => ih)

theorem run_append_iff :
    s.run (ts ++ us) = some s' ↔ ∃ m, s.run ts = some m ∧ m.run us = some s' := by
  rw [run_append, Option.bind_eq_some_iff]

/-- Tokens that can stand next to each other can do so in every stretch of them. -/
theorem Runs.of_infix (h : Runs ts) (hsub : us <:+: ts) : Runs us := by
  obtain ⟨pre, post, rfl⟩ := hsub
  obtain ⟨s, s', hrun⟩ := h
  obtain ⟨e, hrun, -⟩ := run_append_iff.1 hrun
  obtain ⟨m, -, hrun⟩ := run_append_iff.1 hrun
  exact ⟨m, e, hrun⟩

/-- Tokens complete an operand when those behind the first do so from the place after it. -/
theorem completes_cons_iff :
    s.Completes (t :: ts) ↔ ∃ s', s.next t = some s' ∧ s'.Completes ts := by
  constructor
  · rintro ⟨e, h, he⟩
    obtain ⟨s', hs', h⟩ := Option.bind_eq_some_iff.1 h
    exact ⟨s', hs', e, h, he⟩
  · rintro ⟨s', hs', e, h, he⟩
    exact ⟨e, Option.bind_eq_some_iff.2 ⟨s', hs', h⟩, he⟩

/-- Tokens that complete an operand can stand next to each other. -/
theorem Completes.runs (h : s.Completes ts) : Runs ts := by
  obtain ⟨s', hrun, -⟩ := h
  exact ⟨s, s', hrun⟩

/-- A token that can stand after an operand is one of those after a tree. -/
theorem closes_of_afterOperand (h : afterOperand t = some s) : t.Closes := by
  have hbyte : ∀ b : Byte, (afterOperand (.byte b)).isSome = true →
      Token.byte b ∈ [rparen, comma, prime, plus, star, equals, ampersand, bar, arrow] := by
    decide +kernel
  cases t with
  | ident x => cases h
  | arrow => simp [Closes]
  | byte b => exact hbyte b (by rw [h]; rfl)

/-- Where an operand can have ended, every token that stands after operands can follow. -/
theorem next_of_ends (hs : s.Ends) (h : afterOperand t = some s') : s.next t = some s' := by
  rcases hs with rfl | rfl
  · have hne : t ≠ .lparen := by
      rintro rfl
      cases h
    exact (if_neg hne).trans h
  · exact h

/-- What stands after an operand cannot start one. -/
theorem next_start_of_closes (h : t.Closes) : next .start t = none := by
  simp only [Closes, List.mem_cons, List.not_mem_nil, or_false] at h
  rcases h with rfl | rfl | rfl | rfl | rfl | rfl | rfl | rfl | rfl <;> rfl

/-- Zero stands only where an operand starts, and is one. -/
theorem next_zero (h : s.next .zero = some s') : s = .start ∧ s' = .done := by
  cases s with
  | start => exact ⟨rfl, (Option.some.inj h).symm⟩
  | sign | name | done => cases h

/-- A name stands where an operand starts, or behind the sign of a quantifier. -/
theorem next_ident {x : Text} (h : s.next (.ident x) = some s') :
    s = .start ∧ s' = .name ∨ s = .sign ∧ s' = .start := by
  cases s with
  | start => exact .inl ⟨rfl, (Option.some.inj h).symm⟩
  | sign => exact .inr ⟨rfl, (Option.some.inj h).symm⟩
  | name | done => cases h

/-- The bytes that are tokens on a way stand alone, and zero is the only digit among them. -/
theorem byte_of_next : ∀ (s : Place) (b : Byte), (s.next (.byte b)).isSome = true →
    b.isLetter = false ∧ b ≠ 45 ∧ (b ≠ 48 → b.isDigit = false) := by
  intro s
  cases s <;> decide +kernel

end

/-! ## Phrases lead from the start of an operand to its end -/

end Place

open Place in
/-- The tokens of a phrase complete an operand. -/
theorem Grammar.Derives.completes {p : Phrase} {ts : List Token} (h : Derives p ts) :
    Place.start.Completes ts := by
  have hafter {s s' : Place} {t : Token} {ts us : List Token} (hrun : start.run ts = some s)
      (hs : s.Ends) (ht : afterOperand t = some s') :
      start.run (ts ++ t :: us) = s'.run us := by
    rw [run_append, hrun]
    show (s.next t).bind _ = _
    rw [next_of_ends hs ht]
    rfl
  induction h with
  | disj _ ih | conj _ ih | unary _ ih | quantified _ ih | predicate _ ih | add _ ih | mul _ ih
  | inc _ ih | primary _ ih | lastArg _ ih | negation _ ih | forAll _ _ ih | exist _ _ ih =>
    exact ih
  | implies _ _ ih₁ ih₂ | or _ _ ih₁ ih₂ | and _ _ ih₁ ih₂ | equals _ _ ih₁ ih₂ | plus _ _ ih₁ ih₂
  | times _ _ ih₁ ih₂ | arg _ _ ih₁ ih₂ =>
    obtain ⟨s, hrun, hs⟩ := ih₁
    obtain ⟨s', hrun', hs'⟩ := ih₂
    exact ⟨s', (hafter hrun hs rfl).trans hrun', hs'⟩
  | successor _ ih | parens _ ih | group _ ih | applied _ _ ih | function _ _ ih =>
    obtain ⟨s, hrun, hs⟩ := ih
    exact ⟨.done, hafter hrun hs rfl, .inr rfl⟩
  | letter | var => exact ⟨.name, rfl, .inl rfl⟩
  | zero => exact ⟨.done, rfl, .inr rfl⟩

namespace Place

/-! ## Scanning the tokens again -/

section
variable {s s' : Place} {t : Token} {ts : List Token}

/-- A token that no digit continues is scanned again as itself. -/
theorem scan_spell_cons (h : s.next t = some s') (hn : Named (t :: ts))
    (hfree : ∀ x, t = .ident x → (spell ts).DigitFree) :
    scan (spell (t :: ts)) = t :: scan (spell ts) := by
  rw [spell_cons]
  cases t with
  | ident x => exact scan_ident_append (hn x List.mem_cons_self) (hfree x rfl)
  | arrow => exact scan_arrow_cons (spell ts)
  | byte b =>
    obtain ⟨hletter, hhyphen, -⟩ := byte_of_next s b (by rw [h]; rfl)
    exact scan_byte_cons hletter hhyphen (spell ts)

/-- Only zero would be taken in by a name before it. -/
theorem digitFree_spell (h : s.Completes ts) (hn : Named ts) (hzero : ts.head? ≠ some .zero) :
    (spell ts).DigitFree := by
  cases ts with
  | nil => exact Text.digitFree_nil
  | cons t ts =>
    obtain ⟨s', hnext, -⟩ := completes_cons_iff.1 h
    rw [spell_cons]
    cases t with
    | ident x =>
      obtain ⟨b, digits, rfl, hb, -⟩ := Text.isIdent_iff.1 (hn x List.mem_cons_self)
      exact Text.digitFree_cons.2 (Byte.isDigit_of_isLetter hb)
    | arrow => exact Text.digitFree_cons.2 (by decide)
    | byte b =>
      obtain ⟨-, -, hdigit⟩ := byte_of_next s b (by rw [hnext]; rfl)
      refine Text.digitFree_cons.2 (hdigit ?_)
      rintro rfl
      exact hzero rfl

/-- Where zero follows a name and is taken into it, the tokens that are scanned again complete no
operand. -/
theorem not_completes_cons_zero {x : Text} (hnext : s.next (.ident x) = some s')
    (h : s'.Completes (.zero :: ts)) (hn : Named (.ident x :: .zero :: ts)) :
    ¬ s.Completes (scan (spell (.ident x :: .zero :: ts))) := by
  obtain ⟨s'', hnext', hts⟩ := completes_cons_iff.1 h
  obtain ⟨rfl, rfl⟩ := next_zero hnext'
  obtain ⟨rfl, -⟩ := (next_ident hnext).resolve_left (by simp)
  have hzero : ts.head? ≠ some .zero := by
    intro hhead
    obtain ⟨us, rfl⟩ := List.head?_eq_some_iff.1 hhead
    obtain ⟨_, hnext, -⟩ := completes_cons_iff.1 hts
    cases hnext
  have hfree := digitFree_spell hts hn.tail.tail hzero
  have hident : Text.isIdent Byte.isLetter (x ++ [48]) = true :=
    Text.isIdent_append rfl (hn x List.mem_cons_self)
  have hscan : scan (spell (.ident x :: .zero :: ts)) = .ident (x ++ [48]) :: scan (spell ts) := by
    rw [← scan_ident_append hident hfree, List.append_assoc]
    rfl
  rw [hscan, completes_cons_iff]
  rintro ⟨_, ⟨⟩, hcompletes⟩
  -- zero was the operand of the quantifier, and now the rest has to start with one
  cases ts with
  | nil =>
    obtain ⟨_, ⟨⟩, hends⟩ := hcompletes
    rcases hends with hends | hends <;> cases hends
  | cons u us =>
    obtain ⟨_, hu, -⟩ := completes_cons_iff.1 hts
    have hcloses := closes_of_afterOperand hu
    have hne (y : Text) : u ≠ .ident y := by
      rintro rfl
      cases hu
    rw [scan_spell_cons hu hn.tail.tail fun y hy => absurd hy (hne y), completes_cons_iff]
      at hcompletes
    obtain ⟨_, hstart, -⟩ := hcompletes
    rw [next_start_of_closes hcloses] at hstart
    cases hstart

/-- Where a name is followed by zero and takes it in, the tokens of the text are no operand any
more: the name was the variable of a quantifier, and what then stands after it cannot start an
operand. -/
theorem not_completes_of_joined (h : s.Completes ts) (hn : Named ts)
    (hjoined : ∃ x, [.ident x, .zero] <:+: ts) : ¬ s.Completes (scan (spell ts)) := by
  induction ts generalizing s with
  | nil =>
    obtain ⟨x, hx⟩ := hjoined
    cases List.infix_nil.1 hx
  | cons t ts ih =>
    obtain ⟨s', hnext, hts⟩ := completes_cons_iff.1 h
    by_cases hhead : ∃ x, t = .ident x ∧ ts.head? = some .zero
    · obtain ⟨x, rfl, hzero⟩ := hhead
      obtain ⟨ts, rfl⟩ := List.head?_eq_some_iff.1 hzero
      exact not_completes_cons_zero hnext hts hn
    · have hscan : scan (spell (t :: ts)) = t :: scan (spell ts) :=
        scan_spell_cons hnext hn fun x hx =>
          digitFree_spell hts hn.tail fun hzero => hhead ⟨x, hx, hzero⟩
      have hjoined' : ∃ x, [.ident x, .zero] <:+: ts := by
        obtain ⟨x, hx⟩ := hjoined
        refine ⟨x, (List.infix_cons_iff.1 hx).resolve_left ?_⟩
        rintro ⟨rest, heq⟩
        obtain ⟨rfl, rfl⟩ := List.cons.inj heq
        exact hhead ⟨x, rfl, rfl⟩
      rw [hscan, completes_cons_iff]
      rintro ⟨s'', hnext', hcompletes⟩
      cases hnext.symm.trans hnext'
      exact ih hts hn.tail hjoined' hcompletes

end

end Place

end Sequitur
