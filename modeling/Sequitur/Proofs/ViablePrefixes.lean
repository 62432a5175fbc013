import Mathlib
import Sequitur.Proofs.Sequents

/-!
# Reading stops after a viable prefix

When a text is no formula, everything before the place of the error can still be the beginning of
one. For the readers this is said of tokens (`Viable`): where a reader fails, the tokens it has
consumed are completed to a phrase by a few tokens from a fixed list (`Token.fillers`). There is one
lemma for each reader next to the one of its soundness, since what stands before the phrase that
fails was read without error. That a parenthesis is taken for one of a term or of a formula by what
comes long after it does not matter here: either begins something.

The fillers are neither digits nor do they make an arrow, so that after any tokens of a text they
are tokens of their own (`Token.Lexes.replace_rest`), and the completed tokens are those of a text.
-/

namespace Sequitur

/-- A text that nothing in front of it takes in: no digit for an identifier, no `>` for a hyphen. -/
def Text.StandsApart (text : Text) : Prop :=
  ∀ b ∈ text.head?, Byte.isDigit b = false ∧ b ≠ 62

namespace Token

/-! ## Tokens that complete a phrase -/

/-- A variable, a formula, a closing parenthesis and `=`. -/
def fillers : List Token := [.ident "x", .ident "P", .rparen, .equals]

/-- Only fillers. -/
def Fills (vs : List Token) : Prop := ∀ t ∈ vs, t ∈ fillers

theorem fills_nil : Fills [] := List.forall_mem_nil _

theorem Fills.append {vs ws : List Token} (hv : Fills vs) (hw : Fills ws) : Fills (vs ++ ws) :=
  List.forall_mem_append.2 ⟨hv, hw⟩

/-- Fillers are not taken in by what stands before them. -/
theorem Fills.standsApart {vs : List Token} (h : Fills vs) : (spell vs).StandsApart := by
  cases vs with
  | nil => simp [Text.StandsApart, spell]
  | cons t vs =>
    have ht : t ∈ fillers := h t List.mem_cons_self
    simp only [fillers, List.mem_cons, List.not_mem_nil, or_false] at ht
    rw [spell_cons]
    intro b hb
    rcases ht with rfl | rfl | rfl | rfl
    all_goals
      obtain rfl := Option.some.inj hb
      decide

/-- Fillers are scanned one by one. -/
theorem Fills.lexes {vs : List Token} (h : Fills vs) : Lexes (spell vs) vs := by
  induction vs with
  | nil => exact .nil
  | cons t vs ih =>
    obtain ⟨ht, hvs⟩ := List.forall_mem_cons.1 h
    have hlexes := ih hvs
    have hfree : (spell vs).DigitFree := fun b hb => (Fills.standsApart hvs b hb).1
    simp only [fillers, List.mem_cons, List.not_mem_nil, or_false] at ht
    rw [spell_cons]
    rcases ht with rfl | rfl | rfl | rfl
    · exact .ident (b := 120) (by decide) (List.forall_mem_nil _) hfree hlexes
    · exact .ident (b := 80) (by decide) (List.forall_mem_nil _) hfree hlexes
    · exact .byte (by decide) (fun h => absurd h.1 (by decide)) hlexes
    · exact .byte (by decide) (fun h => absurd h.1 (by decide)) hlexes

/-! ## Another rest -/

theorem Lexes.spell_eq {text : Text} {ts : List Token} (h : Lexes text ts) : spell ts = text := by
  rw [h.eq_scan, spell_scan]

/-- Where some of the tokens of a text are cut off and something else is put behind the others, the
first byte is that of the text or of what is put there. -/
theorem Lexes.head?_spell_append {text w : Text} {us rest : List Token}
    (h : Lexes text (us ++ rest)) {b : Byte} (hb : b ∈ (spell us ++ w).head?) :
    b ∈ text.head? ∨ b ∈ w.head? := by
  cases us with
  | nil => exact .inr hb
  | cons u us =>
    rw [spell_cons] at hb
    left
    cases h with
    | ident | arrow | byte => exact hb

/-- The tokens at the front of a text stay what they are when what follows them is replaced by a
text that stands apart. -/
theorem Lexes.replace_rest {text w : Text} {us rest vs : List Token} (h : Lexes text (us ++ rest))
    (hw : Lexes w vs) (hapart : w.StandsApart) : Lexes (spell us ++ w) (us ++ vs) := by
  induction us generalizing text with
  | nil => exact hw
  | cons u us ih =>
    rw [spell_cons, List.append_assoc, List.cons_append]
    cases h with
    | @ident b digits text' _ hb hdigits hfree htext =>
      have hfree' : (spell us ++ w).DigitFree := by
        intro c hc
        rcases htext.head?_spell_append hc with hc | hc
        · exact hfree c hc
        · exact (hapart c hc).1
      exact .ident hb hdigits hfree' (ih htext)
    | arrow htext => exact .arrow (ih htext)
    | @byte b text' _ hb hhyphen htext =>
      refine .byte hb (fun hmake => ?_) (ih htext)
      rcases htext.head?_spell_append hmake.2 with hc | hc
      · exact hhyphen ⟨hmake.1, hc⟩
      · exact (hapart _ hc).2 rfl

end Token

namespace Grammar

open Sequitur.Parser Token

/-! ## Readers that fail -/

/-- The tokens begin something of `P`: fillers complete them. -/
def Begins {α : Type} (P : α → List Token → Prop) (us : List Token) : Prop :=
  ∃ vs a, Fills vs ∧ P a (us ++ vs)

/-- Where the reader fails, the tokens it has consumed begin something of `P`. -/
def Viable {α : Type} (reader : Reader α) (P : α → List Token → Prop) : Prop :=
  ∀ ts f, reader ts = .error f → ∃ us, ts = us ++ f.rest ∧ Begins P us

/-- Reads items with separators between them and groups them in some way. Chains that group to the
left and to the right are cases of this, and so is what stands between the parentheses of
arguments. -/
def gather {γ : Type} (sep : Token) (item : Reader Expr) (group : Expr → List Expr → γ) (n : Nat) :
    Reader γ := fun ts => do
  let (e, ts) ← item ts
  let (es, ts) ← further sep item n ts
  .ok (group e es, ts)

/-- A computation fails in its first part or after it. -/
theorem bind_eq_error {ε α β : Type} {x : Except ε α} {f : α → Except ε β} {e : ε} :
    x >>= f = .error e ↔ x = .error e ∨ ∃ a, x = .ok a ∧ f a = .error e := by
  cases x with
  | error e' => simp [bind, Except.bind]
  | ok a => simp [bind, Except.bind]

section
variable {α β : Type} {P : α → List Token → Prop} {Q : β → List Token → Prop} {us : List Token}

/-- What begins a part begins the whole, when fillers follow the part. -/
theorem Begins.within (h : Begins P us) (front : List Token) {back : List Token}
    (hback : Fills back) (hQ : ∀ a ts, P a ts → ∃ b, Q b (front ++ ts ++ back)) :
    Begins Q (front ++ us) := by
  obtain ⟨vs, a, hvs, ha⟩ := h
  obtain ⟨b, hb⟩ := hQ a _ ha
  exact ⟨vs ++ back, b, hvs.append hback, by simpa using hb⟩

/-- What begins something of `P` begins something of every `Q` that `P` implies. -/
theorem Begins.imp {Q : α → List Token → Prop} (h : Begins P us) (hQ : ∀ a ts, P a ts → Q a ts) :
    Begins Q us := by
  obtain ⟨vs, a, hvs, ha⟩ := h
  exact ⟨vs, a, hvs, hQ a _ ha⟩

/-- A reader that is viable for `P` is so for every `Q` that `P` implies. -/
theorem Viable.imp {reader : Reader α} {Q : α → List Token → Prop} (h : Viable reader P)
    (hQ : ∀ a ts, P a ts → Q a ts) : Viable reader Q := by
  intro ts f hf
  obtain ⟨us, hts, hus⟩ := h ts f hf
  exact ⟨us, hts, hus.imp hQ⟩

end

theorem begins_unary : Begins (fun e => Derives (.unary e)) [] :=
  ⟨[.ident "P"], .predicate "P" [], by simp [Fills, fillers], .predicate (.letter (by decide))⟩

section
variable {sep : Token} {combine : Expr → Expr → Expr} {item : Reader Expr}
variable {P Q : Expr → List Token → Prop}

/-- Where reading further items fails, the items before and the start of the failing one begin
items. -/
theorem viable_further (hsound : Sound item P) (h : Viable item P) (n : Nat) :
    Viable (further sep item n) (Items sep P) := by
  induction n with
  | zero =>
    intro ts f hf
    cases hf
  | succ n ih =>
    intro ts f hf
    cases ts with
    | nil => cases hf
    | cons t ts =>
      rw [further_cons] at hf
      split at hf
      · next ht =>
        subst ht
        rcases bind_eq_error.1 hf with hitem | ⟨⟨e, ts₁⟩, h₁, hf₁⟩
        · obtain ⟨us, rfl, vs, e, hvs, he⟩ := h _ _ hitem
          have hitems : Items t P [e] (t :: (us ++ vs ++ [])) := .cons he .nil
          rw [List.append_nil] at hitems
          exact ⟨t :: us, rfl, vs, [e], hvs, hitems⟩
        · obtain ⟨us, rfl, he⟩ := hsound _ _ _ h₁
          rcases bind_eq_error.1 hf₁ with hrest | ⟨⟨es, ts₂⟩, -, hf₂⟩
          · obtain ⟨us', rfl, vs, es, hvs, hes⟩ := ih _ _ hrest
            have hitems : Items t P (e :: es) (t :: (us ++ (us' ++ vs))) := .cons he hes
            rw [← List.append_assoc] at hitems
            exact ⟨t :: (us ++ us'), by simp, vs, e :: es, hvs, hitems⟩
          · cases hf₂
      · cases hf

/-- A chain fails in its first item or in a further one. -/
theorem viable_gather {group : Expr → List Expr → Expr} (hsound : Sound item P) (h : Viable item P)
    (hgroup : ∀ a es us vs, P a us → Items sep P es vs → Q (group a es) (us ++ vs)) (n : Nat) :
    Viable (gather sep item group n) Q := by
  intro ts f hf
  rcases bind_eq_error.1 hf with hitem | ⟨⟨a, ts₁⟩, h₁, hf₁⟩
  · obtain ⟨us, hts, vs, a, hvs, ha⟩ := h _ _ hitem
    have hone := hgroup a [] _ _ ha .nil
    rw [List.append_nil] at hone
    exact ⟨us, hts, vs, _, hvs, hone⟩
  · obtain ⟨us, rfl, ha⟩ := hsound _ _ _ h₁
    rcases bind_eq_error.1 hf₁ with hrest | ⟨⟨es, ts₂⟩, -, hf₂⟩
    · obtain ⟨us', rfl, vs, es, hvs, hes⟩ := viable_further hsound h n _ _ hrest
      have hall := hgroup a es _ _ ha hes
      rw [← List.append_assoc] at hall
      exact ⟨us ++ us', by simp, vs, _, hvs, hall⟩
    · cases hf₂

/-- Where a chain that groups to the left fails, the tokens before begin such a chain. -/
theorem viable_leftChain (hsound : Sound item P) (h : Viable item P)
    (hone : ∀ a us, P a us → Q a us)
    (hQ : ∀ a b us vs, Q a us → P b vs → Q (combine a b) (us ++ sep :: vs)) (n : Nat) :
    Viable (leftChain sep combine item n) Q :=
  viable_gather hsound h (fun a _ us _ ha hes => hes.foldl hQ (hone a us ha)) n

/-- Where a chain that groups to the right fails, the tokens before begin such a chain. -/
theorem viable_rightChain (hsound : Sound item P) (h : Viable item P)
    (hone : ∀ a us, P a us → Q a us)
    (hQ : ∀ a b us vs, P a us → Q b vs → Q (combine a b) (us ++ sep :: vs)) (n : Nat) :
    Viable (rightChain sep combine item n) Q :=
  viable_gather hsound h (fun _ _ _ _ ha hes => hes.groupRight hone hQ ha) n

end

/-- Where an expected byte is missing, nothing has been consumed. -/
theorem expect_eq_error {b : Byte} {ts : List Token} {f : Fault} (h : expect b ts = .error f) :
    f.rest = ts := by
  unfold expect at h
  split at h
  · split at h
    · cases h
    · cases h; rfl
  · cases h; rfl

/-! ## Terms -/

theorem fills_rparen : Fills [.rparen] := by simp [Fills, fillers]

/-- Where reading arguments fails, the tokens before begin arguments. -/
theorem viable_arguments {term : Reader Expr} (hsound : Sound term fun e => Derives (.term e))
    (h : Viable term fun e => Derives (.term e)) (n : Nat) :
    Viable (arguments term n) fun es us =>
      ∃ vs, us = vs ++ [.rparen] ∧ Derives (.args es) vs := by
  intro ts f hf
  rcases bind_eq_error.1 hf with hterm | ⟨⟨e, ts₁⟩, h₁, hf₁⟩
  · obtain ⟨us, hts, hus⟩ := h _ _ hterm
    exact ⟨us, hts, hus.within [] fills_rparen fun e ts he => ⟨[e], ts, rfl, .lastArg he⟩⟩
  obtain ⟨us, rfl, he⟩ := hsound _ _ _ h₁
  rcases bind_eq_error.1 hf₁ with hrest | ⟨⟨es, ts₂⟩, h₂, hf₂⟩
  · obtain ⟨us', rfl, hus'⟩ := viable_further hsound h n _ _ hrest
    refine ⟨us ++ us', by simp, hus'.within us fills_rparen fun es ts hes => ?_⟩
    exact ⟨e :: es, us ++ ts, rfl, hes.args he⟩
  · obtain ⟨us', rfl, hes⟩ := sound_further hsound n _ _ _ h₂
    dsimp only at hf₂
    split at hf₂
    · cases hf₂
    · cases hf₂
      exact ⟨us ++ us', by simp, [.rparen], e :: es, fills_rparen, _, rfl, hes.args he⟩

theorem begins_primary : Begins (fun e => Derives (.primary e)) [] :=
  ⟨[.ident "x"], .var "x", by simp [Fills, fillers], .var (by decide)⟩

/-- Where reading a primary fails, the tokens before begin a primary. -/
theorem viable_primary {term : Reader Expr} (hsound : Sound term fun e => Derives (.term e))
    (h : Viable term fun e => Derives (.term e)) (n : Nat) :
    Viable (primary term n) fun e => Derives (.primary e) := by
  intro ts f hf
  unfold primary at hf
  split at hf
  · next x ts =>
    split at hf
    · next hx =>
      split at hf
      · rcases bind_eq_error.1 hf with hargs | ⟨⟨args, ts₁⟩, -, hf₁⟩
        · obtain ⟨us, rfl, hus⟩ := viable_arguments hsound h n _ _ hargs
          refine ⟨.ident x :: .lparen :: us, rfl,
            hus.within [.ident x, .lparen] fills_nil fun es ts hes => ?_⟩
          obtain ⟨vs, rfl, hes⟩ := hes
          exact ⟨.function x es, by simpa using Derives.function hx hes⟩
        · cases hf₁
      · cases hf
    · cases hf
      exact ⟨[], rfl, begins_primary⟩
  · rcases bind_eq_error.1 hf with hterm | ⟨⟨e, ts₁⟩, h₁, hf₁⟩
    · obtain ⟨us, rfl, hus⟩ := h _ _ hterm
      refine ⟨.lparen :: us, rfl, hus.within [.lparen] fills_rparen fun e ts he => ?_⟩
      exact ⟨e, .group he⟩
    · obtain ⟨us, rfl, he⟩ := hsound _ _ _ h₁
      rcases bind_eq_error.1 hf₁ with hclose | ⟨_, -, hf₂⟩
      · obtain rfl := expect_eq_error hclose
        exact ⟨.lparen :: us, rfl, [.rparen], e, fills_rparen, .group he⟩
      · cases hf₂
  · cases hf
  · cases hf
    exact ⟨[], rfl, begins_primary⟩

/-- Where reading an increment fails, the tokens before begin an increment. -/
theorem viable_increment {term : Reader Expr} (hsound : Sound term fun e => Derives (.term e))
    (h : Viable term fun e => Derives (.term e)) (n : Nat) :
    Viable (increment term n) fun e => Derives (.inc e) := by
  intro ts f hf
  rcases bind_eq_error.1 hf with hprimary | ⟨_, -, hf₁⟩
  · exact (viable_primary hsound h n).imp (fun _ _ => .primary) _ _ hprimary
  · cases hf₁

/-- Where reading a term fails, the tokens before begin a term. -/
theorem viable_term (n : Nat) : Viable (term n) fun e => Derives (.term e) := by
  induction n with
  | zero =>
    intro ts f hf
    cases hf
    exact ⟨[], rfl, begins_primary.imp fun _ _ he => .add (.mul (.inc (.primary he)))⟩
  | succ n ih =>
    have hvmul : Viable (leftChain .star .times (increment (term n) n) n)
        fun e => Derives (.mul e) :=
      viable_leftChain (sound_increment (sound_term n) n) (viable_increment (sound_term n) ih n)
        (fun _ _ => .inc) (fun _ _ _ _ => .times) n
    have hvadd : Viable (term (n + 1)) fun e => Derives (.add e) :=
      viable_leftChain (sound_product (sound_term n) n) hvmul (fun _ _ => .mul)
        (fun _ _ _ _ => .plus) n
    exact hvadd.imp fun _ _ => .add

/-! ## Formulas -/

/-- Where reading an equation fails, the tokens before begin an equation. -/
theorem viable_equation (n : Nat) : Viable (equation (term n)) fun e => Derives (.predicate e) := by
  have hright {a : Expr} {ts : List Token} (ha : Derives (.term a) ts) :
      Derives (.predicate (.equals a (.var "x"))) (ts ++ [.equals, .ident "x"]) :=
    .equals ha (.add (.mul (.inc (.primary (.var (by decide))))))
  have hfills : Fills [.equals, .ident "x"] := by simp [Fills, fillers]
  intro ts f hf
  rcases bind_eq_error.1 hf with hleft | ⟨⟨a, ts₁⟩, h₁, hf₁⟩
  · obtain ⟨us, hts, hus⟩ := viable_term n _ _ hleft
    exact ⟨us, hts, hus.within [] hfills fun a ts ha => ⟨_, hright ha⟩⟩
  obtain ⟨us, rfl, ha⟩ := sound_term n _ _ _ h₁
  rcases bind_eq_error.1 hf₁ with hsign | ⟨⟨_, ts₂⟩, h₂, hf₂⟩
  · obtain rfl := expect_eq_error hsign
    exact ⟨us, rfl, _, _, hfills, hright ha⟩
  obtain rfl := expect_eq_ok h₂
  rcases bind_eq_error.1 hf₂ with hterm | ⟨_, -, hf₃⟩
  · obtain ⟨us', rfl, hus'⟩ := viable_term n _ _ hterm
    refine ⟨us ++ .equals :: us', by simp, ?_⟩
    rw [List.append_cons]
    refine hus'.within (us ++ [.equals]) fills_nil fun b ts hb => ⟨Expr.equals a b, ?_⟩
    simpa using Derives.equals ha hb
  · cases hf₃

/-- After a quantifier sign a variable is missing, or the body fails. -/
theorem viable_quantifier {kind : Kind} {unary : Reader Expr}
    (h : Viable unary fun e => Derives (.unary e)) :
    Viable (quantifier kind unary) fun e us => ∃ x b vs, e = .quantified kind x b ∧
      us = .ident x :: vs ∧ isLowerName x = true ∧ Derives (.unary b) vs := by
  intro ts f hf
  have hnone : Begins (fun (e : Expr) us => ∃ x b vs, e = .quantified kind x b ∧
      us = .ident x :: vs ∧ isLowerName x = true ∧ Derives (.unary b) vs) [] :=
    ⟨[.ident "x", .ident "P"], _, by simp [Fills, fillers], "x", .predicate "P" [], _, rfl, rfl,
      by decide, .predicate (.letter (by decide))⟩
  unfold quantifier at hf
  split at hf
  · next x ts =>
    split at hf
    · next hx =>
      rcases bind_eq_error.1 hf with hbody | ⟨_, -, hf₁⟩
      · obtain ⟨us, rfl, hus⟩ := h _ _ hbody
        refine ⟨.ident x :: us, rfl, hus.within [.ident x] fills_nil fun b ts hb => ?_⟩
        exact ⟨_, x, b, ts, rfl, by simp, hx, hb⟩
      · cases hf₁
    · cases hf
      exact ⟨[], rfl, hnone⟩
  · cases hf
    exact ⟨[], rfl, hnone⟩

/-- Where reading a formula fails, the tokens before begin a formula, provided that this is so of a
`Unary`. -/
theorem viable_formulaOf {unary : Reader Expr} (hsound : Sound unary fun e => Derives (.unary e))
    (h : Viable unary fun e => Derives (.unary e)) (n : Nat) :
    Viable (formulaOf unary n) fun e => Derives (.expr e) := by
  have hconj : Viable (leftChain .ampersand .and unary n) fun e => Derives (.conj e) :=
    viable_leftChain hsound h (fun _ _ => .unary) (fun _ _ _ _ => .and) n
  have hdisj : Viable (leftChain .bar .or (leftChain .ampersand .and unary n) n)
      fun e => Derives (.disj e) :=
    viable_leftChain (sound_conjunction hsound n) hconj (fun _ _ => .conj) (fun _ _ _ _ => .or) n
  exact viable_rightChain (sound_disjunction hsound n) hdisj (fun _ _ => .disj)
    (fun _ _ _ _ => .implies) n

/-- Where reading a `Unary` fails, the tokens before begin one. -/
theorem viable_unary (n : Nat) : Viable (unary n) fun e => Derives (.unary e) := by
  induction n with
  | zero =>
    intro ts f hf
    cases hf
    exact ⟨[], rfl, begins_unary⟩
  | succ n ih =>
    have heq : Viable (equation (term (n + 1))) fun e => Derives (.unary e) :=
      (viable_equation (n + 1)).imp fun _ _ => .predicate
    intro ts f hf
    unfold unary at hf
    split at hf
    · next hn => cases hn
    · next hn =>
      cases hn
      rcases bind_eq_error.1 hf with hbody | ⟨_, -, hf₁⟩
      · obtain ⟨us, rfl, hus⟩ := ih _ _ hbody
        refine ⟨.bang :: us, rfl, hus.within [.bang] fills_nil fun e ts he => ?_⟩
        exact ⟨.negation e, by simpa using Derives.negation he⟩
      · cases hf₁
    · next hn =>
      cases hn
      split at hf
      · exact heq _ _ hf
      · rcases bind_eq_error.1 hf with hinner | ⟨⟨e, ts₁⟩, h₁, hf₁⟩
        · obtain ⟨us, rfl, hus⟩ := viable_formulaOf (sound_unary n) ih n _ _ hinner
          refine ⟨.lparen :: us, rfl, hus.within [.lparen] fills_rparen fun e ts he => ?_⟩
          exact ⟨e, .parens he⟩
        · obtain ⟨us, rfl, he⟩ := sound_formulaOf (sound_unary n) n _ _ _ h₁
          rcases bind_eq_error.1 hf₁ with hclose | ⟨_, -, hf₂⟩
          · obtain rfl := expect_eq_error hclose
            exact ⟨.lparen :: us, rfl, [.rparen], e, fills_rparen, .parens he⟩
          · cases hf₂
    · next hn =>
      cases hn
      obtain ⟨us, rfl, hus⟩ := viable_quantifier ih _ _ hf
      refine ⟨.forAll :: us, rfl, hus.within [.forAll] fills_nil fun e ts he => ?_⟩
      obtain ⟨x, b, vs, rfl, rfl, hx, hb⟩ := he
      exact ⟨_, by simpa using Derives.quantified (.forAll hx hb)⟩
    · next hn =>
      cases hn
      obtain ⟨us, rfl, hus⟩ := viable_quantifier ih _ _ hf
      refine ⟨.exist :: us, rfl, hus.within [.exist] fills_nil fun e ts he => ?_⟩
      obtain ⟨x, b, vs, rfl, rfl, hx, hb⟩ := he
      exact ⟨_, by simpa using Derives.quantified (.exist hx hb)⟩
    · next p ts hn =>
      cases hn
      split at hf
      · next hp =>
        split at hf
        · rcases bind_eq_error.1 hf with hargs | ⟨_, -, hf₁⟩
          · obtain ⟨us, rfl, hus⟩ := viable_arguments (sound_term n) (viable_term n) n _ _ hargs
            refine ⟨.ident p :: .lparen :: us, rfl,
              hus.within [.ident p, .lparen] fills_nil fun es ts hes => ?_⟩
            obtain ⟨vs, rfl, hes⟩ := hes
            exact ⟨_, by simpa using Derives.predicate (.applied hp hes)⟩
          · cases hf₁
        · cases hf
      · exact heq _ _ hf
    · next hn _ _ _ _ _ =>
      cases hn
      exact heq _ _ hf

/-! ## Whole texts -/

/-- The place of an error is after tokens that begin something of `P`. -/
theorem exists_begins_of_whole {reader : Nat → Reader Expr} {P : Expr → List Token → Prop}
    (hsound : ∀ n, Sound (reader n) P) (h : ∀ n, Viable (reader n) P) {input : Text}
    {e : SyntaxError} (he : whole reader input = .error e) :
    e.input = input ∧ ∃ us rest, scan input = us ++ rest ∧ e.position = (spell us).length ∧
      Begins P us := by
  have hposition {us rest : List Token} (hscan : scan input = us ++ rest) :
      input.length - (spell rest).length = (spell us).length := by
    rw [← spell_scan input, hscan, spell_append, List.length_append]
    omega
  unfold whole at he
  dsimp only at he
  split at he
  · next f hf =>
    cases he
    obtain ⟨us, hscan, hus⟩ := h _ _ _ hf
    exact ⟨rfl, us, f.rest, hscan, hposition hscan, hus⟩
  · cases he
  · next a t rest hread =>
    cases he
    obtain ⟨us, hscan, ha⟩ := hsound _ _ _ _ hread
    rw [← List.append_nil us] at ha
    exact ⟨rfl, us, _, hscan, hposition hscan, [], a, fills_nil, ha⟩

/-- Tokens at the front of a text that begin a phrase are completed in a text that has exactly the
completed tokens, and no white space. -/
theorem Begins.exists_scan {p : Expr → Phrase} {input : Text} {us rest : List Token}
    (hscan : scan input = us ++ rest) (h : Begins (fun e => Derives (p e)) us) :
    ∃ suffix e, Derives (p e) (scan (spell us ++ suffix).stripSpace) := by
  obtain ⟨vs, e, hvs, he⟩ := h
  have hlexes : Lexes (spell us ++ spell vs) (us ++ vs) :=
    (lexes_iff_scan.2 hscan.symm).replace_rest hvs.lexes hvs.standsApart
  rw [hlexes.eq_scan] at he
  refine ⟨spell vs, e, ?_⟩
  rw [Text.stripSpace_eq_self he.visible_text]
  exact he

end Grammar

namespace SyntaxError

/-- The error points after a viable prefix: it shows the text without white space, its place is in
that text, and `parse` accepts what stands before the place when a suitable suffix follows. -/
structure AfterViablePrefix (e : SyntaxError) (text : Text)
    (parse : Text → Except SyntaxError Expr) : Prop where
  input : e.input = text.stripSpace
  position : e.position ≤ e.input.length
  viable : ∃ suffix tree, parse (e.input.take e.position ++ suffix) = .ok tree

end SyntaxError

namespace Text

open Grammar Token

/-- The place of an error of `parse`, which accepts what the grammar derives, is after a viable
prefix. -/
theorem afterViablePrefix_of_whole {reader : Nat → Parser.Reader Expr} {p : Expr → Phrase}
    {parse : Text → Except SyntaxError Expr}
    (hsound : ∀ n, Sound (reader n) fun e => Derives (p e))
    (h : ∀ n, Viable (reader n) fun e => Derives (p e))
    (hparse : ∀ text e, parse text = .ok e ↔ Derives (p e) (scan text.stripSpace)) {text : Text}
    {e : SyntaxError} (he : Parser.whole reader text.stripSpace = .error e) :
    e.AfterViablePrefix text parse := by
  obtain ⟨hinput, us, rest, hscan, hposition, hus⟩ := exists_begins_of_whole hsound h he
  have hspell : text.stripSpace = spell us ++ spell rest := by
    rw [← spell_append, ← hscan, spell_scan]
  obtain ⟨suffix, tree, htree⟩ := hus.exists_scan hscan
  have htake : e.input.take e.position = spell us := by
    rw [hinput, hposition, hspell, List.take_left]
  refine ⟨hinput, ?_, suffix, tree, (hparse _ _).2 (htake ▸ htree)⟩
  rw [hinput, hposition, hspell, List.length_append]
  exact Nat.le_add_right _ _

/-- An error in reading a formula points after a viable prefix. -/
theorem afterViablePrefix_of_parseFormula {text : Text} {e : SyntaxError}
    (h : text.parseFormula = .error e) : e.AfterViablePrefix text parseFormula :=
  afterViablePrefix_of_whole sound_formula (fun n => viable_formulaOf (sound_unary n)
    (viable_unary n) n) (fun _ _ => parseFormula_eq_ok_iff) h

/-- An error in reading a term points after a viable prefix. -/
theorem afterViablePrefix_of_parseTerm {text : Text} {e : SyntaxError}
    (h : text.parseTerm = .error e) : e.AfterViablePrefix text parseTerm :=
  afterViablePrefix_of_whole sound_term viable_term (fun _ _ => parseTerm_eq_ok_iff) h

end Text

end Sequitur
