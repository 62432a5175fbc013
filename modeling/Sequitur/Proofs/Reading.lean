import Mathlib
import Sequitur.Proofs.Grammar
import Sequitur.Proofs.Tokens

/-!
# Reading agrees with the grammar

The readers of `Parser` accept exactly what the grammar derives, and return the tree that the
derivation denotes.

*Soundness.* Whatever a reader returns, it has consumed a derivation of it; how much fuel there
was does not matter. *Completeness.* A reader given the tokens of a phrase, followed by a rest
that cannot continue the phrase (`Ends`), and fuel for as many tokens, returns the tree of the
phrase and the rest. The first tells that accepted texts are derivable, the second that derivable
texts are accepted; together they leave one tree to each text, since a reader returns one.
-/

namespace Sequitur.Grammar

open Sequitur.Parser

/-- A computation that succeeds has a first part that does. -/
theorem bind_eq_ok {ε α β : Type} {x : Except ε α} {f : α → Except ε β} {b : β} :
    x >>= f = .ok b ↔ ∃ a, x = .ok a ∧ f a = .ok b := by
  cases x with
  | error e => simp [bind, Except.bind]
  | ok a => simp [bind, Except.bind]

@[simp] theorem ok_bind {ε α β : Type} (a : α) (f : α → Except ε β) :
    (Except.ok a >>= f) = f a := rfl

/-- What a computation over a list gave was given by members of the list. -/
theorem exists_of_mapM {ε α β : Type} {f : α → Except ε β} {as : List α} {bs : List β}
    (h : as.mapM f = .ok bs) : ∀ b ∈ bs, ∃ a ∈ as, f a = .ok b := by
  induction as generalizing bs with
  | nil =>
    cases h
    nofun
  | cons a as ih =>
    rw [List.mapM_cons] at h
    obtain ⟨b, hb, h⟩ := bind_eq_ok.1 h
    obtain ⟨bs', hbs, h⟩ := bind_eq_ok.1 h
    cases h
    refine List.forall_mem_cons.2 ⟨⟨a, List.mem_cons_self, hb⟩, fun b' hb' => ?_⟩
    obtain ⟨a', ha', hf⟩ := ih hbs b' hb'
    exact ⟨a', List.mem_cons_of_mem a ha', hf⟩

/-! ## Soundness -/

/-- What the reader returns is related by `P` to the tokens it has consumed. -/
def Sound {α : Type} (reader : Reader α) (P : α → List Token → Prop) : Prop :=
  ∀ ts a rest, reader ts = .ok (a, rest) → ∃ us, ts = us ++ rest ∧ P a us

/-- Items, each with a separator in front of it. -/
inductive Items (sep : Token) (P : Expr → List Token → Prop) : List Expr → List Token → Prop
  | nil : Items sep P [] []
  | cons {e es us vs} : P e us → Items sep P es vs → Items sep P (e :: es) (sep :: (us ++ vs))

section
variable {sep : Token} {combine : Expr → Expr → Expr} {item : Reader Expr}
variable {P Q : Expr → List Token → Prop}

theorem further_cons (sep : Token) (item : Reader Expr) (n : Nat) (t : Token) (ts : List Token) :
    further sep item (n + 1) (t :: ts) = if t = sep then do
      let (e, ts) ← item ts
      let (es, ts) ← further sep item n ts
      .ok (e :: es, ts)
    else .ok ([], t :: ts) := rfl

/-- Reading further items consumes items of `P`, each behind a separator. -/
theorem sound_further (h : Sound item P) (n : Nat) : Sound (further sep item n) (Items sep P) := by
  induction n with
  | zero =>
    intro ts es rest hr
    obtain ⟨rfl, rfl⟩ := Prod.mk.inj (Except.ok.inj hr)
    exact ⟨[], rfl, .nil⟩
  | succ n ih =>
    intro ts es rest hr
    cases ts with
    | nil =>
      obtain ⟨rfl, rfl⟩ := Prod.mk.inj (Except.ok.inj hr)
      exact ⟨[], rfl, .nil⟩
    | cons t ts =>
      rw [further_cons] at hr
      split at hr
      · next ht =>
        obtain ⟨⟨e, ts₁⟩, h₁, hr⟩ := bind_eq_ok.1 hr
        obtain ⟨⟨es', ts₂⟩, h₂, hr⟩ := bind_eq_ok.1 hr
        simp only [Except.ok.injEq, Prod.mk.injEq] at hr
        obtain ⟨rfl, rfl⟩ := hr
        obtain ⟨us, rfl, hus⟩ := h _ _ _ h₁
        obtain ⟨vs, rfl, hvs⟩ := ih _ _ _ h₂
        exact ⟨sep :: (us ++ vs), by simp [ht], .cons hus hvs⟩
      · simp only [Except.ok.injEq, Prod.mk.injEq] at hr
        obtain ⟨rfl, rfl⟩ := hr
        exact ⟨[], rfl, .nil⟩

/-- Items grouped to the left, in any relation that is closed under one item more at the end. -/
theorem Items.foldl (hQ : ∀ a b us vs, Q a us → P b vs → Q (combine a b) (us ++ sep :: vs))
    {es : List Expr} {vs : List Token} (h : Items sep P es vs) {a : Expr} {us : List Token}
    (ha : Q a us) : Q (es.foldl combine a) (us ++ vs) := by
  induction h generalizing a us with
  | nil => simpa using ha
  | cons hb _ ih => simpa using ih (hQ _ _ _ _ ha hb)

/-- Items grouped to the right, in any relation that is closed under one item more in front. -/
theorem Items.groupRight (hone : ∀ a us, P a us → Q a us)
    (hQ : ∀ a b us vs, P a us → Q b vs → Q (combine a b) (us ++ sep :: vs))
    {es : List Expr} {vs : List Token} (h : Items sep P es vs) {a : Expr} {us : List Token}
    (ha : P a us) : Q (Parser.groupRight combine a es) (us ++ vs) := by
  induction h generalizing a us with
  | nil => simpa [Parser.groupRight] using hone a us ha
  | cons hb _ ih => exact hQ _ _ _ _ ha (ih hb)

/-- A chain that groups to the left consumes what `Q` builds up item by item from the left. -/
theorem sound_leftChain (h : Sound item P) (hone : ∀ a us, P a us → Q a us)
    (hQ : ∀ a b us vs, Q a us → P b vs → Q (combine a b) (us ++ sep :: vs)) (n : Nat) :
    Sound (leftChain sep combine item n) Q := by
  intro ts e rest hr
  obtain ⟨⟨a, ts₁⟩, h₁, hr⟩ := bind_eq_ok.1 hr
  obtain ⟨⟨es, ts₂⟩, h₂, hr⟩ := bind_eq_ok.1 hr
  simp only [Except.ok.injEq, Prod.mk.injEq] at hr
  obtain ⟨rfl, rfl⟩ := hr
  obtain ⟨us, rfl, hus⟩ := h _ _ _ h₁
  obtain ⟨vs, rfl, hvs⟩ := sound_further h n _ _ _ h₂
  exact ⟨us ++ vs, by simp, hvs.foldl hQ (hone a us hus)⟩

/-- A chain that groups to the right consumes what `Q` builds up item by item from the right. -/
theorem sound_rightChain (h : Sound item P) (hone : ∀ a us, P a us → Q a us)
    (hQ : ∀ a b us vs, P a us → Q b vs → Q (combine a b) (us ++ sep :: vs)) (n : Nat) :
    Sound (rightChain sep combine item n) Q := by
  intro ts e rest hr
  obtain ⟨⟨a, ts₁⟩, h₁, hr⟩ := bind_eq_ok.1 hr
  obtain ⟨⟨es, ts₂⟩, h₂, hr⟩ := bind_eq_ok.1 hr
  simp only [Except.ok.injEq, Prod.mk.injEq] at hr
  obtain ⟨rfl, rfl⟩ := hr
  obtain ⟨us, rfl, hus⟩ := h _ _ _ h₁
  obtain ⟨vs, rfl, hvs⟩ := sound_further h n _ _ _ h₂
  exact ⟨us ++ vs, by simp, hvs.groupRight hone hQ hus⟩

end

/-- The expected byte is what has been consumed. -/
theorem expect_eq_ok {b : Byte} {ts rest : List Token} (h : expect b ts = .ok ((), rest)) :
    ts = .byte b :: rest := by
  unfold expect at h
  split at h
  · split at h <;> simp_all
  · simp at h

/-- A term and more of them behind commas are arguments. -/
theorem Items.args {es : List Expr} {vs : List Token}
    (h : Items .comma (fun e => Derives (.term e)) es vs) {e : Expr} {us : List Token}
    (he : Derives (.term e) us) : Derives (.args (e :: es)) (us ++ vs) := by
  induction h generalizing e us with
  | nil => simpa using Derives.lastArg he
  | cons hb _ ih => exact .arg he (ih hb)

/-- Reading arguments consumes terms between commas and the closing parenthesis. -/
theorem sound_arguments {term : Reader Expr} (h : Sound term fun e => Derives (.term e)) (n : Nat) :
    Sound (arguments term n) fun es us => ∃ vs, us = vs ++ [.rparen] ∧ Derives (.args es) vs := by
  intro ts es rest hr
  obtain ⟨⟨e, ts₁⟩, h₁, hr₁⟩ := bind_eq_ok.1 hr
  obtain ⟨⟨es', ts₂⟩, h₂, hr₂⟩ := bind_eq_ok.1 hr₁
  obtain ⟨us, rfl, hus⟩ := h _ _ _ h₁
  obtain ⟨vs, rfl, hvs⟩ := sound_further h n _ _ _ h₂
  dsimp only at hr₂
  split at hr₂
  · simp only [Except.ok.injEq, Prod.mk.injEq] at hr₂
    obtain ⟨rfl, rfl⟩ := hr₂
    exact ⟨us ++ vs ++ [.rparen], by simp, _, rfl, hvs.args hus⟩
  · simp at hr₂

/-- Reading a primary consumes one, provided that reading a term consumes a term. -/
theorem sound_primary {term : Reader Expr} (h : Sound term fun e => Derives (.term e)) (n : Nat) :
    Sound (primary term n) fun e => Derives (.primary e) := by
  intro ts e rest hr
  unfold primary at hr
  split at hr
  · next x ts =>
    split at hr
    · next hx =>
      split at hr
      · obtain ⟨⟨args, ts₁⟩, h₁, hr⟩ := bind_eq_ok.1 hr
        simp only [Except.ok.injEq, Prod.mk.injEq] at hr
        obtain ⟨rfl, rfl⟩ := hr
        obtain ⟨us, rfl, vs, rfl, hvs⟩ := sound_arguments h n _ _ _ h₁
        exact ⟨_, rfl, .function hx hvs⟩
      · simp only [Except.ok.injEq, Prod.mk.injEq] at hr
        obtain ⟨rfl, rfl⟩ := hr
        exact ⟨[.ident x], rfl, .var hx⟩
    · simp [noTerm] at hr
  · obtain ⟨⟨e', ts₁⟩, h₁, hr⟩ := bind_eq_ok.1 hr
    obtain ⟨⟨_, ts₂⟩, h₂, hr⟩ := bind_eq_ok.1 hr
    simp only [Except.ok.injEq, Prod.mk.injEq] at hr
    obtain ⟨rfl, rfl⟩ := hr
    obtain ⟨us, rfl, hus⟩ := h _ _ _ h₁
    obtain rfl := expect_eq_ok h₂
    exact ⟨.lparen :: (us ++ [.rparen]), by simp, .group hus⟩
  · simp only [Except.ok.injEq, Prod.mk.injEq] at hr
    obtain ⟨rfl, rfl⟩ := hr
    exact ⟨[.zero], rfl, .zero⟩
  · simp [noTerm] at hr

/-- The primes after an increment belong to it. -/
theorem sound_primes {e e' : Expr} {ts rest us : List Token} (h : primes e ts = (e', rest))
    (he : Derives (.inc e) us) : ∃ vs, ts = vs ++ rest ∧ Derives (.inc e') (us ++ vs) := by
  fun_induction primes e ts generalizing us with
  | case1 e ts ih =>
    obtain ⟨vs, rfl, hvs⟩ := ih h (.successor he)
    exact ⟨.prime :: vs, rfl, by simpa using hvs⟩
  | case2 e ts =>
    obtain ⟨rfl, rfl⟩ := Prod.mk.inj h
    exact ⟨[], rfl, by simpa using he⟩

/-- Reading an increment consumes one. -/
theorem sound_increment {term : Reader Expr} (h : Sound term fun e => Derives (.term e)) (n : Nat) :
    Sound (increment term n) fun e => Derives (.inc e) := by
  intro ts e rest hr
  obtain ⟨⟨a, ts₁⟩, h₁, hr₁⟩ := bind_eq_ok.1 hr
  obtain ⟨us, rfl, hus⟩ := sound_primary h n _ _ _ h₁
  obtain ⟨vs, rfl, hvs⟩ := sound_primes (Except.ok.inj hr₁) (.primary hus)
  exact ⟨us ++ vs, by simp, hvs⟩

theorem sound_product {term : Reader Expr} (h : Sound term fun e => Derives (.term e)) (n : Nat) :
    Sound (leftChain .star .times (increment term n) n) fun e => Derives (.mul e) :=
  sound_leftChain (sound_increment h n) (fun _ _ => .inc) (fun _ _ _ _ => .times) n

/-- What is read as a term is derived as one. -/
theorem sound_term (n : Nat) : Sound (term n) fun e => Derives (.term e) := by
  induction n with
  | zero =>
    intro ts e rest hr
    cases hr
  | succ n ih =>
    have hmul := sound_product ih n
    have hadd : Sound (term (n + 1)) fun e => Derives (.add e) :=
      sound_leftChain hmul (fun _ _ => .mul) (fun _ _ _ _ => .plus) n
    intro ts e rest hr
    obtain ⟨us, rfl, hus⟩ := hadd _ _ _ hr
    exact ⟨us, rfl, .add hus⟩

/-- Reading an equation consumes a predicate of the grammar. -/
theorem sound_equation (n : Nat) : Sound (equation (term n)) fun e => Derives (.predicate e) := by
  intro ts e rest hr
  obtain ⟨⟨a, ts₁⟩, h₁, hr⟩ := bind_eq_ok.1 hr
  obtain ⟨⟨_, ts₂⟩, h₂, hr⟩ := bind_eq_ok.1 hr
  obtain ⟨⟨b, ts₃⟩, h₃, hr⟩ := bind_eq_ok.1 hr
  simp only [Except.ok.injEq, Prod.mk.injEq] at hr
  obtain ⟨rfl, rfl⟩ := hr
  obtain ⟨us, rfl, hus⟩ := sound_term n _ _ _ h₁
  obtain rfl := expect_eq_ok h₂
  obtain ⟨vs, rfl, hvs⟩ := sound_term n _ _ _ h₃
  exact ⟨us ++ .equals :: vs, by simp, .equals hus hvs⟩

/-- A quantifier sign is followed by a lower-case name and a body. -/
theorem sound_quantifier {kind : Kind} {unary : Reader Expr}
    (h : Sound unary fun e => Derives (.unary e)) :
    Sound (quantifier kind unary) fun e us => ∃ x b vs, e = .quantified kind x b ∧
      us = .ident x :: vs ∧ isLowerName x = true ∧ Derives (.unary b) vs := by
  intro ts e rest hr
  unfold quantifier at hr
  split at hr
  · next x ts =>
    split at hr
    · next hx =>
      obtain ⟨⟨b, ts₁⟩, h₁, hr⟩ := bind_eq_ok.1 hr
      simp only [Except.ok.injEq, Prod.mk.injEq] at hr
      obtain ⟨rfl, rfl⟩ := hr
      obtain ⟨us, rfl, hus⟩ := h _ _ _ h₁
      exact ⟨.ident x :: us, rfl, x, b, us, rfl, rfl, hx, hus⟩
    · simp at hr
  · simp at hr

section
variable {unary : Reader Expr} (h : Sound unary fun e => Derives (.unary e)) (n : Nat)
include h

theorem sound_conjunction :
    Sound (leftChain .ampersand .and unary n) fun e => Derives (.conj e) :=
  sound_leftChain h (fun _ _ => .unary) (fun _ _ _ _ => .and) n

theorem sound_disjunction : Sound (leftChain .bar .or (leftChain .ampersand .and unary n) n)
    fun e => Derives (.disj e) :=
  sound_leftChain (sound_conjunction h n) (fun _ _ => .conj) (fun _ _ _ _ => .or) n

/-- Reading a formula consumes one, provided that reading a `Unary` consumes one. -/
theorem sound_formulaOf : Sound (formulaOf unary n) fun e => Derives (.expr e) :=
  sound_rightChain (sound_disjunction h n) (fun _ _ => .disj) (fun _ _ _ _ => .implies) n

end

/-- Reading a `Unary` consumes one. -/
theorem sound_unary (n : Nat) : Sound (unary n) fun e => Derives (.unary e) := by
  induction n with
  | zero =>
    intro ts e rest hr
    cases hr
  | succ n ih =>
    have heq : ∀ ts e rest, equation (term (n + 1)) ts = .ok (e, rest) →
        ∃ us, ts = us ++ rest ∧ Derives (.unary e) us := by
      intro ts e rest hr
      obtain ⟨us, rfl, hus⟩ := sound_equation (n + 1) _ _ _ hr
      exact ⟨us, rfl, .predicate hus⟩
    intro ts e rest hr
    unfold unary at hr
    split at hr
    · next hn => cases hn
    · next hn =>
      cases hn
      obtain ⟨⟨a, ts₁⟩, h₁, hr₁⟩ := bind_eq_ok.1 hr
      simp only [Except.ok.injEq, Prod.mk.injEq] at hr₁
      obtain ⟨rfl, rfl⟩ := hr₁
      obtain ⟨us, rfl, hus⟩ := ih _ _ _ h₁
      exact ⟨.bang :: us, rfl, .negation hus⟩
    · next hn =>
      cases hn
      split at hr
      · exact heq _ _ _ hr
      · obtain ⟨⟨a, ts₁⟩, h₁, hr₁⟩ := bind_eq_ok.1 hr
        obtain ⟨⟨_, ts₂⟩, h₂, hr₂⟩ := bind_eq_ok.1 hr₁
        simp only [Except.ok.injEq, Prod.mk.injEq] at hr₂
        obtain ⟨rfl, rfl⟩ := hr₂
        obtain ⟨us, rfl, hus⟩ := sound_formulaOf ih n _ _ _ h₁
        obtain rfl := expect_eq_ok h₂
        exact ⟨.lparen :: (us ++ [.rparen]), by simp, .parens hus⟩
    · next hn =>
      cases hn
      obtain ⟨us, rfl, x, b, vs, rfl, rfl, hx, hvs⟩ := sound_quantifier ih _ _ _ hr
      exact ⟨.forAll :: .ident x :: vs, rfl, .quantified (.forAll hx hvs)⟩
    · next hn =>
      cases hn
      obtain ⟨us, rfl, x, b, vs, rfl, rfl, hx, hvs⟩ := sound_quantifier ih _ _ _ hr
      exact ⟨.exist :: .ident x :: vs, rfl, .quantified (.exist hx hvs)⟩
    · next p ts hn =>
      cases hn
      split at hr
      · next hp =>
        split at hr
        · obtain ⟨⟨args, ts₁⟩, h₁, hr₁⟩ := bind_eq_ok.1 hr
          simp only [Except.ok.injEq, Prod.mk.injEq] at hr₁
          obtain ⟨rfl, rfl⟩ := hr₁
          obtain ⟨us, rfl, vs, rfl, hvs⟩ := sound_arguments (sound_term n) n _ _ _ h₁
          exact ⟨_, rfl, .predicate (.applied hp hvs)⟩
        · simp only [Except.ok.injEq, Prod.mk.injEq] at hr
          obtain ⟨rfl, rfl⟩ := hr
          exact ⟨[.ident p], rfl, .predicate (.letter hp)⟩
      · exact heq _ _ _ hr
    · next hn _ _ _ _ _ =>
      cases hn
      exact heq _ _ _ hr

/-- What is read as a formula is derived as one. -/
theorem sound_formula (n : Nat) : Sound (formula n) fun e => Derives (.expr e) :=
  sound_formulaOf (sound_unary n) n

/-! ## Completeness -/

/-- How loosely a token continues what stands before it: a parenthesis continues a name, a prime an
increment, and so on up to the arrow. Other tokens continue nothing. -/
def rank : Token → Nat
  | .lparen => 0
  | .prime => 1
  | .star => 2
  | .plus => 3
  | .equals => 4
  | .ampersand => 5
  | .bar => 6
  | .arrow => 7
  | _ => 8

/-- The rest does not start with a token that continues a phrase of the given rank. -/
def Ends (k : Nat) (rest : List Token) : Prop := ∀ t ∈ rest.head?, k < rank t

theorem ends_nil (k : Nat) : Ends k [] := by simp [Ends]

/-- A token ends a phrase when it continues only phrases of higher rank. -/
theorem ends_cons {k : Nat} {t : Token} {ts : List Token} : Ends k (t :: ts) ↔ k < rank t := by
  simp [Ends]

theorem Ends.mono {k l : Nat} {rest : List Token} (h : Ends k rest) (hl : l ≤ k) : Ends l rest :=
  fun t ht => Nat.lt_of_le_of_lt hl (h t ht)

theorem Ends.head?_ne {k : Nat} {rest : List Token} (h : Ends k rest) {t : Token}
    (ht : rank t ≤ k) : rest.head? ≠ some t :=
  fun heq => absurd (h t heq) (by omega)

/-- No sign follows a term. -/
theorem Ends.not_isSign {rest : List Token} (h : Ends 4 rest) : ∀ t ∈ rest.head?, ¬ IsSign t := by
  rintro t ht (rfl | rfl | rfl | rfl) <;> exact absurd (h _ ht) (by decide)

section
variable {sep : Token} {combine : Expr → Expr → Expr} {item : Reader Expr}

/-- Without a separator there are no further items. -/
theorem further_stop {rest : List Token} (h : rest.head? ≠ some sep) (n : Nat) :
    further sep item n rest = .ok ([], rest) := by
  cases n with
  | zero => rfl
  | succ n =>
    cases rest with
    | nil => rfl
    | cons t ts =>
      rw [further_cons, if_neg]
      rintro rfl
      exact h rfl

/-- One item more, and then those behind it. -/
theorem further_step {ts ts' rest : List Token} {e : Expr} {es : List Expr} {n : Nat}
    (h₁ : item ts = .ok (e, ts')) (h₂ : further sep item n ts' = .ok (es, rest)) :
    further sep item (n + 1) (sep :: ts) = .ok (e :: es, rest) := by
  rw [further_cons, if_pos rfl]
  exact bind_eq_ok.2 ⟨_, h₁, bind_eq_ok.2 ⟨_, h₂, rfl⟩⟩

/-- A chain that groups to the left and has come as far as `e`. -/
def resume (sep : Token) (combine : Expr → Expr → Expr) (item : Reader Expr) (e : Expr) (n : Nat) :
    Reader Expr := fun ts => do
  let (es, ts) ← further sep item n ts
  .ok (es.foldl combine e, ts)

/-- A chain that groups to the left goes on from its first item. -/
theorem leftChain_eq_resume {ts rest : List Token} {e : Expr} (h : item ts = .ok (e, rest))
    (n : Nat) : leftChain sep combine item n ts = resume sep combine item e n rest := by
  show (item ts >>= _) = _
  rw [h]
  rfl

/-- One item more is combined with what has been read. -/
theorem resume_step {ts rest : List Token} {a b : Expr} (h : item ts = .ok (b, rest)) (n : Nat) :
    resume sep combine item a (n + 1) (sep :: ts) =
      resume sep combine item (combine a b) n rest := by
  show (further sep item (n + 1) (sep :: ts) >>= _) = further sep item n rest >>= _
  rw [further_cons, if_pos rfl, h]
  cases hf : further sep item n rest with
  | error f => simp [hf, bind, Except.bind]
  | ok r => simp [hf]

theorem resume_stop {rest : List Token} (h : rest.head? ≠ some sep) (e : Expr) (n : Nat) :
    resume sep combine item e n rest = .ok (e, rest) :=
  bind_eq_ok.2 ⟨_, further_stop h n, rfl⟩

/-- A chain that groups to the right reads one item more in front. -/
theorem rightChain_step {ts ts' rest : List Token} {a b : Expr} {n : Nat}
    (h₁ : item ts = .ok (a, sep :: ts')) (h₂ : rightChain sep combine item n ts' = .ok (b, rest)) :
    rightChain sep combine item (n + 1) ts = .ok (combine a b, rest) := by
  obtain ⟨⟨c, ts₁⟩, h₃, h₄⟩ := bind_eq_ok.1 h₂
  obtain ⟨⟨es, ts₂⟩, h₅, h₆⟩ := bind_eq_ok.1 h₄
  simp only [Except.ok.injEq, Prod.mk.injEq] at h₆
  obtain ⟨rfl, rfl⟩ := h₆
  exact bind_eq_ok.2 ⟨_, h₁, bind_eq_ok.2 ⟨_, further_step h₃ h₅, rfl⟩⟩

/-- A single item is a chain. -/
theorem rightChain_one {ts rest : List Token} {e : Expr} (h : item ts = .ok (e, rest))
    (hs : rest.head? ≠ some sep) (n : Nat) :
    rightChain sep combine item n ts = .ok (e, rest) :=
  bind_eq_ok.2 ⟨_, h, bind_eq_ok.2 ⟨_, further_stop hs n, rfl⟩⟩

/-- The last argument stands before the closing parenthesis. -/
theorem arguments_one {ts rest : List Token} {e : Expr} (h : item ts = .ok (e, .rparen :: rest))
    (n : Nat) : arguments item n ts = .ok ([e], rest) := by
  have hstop : (Token.rparen :: rest).head? ≠ some .comma := by simp
  exact bind_eq_ok.2 ⟨_, h, bind_eq_ok.2 ⟨_, further_stop hstop n, rfl⟩⟩

/-- An argument with a comma behind it, and then the others. -/
theorem arguments_step {ts ts' rest : List Token} {e : Expr} {es : List Expr} {n : Nat}
    (h₁ : item ts = .ok (e, .comma :: ts')) (h₂ : arguments item n ts' = .ok (es, rest)) :
    arguments item (n + 1) ts = .ok (e :: es, rest) := by
  obtain ⟨⟨c, ts₁⟩, h₃, h₄⟩ := bind_eq_ok.1 h₂
  obtain ⟨⟨es', ts₂⟩, h₅, h₆⟩ := bind_eq_ok.1 h₄
  dsimp only at h₆
  split at h₆
  · simp only [Except.ok.injEq, Prod.mk.injEq] at h₆
    obtain ⟨rfl, rfl⟩ := h₆
    exact bind_eq_ok.2 ⟨_, h₁, bind_eq_ok.2 ⟨_, further_step h₃ h₅, rfl⟩⟩
  · simp at h₆

end

/-- Without a prime there is no successor to apply. -/
theorem primes_stop {rest : List Token} (h : Ends 1 rest) (e : Expr) :
    primes e rest = (e, rest) := by
  unfold primes
  split
  · exact absurd (ends_cons.1 h) (by decide)
  · rfl

theorem isUpperName_of_isLowerName {x : Text} (h : isLowerName x = true) :
    isUpperName x = false :=
  Byte.isUpper_of_isLower h

/-- The first token of a term. -/
def StartsTerm (t : Token) : Prop :=
  t = .lparen ∨ t = .zero ∨ ∃ x, t = .ident x ∧ isLowerName x = true

/-- A phrase that is a term starts as one. -/
theorem Derives.startsTerm {p : Phrase} {ts : List Token} (h : Derives p ts) (hp : p.IsTerm) :
    ∃ t ts', ts = t :: ts' ∧ StartsTerm t := by
  induction h with
  | add _ ih | mul _ ih | inc _ ih | primary _ ih => exact ih trivial
  | plus _ _ ih _ | times _ _ ih _ | successor _ ih =>
    obtain ⟨t, ts', rfl, ht⟩ := ih trivial
    exact ⟨t, _, rfl, ht⟩
  | group => exact ⟨_, _, rfl, .inl rfl⟩
  | zero => exact ⟨_, _, rfl, .inr (.inl rfl)⟩
  | var hx | function hx => exact ⟨_, _, rfl, .inr (.inr ⟨_, rfl, hx⟩)⟩
  | _ => exact hp.elim

/-- At a parenthesis the reader looks ahead for what the parenthesis opens. -/
theorem unary_lparen (n : Nat) (ts : List Token) : unary (n + 1) (.lparen :: ts) =
    if opensTerm ts then equation (term (n + 1)) (.lparen :: ts)
    else formulaOf (unary n) n ts >>= fun r => expect 41 r.2 >>= fun s => .ok (r.1, s.2) := rfl

/-- At a name the reader takes a predicate, with arguments or without, or else an equation. -/
theorem unary_ident (n : Nat) (p : Text) (ts : List Token) : unary (n + 1) (.ident p :: ts) =
    if isUpperName p then
      match ts with
      | .lparen :: ts => do
        let (args, ts) ← arguments (term n) n ts
        .ok (.predicate p args, ts)
      | ts => .ok (.predicate p [], ts)
    else equation (term (n + 1)) (.ident p :: ts) := rfl

/-- At a name the reader takes a variable or a function with its arguments. -/
theorem primary_ident (r : Reader Expr) (n : Nat) (x : Text) (ts : List Token) :
    primary r n (.ident x :: ts) =
      if isLowerName x then
        match ts with
        | .lparen :: ts => do
          let (args, ts) ← arguments r n ts
          .ok (.function x args, ts)
        | ts => .ok (.var x, ts)
      else noTerm (.ident x :: ts) := rfl

/-- Where a term starts and is no formula in parentheses, an equation is read. -/
theorem unary_eq_equation {t : Token} (ht : StartsTerm t) {ts : List Token}
    (ho : t = .lparen → opensTerm ts = true) (n : Nat) :
    unary (n + 1) (t :: ts) = equation (term (n + 1)) (t :: ts) := by
  rcases ht with rfl | rfl | ⟨x, rfl, hx⟩
  · rw [unary_lparen, if_pos (ho rfl)]
  · rfl
  · rw [unary_ident, isUpperName_of_isLowerName hx]
    rfl

section
variable {n : Nat} {ts rest : List Token} {e : Expr} {es : List Expr}

theorem unary_bang (h : unary n ts = .ok (e, rest)) :
    unary (n + 1) (.bang :: ts) = .ok (.negation e, rest) :=
  bind_eq_ok.2 ⟨_, h, rfl⟩

/-- Parentheses that open no term enclose a formula. -/
theorem unary_parens (ho : opensTerm ts = false)
    (h : formulaOf (unary n) n ts = .ok (e, .rparen :: rest)) :
    unary (n + 1) (.lparen :: ts) = .ok (e, rest) := by
  rw [unary_lparen, ho]
  exact bind_eq_ok.2 ⟨_, h, rfl⟩

/-- Behind a quantifier stand its variable and its body. -/
theorem quantifier_eq_ok {k : Kind} {x : Text} (hx : isLowerName x = true)
    (h : unary n ts = .ok (e, rest)) :
    quantifier k (unary n) (.ident x :: ts) = .ok (.quantified k x e, rest) :=
  (if_pos hx).trans (bind_eq_ok.2 ⟨_, h, rfl⟩)

theorem unary_forAll {x : Text} (hx : isLowerName x = true) (h : unary n ts = .ok (e, rest)) :
    unary (n + 1) (.forAll :: .ident x :: ts) = .ok (.forAll x e, rest) :=
  quantifier_eq_ok hx h

theorem unary_exist {x : Text} (hx : isLowerName x = true) (h : unary n ts = .ok (e, rest)) :
    unary (n + 1) (.exist :: .ident x :: ts) = .ok (.exist x e, rest) :=
  quantifier_eq_ok hx h

/-- A capital name without a parenthesis behind it is a predicate without arguments. -/
theorem unary_letter {p : Text} (hp : isUpperName p = true) (hr : rest.head? ≠ some .lparen) :
    unary (n + 1) (.ident p :: rest) = .ok (.predicate p [], rest) := by
  rw [unary_ident, if_pos hp]
  split
  · exact absurd rfl hr
  · rfl

/-- A capital name with arguments is a predicate. -/
theorem unary_applied {p : Text} (hp : isUpperName p = true)
    (h : arguments (term n) n ts = .ok (es, rest)) :
    unary (n + 1) (.ident p :: .lparen :: ts) = .ok (.predicate p es, rest) := by
  rw [unary_ident, if_pos hp]
  exact bind_eq_ok.2 ⟨_, h, rfl⟩

theorem equation_eq_ok {us : List Token} {l r : Expr} (hl : term n ts = .ok (l, .equals :: us))
    (hr : term n us = .ok (r, rest)) : equation (term n) ts = .ok (.equals l r, rest) :=
  bind_eq_ok.2 ⟨_, hl, bind_eq_ok.2 ⟨_, rfl, bind_eq_ok.2 ⟨_, hr, rfl⟩⟩⟩

/-- A small name without a parenthesis behind it is a variable. -/
theorem primary_var {x : Text} (hx : isLowerName x = true) (hr : rest.head? ≠ some .lparen) :
    primary (term n) n (.ident x :: rest) = .ok (.var x, rest) := by
  rw [primary_ident, if_pos hx]
  split
  · exact absurd rfl hr
  · rfl

/-- A small name with arguments is a function. -/
theorem primary_function {f : Text} (hf : isLowerName f = true)
    (h : arguments (term n) n ts = .ok (es, rest)) :
    primary (term n) n (.ident f :: .lparen :: ts) = .ok (.function f es, rest) := by
  rw [primary_ident, if_pos hf]
  exact bind_eq_ok.2 ⟨_, h, rfl⟩

theorem primary_group (h : term n ts = .ok (e, .rparen :: rest)) :
    primary (term n) n (.lparen :: ts) = .ok (e, rest) :=
  bind_eq_ok.2 ⟨_, h, rfl⟩

end

/-- What it means that the readers accept a phrase. Reading a chain that groups to the left comes
to the end of the phrase after `k` items more and then goes on with the rest; the fuel that bounds
a loop is apart from the fuel of its items. -/
def Readable : Phrase → List Token → Prop
  | .primary e, ts => ∀ n rest, ts.length ≤ n + 1 → Ends 0 rest →
      primary (term n) n (ts ++ rest) = .ok (e, rest)
  | .inc e, ts => ∀ n rest, ts.length ≤ n + 1 → Ends 0 rest →
      increment (term n) n (ts ++ rest) = .ok (primes e rest)
  | .mul e, ts => ∃ k < ts.length, ∀ n m rest, ts.length ≤ n + 1 → Ends 1 rest →
      leftChain .star .times (increment (term n) n) (k + m) (ts ++ rest) =
        resume .star .times (increment (term n) n) e m rest
  | .add e, ts => ∃ k < ts.length, ∀ n m rest, ts.length ≤ n + 1 → Ends 2 rest →
      leftChain .plus .plus (leftChain .star .times (increment (term n) n) n) (k + m) (ts ++ rest) =
        resume .plus .plus (leftChain .star .times (increment (term n) n) n) e m rest
  | .term e, ts => ∀ n rest, ts.length ≤ n → Ends 3 rest → term n (ts ++ rest) = .ok (e, rest)
  | .args es, ts => ∀ n m rest, ts.length ≤ n → ts.length ≤ m →
      arguments (term n) m (ts ++ .rparen :: rest) = .ok (es, rest)
  | .unary e, ts | .quantified e, ts | .predicate e, ts => ∀ n rest, ts.length ≤ n → Ends 4 rest →
      unary n (ts ++ rest) = .ok (e, rest)
  | .conj e, ts => ∃ k < ts.length, ∀ n m rest, ts.length ≤ n → Ends 4 rest →
      leftChain .ampersand .and (unary n) (k + m) (ts ++ rest) =
        resume .ampersand .and (unary n) e m rest
  | .disj e, ts => ∃ k < ts.length, ∀ n m rest, ts.length ≤ n → Ends 5 rest →
      leftChain .bar .or (leftChain .ampersand .and (unary n) n) (k + m) (ts ++ rest) =
        resume .bar .or (leftChain .ampersand .and (unary n) n) e m rest
  | .expr e, ts => ∀ n m rest, ts.length ≤ n → ts.length ≤ m → Ends 7 rest →
      rightChain .arrow .implies (leftChain .bar .or (leftChain .ampersand .and (unary n) n) n) m
        (ts ++ rest) = .ok (e, rest)

/-- The readers accept a chain that groups to the left, where `n` is the fuel of the items and there
are at most `slack` tokens more. -/
def Chains (sep : Token) (combine : Expr → Expr → Expr) (item : Nat → Reader Expr) (slack : Nat)
    (e : Expr) (ts : List Token) : Prop :=
  ∃ k < ts.length, ∀ n m rest, ts.length ≤ n + slack → Ends (rank sep - 1) rest →
    leftChain sep combine (item n) (k + m) (ts ++ rest) = resume sep combine (item n) e m rest

section
variable {e : Expr} {ts : List Token}

theorem readable_conj : Readable (.conj e) ts ↔ Chains .ampersand .and unary 0 e ts := Iff.rfl

theorem readable_disj : Readable (.disj e) ts ↔
    Chains .bar .or (fun n => leftChain .ampersand .and (unary n) n) 0 e ts := Iff.rfl

theorem readable_mul : Readable (.mul e) ts ↔
    Chains .star .times (fun n => increment (term n) n) 1 e ts := Iff.rfl

theorem readable_add : Readable (.add e) ts ↔
    Chains .plus .plus (fun n => leftChain .star .times (increment (term n) n) n) 1 e ts := Iff.rfl

end

section
variable {sep : Token} {combine : Expr → Expr → Expr} {item : Nat → Reader Expr} {slack : Nat}
variable {ts us : List Token} {a b e : Expr}

/-- A chain of one item. -/
theorem chains_one (hpos : 0 < ts.length) (h : ∀ n rest, ts.length ≤ n + slack →
    Ends (rank sep - 1) rest → item n (ts ++ rest) = .ok (e, rest)) :
    Chains sep combine item slack e ts := by
  refine ⟨0, hpos, fun n m rest hn hr => ?_⟩
  rw [Nat.zero_add]
  exact leftChain_eq_resume (h n rest hn hr) m

/-- A chain that goes on with one item more. -/
theorem Chains.append (ha : Chains sep combine item slack a ts) (hsep : 0 < rank sep)
    (hb : ∀ n rest, us.length ≤ n + slack → Ends (rank sep - 1) rest →
      item n (us ++ rest) = .ok (b, rest)) :
    Chains sep combine item slack (combine a b) (ts ++ sep :: us) := by
  obtain ⟨k, hk, h⟩ := ha
  refine ⟨k + 1, by simp; omega, fun n m rest hn hr => ?_⟩
  simp only [List.length_append, List.length_cons] at hn
  rw [List.append_assoc, List.cons_append, Nat.add_assoc,
    h n _ _ (by omega) (ends_cons.2 (by omega)), Nat.add_comm 1 m,
    resume_step (hb n rest (by omega) hr)]

/-- A chain stops where the phrase ends. -/
theorem Chains.read (h : Chains sep combine item slack e ts) (hslack : slack ≤ 1) (n : Nat)
    (rest : List Token) (hn : ts.length ≤ n + slack) (hr : Ends (rank sep) rest) :
    leftChain sep combine (item n) n (ts ++ rest) = .ok (e, rest) := by
  obtain ⟨k, hk, h⟩ := h
  have hkn : k ≤ n := by omega
  rw [← Nat.add_sub_cancel' hkn, h _ _ _ (by omega) (hr.mono (Nat.sub_le ..)),
    resume_stop (hr.head?_ne le_rfl)]

end

/-- An increment with no prime behind it is read to its end. -/
theorem Readable.increment {e : Expr} {ts : List Token} (h : Readable (.inc e) ts) (n : Nat)
    (rest : List Token) (hn : ts.length ≤ n + 1) (hr : Ends 1 rest) :
    increment (term n) n (ts ++ rest) = .ok (e, rest) := by
  rw [h n rest hn (hr.mono (by decide)), primes_stop hr]

/-- The readers accept every phrase. -/
theorem Derives.readable {p : Phrase} {ts : List Token} (h : Derives p ts) : Readable p ts := by
  induction h with
  | disj _ ih =>
    intro n m rest hn hm hr
    have hread := (readable_disj.1 ih).read (by decide) n rest hn (hr.mono (by decide))
    exact rightChain_one hread (hr.head?_ne (by decide)) m
  | @implies a b ts us _ h₂ ih₁ ih₂ =>
    intro n m rest hn hm hr
    have hpos := h₂.length_pos
    simp only [List.length_append, List.length_cons] at hn hm
    have hread := (readable_disj.1 ih₁).read (by decide) n (.arrow :: (us ++ rest)) (by omega)
      (ends_cons.2 (by decide))
    obtain ⟨m, rfl⟩ : ∃ m', m = m' + 1 := ⟨m - 1, by omega⟩
    rw [List.append_assoc, List.cons_append]
    exact rightChain_step hread (ih₂ n m rest (by omega) (by omega) hr)
  | conj h₁ ih =>
    exact readable_disj.2 (chains_one h₁.length_pos ((readable_conj.1 ih).read (by decide)))
  | or _ _ ih₁ ih₂ =>
    exact readable_disj.2
      ((readable_disj.1 ih₁).append (by decide) ((readable_conj.1 ih₂).read (by decide)))
  | unary h₁ ih => exact readable_conj.2 (chains_one h₁.length_pos ih)
  | and _ _ ih₁ ih₂ => exact readable_conj.2 ((readable_conj.1 ih₁).append (by decide) ih₂)
  | @negation e ts _ ih =>
    intro n rest hn hr
    obtain ⟨n, rfl⟩ : ∃ n', n = n' + 1 := ⟨n - 1, by simp at hn; omega⟩
    exact unary_bang (ih n rest (by simpa using hn) hr)
  | @parens e ts h₁ ih =>
    intro n rest hn hr
    simp only [List.length_cons, List.length_append, List.length_nil] at hn
    obtain ⟨n, rfl⟩ : ∃ n', n = n' + 1 := ⟨n - 1, by omega⟩
    rw [List.cons_append, List.append_assoc, List.singleton_append]
    exact unary_parens (h₁.not_opensTerm hr.not_isSign)
      (ih n n (.rparen :: rest) (by omega) (by omega) (ends_cons.2 (by decide)))
  | quantified _ ih | predicate _ ih => exact ih
  | @forAll x e ts hx _ ih =>
    intro n rest hn hr
    simp only [List.length_cons] at hn
    obtain ⟨n, rfl⟩ : ∃ n', n = n' + 1 := ⟨n - 1, by omega⟩
    exact unary_forAll hx (ih n rest (by omega) hr)
  | @exist x e ts hx _ ih =>
    intro n rest hn hr
    simp only [List.length_cons] at hn
    obtain ⟨n, rfl⟩ : ∃ n', n = n' + 1 := ⟨n - 1, by omega⟩
    exact unary_exist hx (ih n rest (by omega) hr)
  | @letter p hp =>
    intro n rest hn hr
    obtain ⟨n, rfl⟩ : ∃ n', n = n' + 1 := ⟨n - 1, by simp at hn; omega⟩
    exact unary_letter hp (hr.head?_ne (by decide))
  | @applied p es ts hp _ ih =>
    intro n rest hn hr
    simp only [List.length_cons, List.length_append, List.length_nil] at hn
    obtain ⟨n, rfl⟩ : ∃ n', n = n' + 1 := ⟨n - 1, by omega⟩
    rw [List.cons_append, List.cons_append, List.append_assoc, List.singleton_append]
    exact unary_applied hp (ih n n rest (by omega) (by omega))
  | @equals a b ts us h₁ _ ih₁ ih₂ =>
    intro n rest hn hr
    simp only [List.length_cons, List.length_append] at hn
    obtain ⟨n, rfl⟩ : ∃ n', n = n' + 1 := ⟨n - 1, by omega⟩
    have hleft := ih₁ (n + 1) (.equals :: (us ++ rest)) (by omega) (ends_cons.2 (by decide))
    have hright := ih₂ (n + 1) rest (by omega) (hr.mono (by decide))
    obtain ⟨t, ts', rfl, ht⟩ := h₁.startsTerm trivial
    rw [List.append_assoc, List.cons_append, List.cons_append,
      unary_eq_equation ht fun hl => h₁.opensTerm trivial (.inl rfl) (by rw [hl]) _]
    exact equation_eq_ok hleft hright
  | add h₁ ih =>
    intro n rest hn hr
    have hpos := h₁.length_pos
    obtain ⟨n, rfl⟩ : ∃ n', n = n' + 1 := ⟨n - 1, by omega⟩
    exact (readable_add.1 ih).read le_rfl n rest hn hr
  | mul h₁ ih => exact readable_add.2 (chains_one h₁.length_pos ((readable_mul.1 ih).read le_rfl))
  | plus _ _ ih₁ ih₂ =>
    exact readable_add.2
      ((readable_add.1 ih₁).append (by decide) ((readable_mul.1 ih₂).read le_rfl))
  | inc h₁ ih => exact readable_mul.2 (chains_one h₁.length_pos ih.increment)
  | times _ _ ih₁ ih₂ =>
    exact readable_mul.2 ((readable_mul.1 ih₁).append (by decide) ih₂.increment)
  | primary _ ih =>
    intro n rest hn hr
    exact bind_eq_ok.2 ⟨_, ih n rest hn hr, rfl⟩
  | @successor e ts _ ih =>
    intro n rest hn hr
    rw [List.append_assoc, List.singleton_append,
      ih n _ (by simp at hn; omega) (ends_cons.2 (by decide))]
    rfl
  | @var x hx =>
    intro n rest hn hr
    exact primary_var hx (hr.head?_ne (by decide))
  | @function f es ts hf _ ih =>
    intro n rest hn hr
    simp only [List.length_cons, List.length_append, List.length_nil] at hn
    rw [List.cons_append, List.cons_append, List.append_assoc, List.singleton_append]
    exact primary_function hf (ih n n rest (by omega) (by omega))
  | @group e ts _ ih =>
    intro n rest hn hr
    simp only [List.length_cons, List.length_append, List.length_nil] at hn
    rw [List.cons_append, List.append_assoc, List.singleton_append]
    exact primary_group (ih n (.rparen :: rest) (by omega) (ends_cons.2 (by decide)))
  | zero => intro n rest hn hr; rfl
  | lastArg _ ih =>
    intro n m rest hn hm
    exact arguments_one (ih n _ hn (ends_cons.2 (by decide))) m
  | @arg e es ts us h₁ h₂ ih₁ ih₂ =>
    intro n m rest hn hm
    have hpos := h₁.length_pos
    simp only [List.length_append, List.length_cons] at hn hm
    obtain ⟨m, rfl⟩ : ∃ m', m = m' + 1 := ⟨m - 1, by omega⟩
    rw [List.append_assoc, List.cons_append]
    exact arguments_step (ih₁ n _ (by omega) (ends_cons.2 (by decide)))
      (ih₂ n m rest (by omega) (by omega))

/-! ## Whole texts -/

/-- The whole text is read when the reader consumes all of its tokens. -/
theorem whole_eq_ok {reader : Nat → Reader Expr} {input : Text} {e : Expr} :
    whole reader input = .ok e ↔
      reader (Token.scan input).length (Token.scan input) = .ok (e, []) := by
  unfold whole
  dsimp only
  split
  · next heq => simp [heq]
  · next heq => simp [heq]
  · next heq => simp [heq]

/-- The tokens of a text can be read as a formula exactly when they are derived as one. -/
theorem parseFormula_eq_ok_iff {text : Text} {e : Expr} :
    text.parseFormula = .ok e ↔ Derives (.expr e) (Token.scan text.stripSpace) := by
  rw [Text.parseFormula, whole_eq_ok]
  constructor
  · intro h
    obtain ⟨us, hus, h⟩ := sound_formula _ _ _ _ h
    rw [List.append_nil] at hus
    exact hus ▸ h
  · intro h
    have := h.readable _ _ [] (le_refl _) (le_refl _) (ends_nil 7)
    rwa [List.append_nil] at this

/-- The tokens of a text can be read as a term exactly when they are derived as one. -/
theorem parseTerm_eq_ok_iff {text : Text} {e : Expr} :
    text.parseTerm = .ok e ↔ Derives (.term e) (Token.scan text.stripSpace) := by
  rw [Text.parseTerm, whole_eq_ok]
  constructor
  · intro h
    obtain ⟨us, hus, h⟩ := sound_term _ _ _ _ h
    rw [List.append_nil] at hus
    exact hus ▸ h
  · intro h
    have := h.readable _ [] (le_refl _) (ends_nil 3)
    rwa [List.append_nil] at this

/-- Reading accepts exactly the grammar. A text without white space has one list of tokens; it is
read as a formula, with a given tree, exactly when these tokens are derived from `Expr` and denote
that tree, and no other derivation from `Expr` denotes another tree. The same holds of terms. -/
theorem parse_iff_derives (text : Text) :
    ∃ ts, (∀ us, Token.Lexes text.stripSpace us ↔ us = ts) ∧
      (∀ e, text.parseFormula = .ok e ↔ Derives (.expr e) ts) ∧
      (∀ e e', Derives (.expr e) ts → Derives (.expr e') ts → e = e') ∧
      (∀ e, text.parseTerm = .ok e ↔ Derives (.term e) ts) ∧
      (∀ e e', Derives (.term e) ts → Derives (.term e') ts → e = e') := by
  refine ⟨Token.scan text.stripSpace, fun us => Token.lexes_iff_scan,
    fun e => parseFormula_eq_ok_iff, fun e e' h h' => ?_, fun e => parseTerm_eq_ok_iff,
    fun e e' h h' => ?_⟩
  · rw [← parseFormula_eq_ok_iff] at h h'
    exact Except.ok.inj (h.symm.trans h')
  · rw [← parseTerm_eq_ok_iff] at h h'
    exact Except.ok.inj (h.symm.trans h')

/-- The first parenthesis opens a term here and the last one a formula. -/
theorem parse_iff_derives_parens :
    ∃ ts, Token.Lexes (Text.stripSpace "((a+b))' = c | (a=b)") ts ∧
      ∀ e, Derives (.expr e) ts ↔ e = .or
        (.equals (.successor (.plus (.var "a") (.var "b"))) (.var "c"))
        (.equals (.var "a") (.var "b")) := by
  have hparse : Text.parseFormula "((a+b))' = c | (a=b)" = .ok (.or
      (.equals (.successor (.plus (.var "a") (.var "b"))) (.var "c"))
      (.equals (.var "a") (.var "b"))) := by cbv
  obtain ⟨ts, hts, hf, huniq, -⟩ := parse_iff_derives "((a+b))' = c | (a=b)"
  refine ⟨ts, (hts ts).2 rfl, fun e => ⟨fun he => huniq _ _ he ((hf _).1 hparse), ?_⟩⟩
  rintro rfl
  exact (hf _).1 hparse

end Sequitur.Grammar
