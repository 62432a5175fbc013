import Mathlib
import Sequitur.Proofs.ViablePrefixes

/-!
# Reading with a cursor

The readers of `Parser` work on a list of tokens. Here the same is read byte by byte, with a cursor
that is a position in the text. The cursor goes on without a check, and a byte or a part of the text
is asked for by position, so that in principle it could be asked for outside of the text
(`Stop.outOfRange`), and loops and recursions could go on for ever (`Stop.outOfSteps`). Neither
happens: reading with a cursor gives what `Text.parseFormula` and `Text.parseTerm` give, whenever
the limit to loops and recursions exceeds the length of the text (`Cursor.parseFormula_eq`,
`Cursor.parseTerm_eq`).

What ties the cursor to the tokens is `Ahead`: at each position where the cursor stops, the text
ahead has the tokens that the reader has left. A cursor and a reader that start like this end like
this, with the same result or with errors at the same place (`Agrees`, `Tracks`).
-/

namespace Sequitur

open Grammar Token

/-- Why reading with a cursor ends early. -/
inductive Stop where
  /-- The text is wrong at a position. -/
  | wrong (input : Text) (position : Nat) (message : Text)
  /-- A byte or a part of the text was asked for that is not there. -/
  | outOfRange
  /-- A loop or a recursion did not end within the limit. -/
  | outOfSteps
  deriving DecidableEq, Repr

/-- A syntax error, as it is met with a cursor. -/
def Stop.ofSyntaxError (e : SyntaxError) : Stop := .wrong e.input e.position e.reason.message

namespace Cursor

/-- Reads a value from a position on, and says where it ends. -/
abbrev Move (α : Type) := Nat → Except Stop (α × Nat)

/-! ## Access to the text -/

section
variable (input : Text)

/-- The byte at a position. -/
def byteAt (i : Nat) : Except Stop Byte :=
  match input[i]? with
  | some b => .ok b
  | none => .error .outOfRange

/-- The part of the text between two positions. -/
def slice (start stop : Nat) : Except Stop Text :=
  if start ≤ stop ∧ stop ≤ input.length then .ok ((input.take stop).drop start)
  else .error .outOfRange

/-- The byte at the cursor, and zero at the end. -/
def peek (pos : Nat) : Except Stop Byte :=
  if input.length ≤ pos then .ok 0 else byteAt input pos

/-- Whether an arrow is at the cursor. -/
def peekArrow (pos : Nat) : Except Stop Bool := do
  let ahead ← slice input pos input.length
  .ok ((Text.ofString "->").isPrefixOf ahead)

/-- The text is wrong at the cursor. -/
def fail {α : Type} (pos : Nat) (reason : Reason) : Except Stop α :=
  .error (.wrong input pos reason.message)

/-- Moves past the byte `b`. -/
def expect (b : Byte) : Move Unit := fun pos => do
  let c ← peek input pos
  if c = b then .ok ((), pos + 1)
  else if input.length ≤ pos then fail input pos (.expectedByte none b)
  else fail input pos (.expectedByte (some c) b)

/-- The position after the digits at the cursor. -/
def digitsEnd : Nat → Nat → Except Stop Nat
  | 0, _ => .error .outOfSteps
  | n + 1, pos => do
    let c ← peek input pos
    if c.isDigit then digitsEnd n (pos + 1) else .ok pos

/-- With `depth` parentheses open, whether the one opened first is closed before one of the signs
`=`, `+`, `*` and `'`. -/
def closesBeforeSign : Nat → Nat → Nat → Except Stop Bool
  | 0, _, _ => .error .outOfSteps
  | n + 1, depth, i =>
    if i < input.length then do
      let c ← byteAt input i
      if c = 40 then closesBeforeSign n (depth + 1) (i + 1)
      else if c = 41 then
        if depth = 1 then
          if input.length ≤ i + 1 then .ok false
          else do
            let d ← byteAt input (i + 1)
            .ok (d = 61 || d = 43 || d = 42 || d = 39)
        else closesBeforeSign n (depth - 1) (i + 1)
      else closesBeforeSign n depth (i + 1)
    else .ok false

/-! ## Loops -/

/-- Goes on with `sign item` as long as the sign is at the cursor, and combines from the left. -/
def chain (sign : Byte) (combine : Expr → Expr → Expr) (item : Move Expr) : Nat → Expr → Move Expr
  | 0, _, _ => .error .outOfSteps
  | n + 1, left, pos => do
    let c ← peek input pos
    if c = sign then do
      let (right, pos) ← item (pos + 1)
      chain sign combine item n (combine left right) pos
    else .ok (left, pos)

/-- Reads items as long as there is a separator of `width` bytes between them, and combines them
from the right. -/
def sequence {γ : Type} (separator : Nat → Except Stop Bool) (width : Nat) (one : Expr → γ)
    (more : Expr → γ → γ) (item : Move Expr) : Nat → Move γ
  | 0, _ => .error .outOfSteps
  | n + 1, pos => do
    let (e, pos) ← item pos
    let goesOn ← separator pos
    if goesOn then do
      let (es, pos) ← sequence separator width one more item n (pos + width)
      .ok (more e es, pos)
    else .ok (one e, pos)

/-- Applies a successor for each prime at the cursor. -/
def primes : Nat → Expr → Move Expr
  | 0, _, _ => .error .outOfSteps
  | n + 1, e, pos => do
    let c ← peek input pos
    if c = 39 then primes n (.successor e) (pos + 1) else .ok (e, pos)

end

/-! ## Terms and formulas -/

section
variable (input : Text) (limit : Nat)

/-- Moves past a letter and the digits after it. -/
def scanIdent : Move Text := fun pos => do
  let stop ← digitsEnd input limit (pos + 1)
  let name ← slice input pos stop
  .ok (name, stop)

/-- Whether the parenthesis at the cursor opens a term. -/
def opensTerm (pos : Nat) : Except Stop Bool := closesBeforeSign input limit 0 pos

/-- Reads items with a sign between them. -/
def operands (sign : Byte) (combine : Expr → Expr → Expr) (item : Move Expr) : Move Expr :=
  fun pos => do
    let (left, pos) ← item pos
    chain input sign combine item limit left pos

/-- Whether a comma is at the cursor. -/
def peekComma (pos : Nat) : Except Stop Bool := do
  let c ← peek input pos
  .ok (c = 44)

/-- Reads arguments in parentheses. -/
def arguments (term : Move Expr) : Move (List Expr) := fun pos => do
  let ((), pos) ← expect input 40 pos
  let (es, pos) ← sequence (peekComma input) 1 (fun e => [e]) .cons term limit pos
  let c ← peek input pos
  if c = 41 then .ok (es, pos + 1) else fail input pos .unterminatedArguments

/-- Reads an identifier and, where a parenthesis follows it, its arguments. -/
def named (alone : Text → Expr) (applied : Text → List Expr → Expr) (term : Move Expr) :
    Move Expr := fun pos => do
  let (name, pos) ← scanIdent input limit pos
  let c ← peek input pos
  if c = 40 then do
    let (es, pos) ← arguments input limit term pos
    .ok (applied name es, pos)
  else .ok (alone name, pos)

/-- Reads a variable, a function with its arguments, a term in parentheses, or zero. -/
def primary (term : Move Expr) : Move Expr := fun pos => do
  let c ← peek input pos
  if c.isLower then named input limit .var .function term pos
  else if c = 40 then do
    let (e, pos) ← term (pos + 1)
    let ((), pos) ← expect input 41 pos
    .ok (e, pos)
  else if c = 48 then .ok (.zero, pos + 1)
  else if c = 0 then fail input pos (.expectedTerm none)
  else fail input pos (.expectedTerm (some c))

/-- Reads a primary and the primes after it. -/
def increment (term : Move Expr) : Move Expr := fun pos => do
  let (e, pos) ← primary input limit term pos
  primes input limit e pos

/-- Reads a term. -/
def term : Nat → Move Expr
  | 0 => fun _ => .error .outOfSteps
  | n + 1 => operands input limit 43 .plus
      (operands input limit 42 .times (increment input limit (term n)))

/-- Reads two terms with `=` between them. -/
def equation : Move Expr := fun pos => do
  let (l, pos) ← term input limit limit pos
  let ((), pos) ← expect input 61 pos
  let (r, pos) ← term input limit limit pos
  .ok (.equals l r, pos)

/-- Reads a predicate or an equation. -/
def predicate : Move Expr := fun pos => do
  let c ← peek input pos
  if c.isUpper then
    named input limit (.predicate · []) .predicate (term input limit limit) pos
  else equation input limit pos

/-- Reads a quantifier, its variable and its body. -/
def quantified (unary : Move Expr) : Move Expr := fun pos => do
  let c ← peek input pos
  let kind := if c = 63 then Kind.existential else Kind.universal
  let c ← peek input (pos + 1)
  if c.isLower then do
    let (name, pos) ← scanIdent input limit (pos + 1)
    let (body, pos) ← unary pos
    .ok (.quantified kind name body, pos)
  else fail input (pos + 1) .expectedVariable

/-- Reads a formula, given how to read a `Unary`. -/
def formulaOf (unary : Move Expr) : Move Expr :=
  sequence (peekArrow input) 2 id .implies
    (operands input limit 124 .or (operands input limit 38 .and unary)) limit

/-- Reads a negation, a formula in parentheses, a quantified formula, a predicate or an
equation. -/
def unary : Nat → Move Expr
  | 0, _ => .error .outOfSteps
  | n + 1, pos => do
    let c ← peek input pos
    if c = 33 then do
      let (e, pos) ← unary n (pos + 1)
      .ok (.negation e, pos)
    else if c = 40 then do
      let isTerm ← opensTerm input limit pos
      if isTerm then predicate input limit pos
      else do
        let (e, pos) ← formulaOf input limit (unary n) (pos + 1)
        let ((), pos) ← expect input 41 pos
        .ok (e, pos)
    else if c = 64 ∨ c = 63 then quantified input limit (unary n) pos
    else predicate input limit pos

/-- Reads a formula. -/
def formula : Move Expr := formulaOf input limit (unary input limit limit)

/-- Reads the text to its end. -/
def whole (move : Move Expr) : Except Stop Expr := do
  let (e, pos) ← move 0
  if pos < input.length then do
    let c ← peek input pos
    if c = 41 then fail input pos .unbalanced else fail input pos (.unexpected c)
  else .ok e

end

/-- Reads a formula with a cursor. White space is removed first. -/
def parseFormula (limit : Nat) (text : Text) : Except Stop Expr :=
  whole text.stripSpace (formula text.stripSpace limit)

/-- Reads a term with a cursor. White space is removed first. -/
def parseTerm (limit : Nat) (text : Text) : Except Stop Expr :=
  whole text.stripSpace (term text.stripSpace limit limit)

/-! ## The tokens ahead -/

/-- The tokens of the text from a position on. -/
structure Ahead (input : Text) (pos : Nat) (ts : List Token) : Prop where
  le : pos ≤ input.length
  lexes : Lexes (input.drop pos) ts

/-- The first byte of the tokens ahead, and zero at the end. -/
def firstByte : List Token → Byte
  | [] => 0
  | t :: _ => t.first

theorem firstByte_byte (b : Byte) (ts : List Token) : firstByte (.byte b :: ts) = b := rfl

theorem isLower_firstByte (x : Text) (ts : List Token) :
    (firstByte (.ident x :: ts)).isLower = Parser.isLowerName x := rfl

theorem isUpper_firstByte (x : Text) (ts : List Token) :
    (firstByte (.ident x :: ts)).isUpper = Parser.isUpperName x := rfl

theorem firstByte_ident (x : Text) (ts : List Token) : firstByte (.ident x :: ts) = x.headD 0 := rfl

section
variable {input : Text} {pos : Nat} {ts : List Token}

/-- At the start all tokens of the text are ahead. -/
theorem ahead_zero (input : Text) : Ahead input 0 (scan input) :=
  ⟨Nat.zero_le _, lexes_iff_scan.2 rfl⟩

/-- The first token is the front of the text. -/
theorem exists_of_lexes_cons {text : Text} {t : Token} (h : Lexes text (t :: ts)) :
    ∃ rest, text = t.text ++ rest ∧ Lexes rest ts ∧ t.text.head? = some t.first := by
  cases h with
  | ident _ _ _ hrest => exact ⟨_, rfl, hrest, rfl⟩
  | arrow hrest => exact ⟨_, rfl, hrest, rfl⟩
  | byte _ _ hrest => exact ⟨_, rfl, hrest, rfl⟩

/-- The position of the cursor is what the tokens ahead leave of the text. -/
theorem Ahead.position (h : Ahead input pos ts) : input.length - (spell ts).length = pos := by
  have hle := h.le
  rw [h.lexes.spell_eq, List.length_drop]
  omega

/-- Past a token the cursor has the other tokens ahead. -/
theorem Ahead.advance {t : Token} (h : Ahead input pos (t :: ts)) :
    Ahead input (pos + t.text.length) ts := by
  obtain ⟨rest, htext, hrest, -⟩ := exists_of_lexes_cons h.lexes
  have hlength := congrArg List.length htext
  have hle := h.le
  rw [List.length_drop, List.length_append] at hlength
  refine ⟨by omega, ?_⟩
  rw [← List.drop_drop, htext, List.drop_left]
  exact hrest

theorem Ahead.byte {b : Byte} (h : Ahead input pos (.byte b :: ts)) : Ahead input (pos + 1) ts :=
  h.advance

/-- There are at most as many tokens as bytes. -/
theorem Ahead.length_le (h : Ahead input pos ts) : pos + ts.length ≤ input.length := by
  induction ts generalizing pos with
  | nil => exact h.le
  | cons t ts ih =>
    obtain ⟨rest, -, -, hfirst⟩ := exists_of_lexes_cons h.lexes
    have hpos : 0 < t.text.length := by
      cases htext : t.text with
      | nil => rw [htext] at hfirst; cases hfirst
      | cons b bs => exact Nat.succ_pos _
    have hrest := ih h.advance
    rw [List.length_cons]
    omega

/-- A byte that is ahead is found, and the position is in range. -/
theorem byteAt_eq_ok {b : Byte} {rest : Text} (h : input.drop pos = b :: rest) :
    byteAt input pos = .ok b ∧ pos < input.length := by
  have hget : input[pos]? = some b := by
    rw [← List.head?_drop, h]
    rfl
  refine ⟨?_, (List.getElem?_eq_some_iff.1 hget).1⟩
  rw [byteAt, hget]

/-- Looking at the cursor never fails. -/
theorem peek_eq (input : Text) (pos : Nat) : peek input pos = .ok ((input.drop pos).headD 0) := by
  unfold peek
  split_ifs with hend
  · rw [List.drop_eq_nil_of_le hend]
    rfl
  · obtain ⟨b, rest, hdrop⟩ : ∃ b rest, input.drop pos = b :: rest := by
      refine List.exists_cons_of_length_pos ?_
      rw [List.length_drop]
      omega
    rw [(byteAt_eq_ok hdrop).1, hdrop, List.headD_cons]

/-- What is at the cursor is the first byte of the tokens ahead. -/
theorem Ahead.peek_eq (h : Ahead input pos ts) : peek input pos = .ok (firstByte ts) := by
  rw [Cursor.peek_eq]
  have hlexes := h.lexes
  generalize input.drop pos = text at hlexes
  cases hlexes with
  | nil | ident | arrow | byte => rfl

/-- A part of the text that is ahead is cut out. -/
theorem slice_eq_ok {x rest : Text} (h : input.drop pos = x ++ rest) (hle : pos ≤ input.length) :
    slice input pos (pos + x.length) = .ok x := by
  have hlength := congrArg List.length h
  rw [List.length_drop, List.length_append] at hlength
  rw [slice, if_pos ⟨Nat.le_add_right _ _, by omega⟩, List.drop_take, h, Nat.add_sub_cancel_left,
    List.take_left]

/-- Looking for an arrow finds it exactly where it is the next token. -/
theorem Ahead.peekArrow_eq (h : Ahead input pos ts) :
    peekArrow input pos = .ok (decide (ts.head? = some .arrow)) := by
  have hslice : slice input pos input.length = .ok (input.drop pos) := by
    have hdrop : input.drop pos = input.drop pos ++ [] := (List.append_nil _).symm
    have hrest := slice_eq_ok hdrop h.le
    rwa [List.length_drop, Nat.add_sub_cancel' h.le] at hrest
  rw [peekArrow, hslice, ok_bind]
  congr 1
  have hlexes := h.lexes
  generalize input.drop pos = text at hlexes
  have harrow : Text.ofString "->" = [45, 62] := rfl
  rw [harrow]
  cases hlexes with
  | nil => rfl
  | @ident b digits rest ts hb =>
    have hne : (45 : Byte) ≠ b := by
      rintro rfl
      exact absurd hb (by decide)
    simp [List.isPrefixOf, hne]
  | arrow => simp [List.isPrefixOf]
  | @byte b rest ts hb hhyphen =>
    cases rest with
    | nil => simp [List.isPrefixOf]
    | cons c rest =>
      have hnot : ¬ ((45 : Byte) = b ∧ (62 : Byte) = c) := by
        rintro ⟨rfl, rfl⟩
        exact hhyphen ⟨rfl, rfl⟩
      simpa [List.isPrefixOf] using hnot

/-- The digits at the cursor end before the first byte that is none. -/
theorem digitsEnd_eq_ok {digits rest : Text} (hdigits : ∀ d ∈ digits, Byte.isDigit d = true)
    (hfree : rest.DigitFree) {n : Nat} (hn : digits.length < n)
    (h : input.drop pos = digits ++ rest) :
    digitsEnd input n pos = .ok (pos + digits.length) := by
  induction digits generalizing n pos with
  | nil =>
    obtain ⟨n, rfl⟩ : ∃ n', n = n' + 1 := ⟨n - 1, by simp at hn; omega⟩
    have hnot : Byte.isDigit (rest.headD 0) = false := by
      cases rest with
      | nil => rfl
      | cons b rest => exact Text.digitFree_cons.1 hfree
    rw [digitsEnd, peek_eq, h, List.nil_append, ok_bind, hnot]
    rfl
  | cons d digits ih =>
    rw [List.length_cons] at hn
    obtain ⟨n, rfl⟩ : ∃ n', n = n' + 1 := ⟨n - 1, by omega⟩
    obtain ⟨hd, hdigits⟩ := List.forall_mem_cons.1 hdigits
    have hrest : input.drop (pos + 1) = digits ++ rest := by
      rw [← List.drop_drop, h, List.cons_append, List.drop_succ_cons, List.drop_zero]
    rw [digitsEnd, peek_eq, h, ok_bind, List.cons_append, List.headD_cons, if_pos hd,
      ih hdigits (by omega) hrest, List.length_cons]
    congr 1
    omega

/-- At an identifier the cursor moves past all of it. -/
theorem Ahead.scanIdent_eq {x : Text} {limit : Nat} (h : Ahead input pos (.ident x :: ts))
    (hlimit : input.length < limit) : scanIdent input limit pos = .ok (x, pos + x.length) := by
  obtain ⟨b, digits, rest, hdrop, rfl, hdigits, hfree⟩ : ∃ b digits rest,
      input.drop pos = b :: (digits ++ rest) ∧ x = b :: digits ∧
        (∀ d ∈ digits, Byte.isDigit d = true) ∧ Text.DigitFree rest := by
    have hlexes := h.lexes
    generalize input.drop pos = text at hlexes
    cases hlexes with
    | ident _ hdigits hfree => exact ⟨_, _, _, rfl, rfl, hdigits, hfree⟩
  have hlength := congrArg List.length hdrop
  simp only [List.length_drop, List.length_cons, List.length_append] at hlength
  have hrest : input.drop (pos + 1) = digits ++ rest := by
    rw [← List.drop_drop, hdrop, List.drop_succ_cons, List.drop_zero]
  have hstop := digitsEnd_eq_ok hdigits hfree (by omega : digits.length < limit) hrest
  have hname : slice input pos (pos + (b :: digits).length) = .ok (b :: digits) :=
    slice_eq_ok (show input.drop pos = (b :: digits) ++ rest from hdrop) h.le
  rw [List.length_cons] at hname ⊢
  rw [scanIdent, hstop, ok_bind, Nat.add_assoc, Nat.add_comm 1, hname, ok_bind]

/-! ## Looking for a closing parenthesis -/

/-- Bytes that are no parentheses are passed over. -/
theorem closesBeforeSign_append {w rest : Text} (hw : ∀ b ∈ w, b ≠ 40 ∧ b ≠ 41) (depth : Nat)
    (h : input.drop pos = w ++ rest) {n : Nat} (hn : input.length - pos < n) :
    ∃ m, input.length - (pos + w.length) < m ∧
      closesBeforeSign input n depth pos = closesBeforeSign input m depth (pos + w.length) := by
  induction w generalizing pos n with
  | nil => exact ⟨n, hn, rfl⟩
  | cons b w ih =>
    obtain ⟨n, rfl⟩ : ∃ n', n = n' + 1 := ⟨n - 1, by omega⟩
    obtain ⟨⟨hopen, hclose⟩, hw⟩ := List.forall_mem_cons.1 hw
    obtain ⟨hbyte, hlt⟩ := byteAt_eq_ok (h.trans (List.cons_append ..))
    have hrest : input.drop (pos + 1) = w ++ rest := by
      rw [← List.drop_drop, h, List.cons_append, List.drop_succ_cons, List.drop_zero]
    obtain ⟨m, hm, heq⟩ := ih hw hrest (by omega : input.length - (pos + 1) < n)
    rw [List.length_cons, Nat.add_comm w.length, ← Nat.add_assoc]
    refine ⟨m, hm, ?_⟩
    rw [closesBeforeSign, if_pos hlt, hbyte, ok_bind, if_neg hopen, if_neg hclose, heq]

/-- Only the parentheses themselves have such bytes. -/
theorem ne_paren_of_mem_text {text : Text} {t : Token} (h : Lexes text (t :: ts))
    (hl : t ≠ .lparen) (hr : t ≠ .rparen) : ∀ b ∈ t.text, b ≠ 40 ∧ b ≠ 41 := by
  have hname {b : Byte} (hb : (b.isLetter || b.isDigit) = true) : b ≠ 40 ∧ b ≠ 41 := by
    constructor <;> rintro rfl <;> exact absurd hb (by decide)
  cases h with
  | ident hb hdigits =>
    exact List.forall_mem_cons.2
      ⟨hname (by rw [hb, Bool.true_or]), fun d hd => hname (by rw [hdigits d hd, Bool.or_true])⟩
  | arrow => exact List.forall_mem_cons.2 ⟨by decide, List.forall_mem_singleton.2 (by decide)⟩
  | @byte b =>
    refine List.forall_mem_singleton.2 ⟨?_, ?_⟩
    · rintro rfl
      exact hl rfl
    · rintro rfl
      exact hr rfl

/-- A sign is told by its first byte. -/
theorem isSign_iff_first {text : Text} {t : Token} (h : Lexes text (t :: ts)) :
    IsSign t ↔ t.first = 61 ∨ t.first = 43 ∨ t.first = 42 ∨ t.first = 39 := by
  cases h with
  | @ident b digits rest ts hb =>
    have hne {c : Byte} (hc : c.isLetter = false) : b ≠ c := by
      rintro rfl
      rw [hb] at hc
      cases hc
    simp [IsSign, Token.first, hne (show Byte.isLetter 61 = false by decide),
      hne (show Byte.isLetter 43 = false by decide), hne (show Byte.isLetter 42 = false by decide),
      hne (show Byte.isLetter 39 = false by decide)]
  | arrow => simp [IsSign, Token.first]
  | byte => simp [IsSign, Token.first]

/-- Whether a sign is at the cursor, with the end of the text looked for first. -/
theorem Ahead.sign_eq (h : Ahead input pos ts) :
    (if input.length ≤ pos then .ok false
      else do
        let d ← byteAt input pos
        .ok (d = 61 || d = 43 || d = 42 || d = 39) : Except Stop Bool) =
      .ok (Parser.closesBeforeSign 1 (.rparen :: ts)) := by
  cases ts with
  | nil =>
    rw [if_pos (List.drop_eq_nil_iff.1 h.lexes.spell_eq.symm)]
    rfl
  | cons t ts =>
    obtain ⟨rest, htext, -, hfirst⟩ := exists_of_lexes_cons h.lexes
    obtain ⟨bytes, hbytes⟩ := List.head?_eq_some_iff.1 hfirst
    rw [hbytes, List.cons_append] at htext
    obtain ⟨hbyte, hlt⟩ := byteAt_eq_ok htext
    rw [if_neg (by omega), hbyte, ok_bind]
    congr 1
    rw [Bool.eq_iff_iff, closesBeforeSign_one_rparen, List.head?_cons]
    simp only [Option.mem_some_iff, exists_eq_left', isSign_iff_first h.lexes, Bool.or_eq_true,
      decide_eq_true_eq, or_assoc]

/-- Looking for a closing parenthesis byte by byte finds the one among the tokens. -/
theorem Ahead.closesBeforeSign_eq (h : Ahead input pos ts) {depth : Nat} (hd : 0 < depth) {n : Nat}
    (hn : input.length - pos < n) :
    closesBeforeSign input n depth pos = .ok (Parser.closesBeforeSign depth ts) := by
  induction ts generalizing pos depth n with
  | nil =>
    have hend : input.length ≤ pos := List.drop_eq_nil_iff.1 h.lexes.spell_eq.symm
    obtain ⟨n, rfl⟩ : ∃ n', n = n' + 1 := ⟨n - 1, by omega⟩
    rw [closesBeforeSign, if_neg (by omega)]
    rfl
  | cons t ts ih =>
    obtain ⟨rest, htext, -, -⟩ := exists_of_lexes_cons h.lexes
    by_cases hl : t = .lparen
    · subst hl
      obtain ⟨hbyte, hlt⟩ := byteAt_eq_ok htext
      obtain ⟨n, rfl⟩ : ∃ n', n = n' + 1 := ⟨n - 1, by omega⟩
      rw [closesBeforeSign, if_pos hlt, hbyte, ok_bind, if_pos rfl,
        Grammar.closesBeforeSign_lparen]
      exact ih h.byte (Nat.succ_pos _) (by omega)
    by_cases hr : t = .rparen
    · subst hr
      obtain ⟨hbyte, hlt⟩ := byteAt_eq_ok htext
      obtain ⟨n, rfl⟩ : ∃ n', n = n' + 1 := ⟨n - 1, by omega⟩
      rw [closesBeforeSign, if_pos hlt, hbyte, ok_bind, if_neg (by decide), if_pos rfl]
      by_cases hone : depth = 1
      · rw [if_pos hone, hone]
        exact h.byte.sign_eq
      · obtain ⟨depth, rfl⟩ : ∃ d, depth = d + 1 := ⟨depth - 1, by omega⟩
        have hpos : 0 < depth := by omega
        rw [if_neg hone, Grammar.closesBeforeSign_rparen hpos]
        exact ih h.byte hpos (by omega)
    · have htoken := ne_paren_of_mem_text h.lexes hl hr
      obtain ⟨m, hm, heq⟩ := closesBeforeSign_append htoken depth htext hn
      rw [heq, Grammar.closesBeforeSign_cons hl hr]
      exact ih h.advance hd hm

/-- The cursor and the reader see the same in a parenthesis. -/
theorem Ahead.opensTerm_eq {limit : Nat} (h : Ahead input pos (.lparen :: ts))
    (hlimit : input.length < limit) :
    opensTerm input limit pos = .ok (Parser.opensTerm ts) := by
  obtain ⟨rest, htext, -, -⟩ := exists_of_lexes_cons h.lexes
  obtain ⟨hbyte, hlt⟩ := byteAt_eq_ok htext
  obtain ⟨n, rfl⟩ : ∃ n', limit = n' + 1 := ⟨limit - 1, by omega⟩
  rw [opensTerm, closesBeforeSign, if_pos hlt, hbyte, ok_bind, if_pos rfl]
  exact h.byte.closesBeforeSign_eq Nat.one_pos (by omega)

end

/-! ## Cursor and tokens move together -/

/-- A reader and a cursor come to the same: the same value with the same tokens ahead, or the same
error at the same place. -/
inductive Agrees (input : Text) {α : Type} :
    Except Parser.Fault (α × List Token) → Except Stop (α × Nat) → Prop
  | ok {a : α} {rest : List Token} {pos : Nat} :
      Ahead input pos rest → Agrees input (.ok (a, rest)) (.ok (a, pos))
  | error {reason : Reason} {rest : List Token} {pos : Nat} : Ahead input pos rest →
      Agrees input (.error ⟨reason, rest⟩) (.error (.wrong input pos reason.message))

/-- Agreement is kept by doing one thing after another. -/
theorem Agrees.bind {input : Text} {α β : Type} {x : Except Parser.Fault (α × List Token)}
    {y : Except Stop (α × Nat)} {f : α × List Token → Except Parser.Fault (β × List Token)}
    {g : α × Nat → Except Stop (β × Nat)} (h : Agrees input x y)
    (hfg : ∀ a rest pos, x = .ok (a, rest) → Ahead input pos rest →
      Agrees input (f (a, rest)) (g (a, pos))) : Agrees input (x >>= f) (y >>= g) := by
  cases h with
  | ok hahead => exact hfg _ _ _ rfl hahead
  | error hahead => exact .error hahead

/-- From every position with at most `k` tokens ahead, the cursor agrees with the reader. -/
def Tracks (input : Text) (k : Nat) {α : Type} (reader : Parser.Reader α) (move : Move α) : Prop :=
  ∀ pos ts, Ahead input pos ts → ts.length ≤ k → Agrees input (reader ts) (move pos)

/-- The reader consumes a token at least. -/
def Progresses {α : Type} (reader : Parser.Reader α) : Prop :=
  ∀ ts a rest, reader ts = .ok (a, rest) → rest.length < ts.length

/-- A reader that consumes phrases consumes a token at least. -/
theorem progresses_of_sound {reader : Parser.Reader Expr} {p : Expr → Phrase}
    (h : Sound reader fun e => Derives (p e)) : Progresses reader := by
  intro ts a rest hr
  obtain ⟨us, rfl, hus⟩ := h _ _ _ hr
  have hpos := hus.length_pos
  rw [List.length_append]
  omega

section
variable {input : Text} {pos : Nat} {ts : List Token}

/-- No token is ahead exactly at the end of the text. -/
theorem Ahead.eq_nil_iff (h : Ahead input pos ts) : ts = [] ↔ input.length ≤ pos := by
  rw [← List.drop_eq_nil_iff]
  have hlexes := h.lexes
  generalize input.drop pos = text at hlexes
  cases hlexes with
  | nil | ident | arrow | byte => simp

/-- A byte that is a token of its own wherever it stands, and is not taken for the end. -/
def isSymbol (b : Byte) : Bool := !b.isLetter && b != 45 && b != 0

/-- The byte at the cursor is a symbol exactly where that symbol is the next token. -/
theorem Ahead.firstByte_eq_iff (h : Ahead input pos ts) {b : Byte} (hb : isSymbol b = true) :
    firstByte ts = b ↔ ts.head? = some (.byte b) := by
  simp only [isSymbol, Bool.and_eq_true, Bool.not_eq_true', bne_iff_ne] at hb
  obtain ⟨⟨hletter, hhyphen⟩, hzero⟩ := hb
  have hlexes := h.lexes
  generalize input.drop pos = text at hlexes
  cases hlexes with
  | nil => simpa [firstByte] using hzero.symm
  | @ident c digits rest ts hc =>
    have hne : c ≠ b := by
      rintro rfl
      rw [hc] at hletter
      cases hletter
    simpa [firstByte, Token.first] using hne
  | arrow => simpa [firstByte, Token.first] using hhyphen.symm
  | byte => simp [firstByte, Token.first]

/-- Looking for a byte at the cursor is looking for that token. -/
theorem Ahead.agrees_peek (h : Ahead input pos ts) {b : Byte} (hb : isSymbol b = true) {α : Type}
    {outcome : Except Parser.Fault (α × List Token)} {found : Except Stop (α × Nat)}
    {other : Byte → Except Stop (α × Nat)}
    (hfound : ∀ rest, ts = .byte b :: rest → Ahead input (pos + 1) rest →
      Agrees input outcome found)
    (hother : ts.head? ≠ some (.byte b) → Agrees input outcome (other (firstByte ts))) :
    Agrees input outcome (peek input pos >>= fun c => if c = b then found else other c) := by
  rw [h.peek_eq, ok_bind]
  split_ifs with heq
  · obtain ⟨rest, rfl⟩ := List.head?_eq_some_iff.1 ((h.firstByte_eq_iff hb).1 heq)
    exact hfound rest rfl h.byte
  · exact hother fun hhead => heq ((h.firstByte_eq_iff hb).2 hhead)

/-- An expected byte that does not come next is an error. -/
theorem expect_of_head?_ne {b : Byte} (h : ts.head? ≠ some (.byte b)) :
    Parser.expect b ts = .error ⟨.expectedByte (ts.head?.map Token.first) b, ts⟩ := by
  unfold Parser.expect
  split
  · next c rest =>
    have hne : c ≠ b := by
      rintro rfl
      exact h rfl
    rw [if_neg hne]
    rfl
  · rfl

/-- Cursor and reader agree on an expected symbol. -/
theorem Ahead.agrees_expect (h : Ahead input pos ts) {b : Byte} (hb : isSymbol b = true) :
    Agrees input (Parser.expect b ts) (expect input b pos) := by
  refine h.agrees_peek hb (fun rest hts h' => ?_) fun hhead => ?_
  · rw [hts, Parser.expect, if_pos rfl]
    exact .ok h'
  · rw [expect_of_head?_ne hhead]
    cases ts with
    | nil =>
      rw [if_pos (h.eq_nil_iff.1 rfl)]
      exact .error h
    | cons t ts =>
      rw [if_neg fun hend => List.cons_ne_nil t ts (h.eq_nil_iff.2 hend)]
      exact .error h

end

/-! ## Loops -/

section
variable {input : Text} {k : Nat} {item : Parser.Reader Expr} {move : Move Expr}
variable (hitem : Tracks input k item move) (hprogress : Progresses item)

/-- A separator ahead makes a chain read one item more. -/
theorem resume_cons {sep : Token} {combine : Expr → Expr → Expr} (item : Parser.Reader Expr)
    (a : Expr) (n : Nat) (ts : List Token) :
    resume sep combine item a (n + 1) (sep :: ts) =
      item ts >>= fun r => resume sep combine item (combine a r.1) n r.2 := by
  cases hread : item ts with
  | ok r => exact resume_step hread n
  | error f =>
    rw [resume, Grammar.further_cons, if_pos rfl, hread]
    rfl

/-- Reading one item more in front of items that are grouped from the right. -/
theorem gather_cons {γ : Type} {sep : Token} {group : Expr → List Expr → γ} {more : Expr → γ → γ}
    (hmore : ∀ e e' es, group e (e' :: es) = more e (group e' es)) (item : Parser.Reader Expr)
    (a : Expr) (n : Nat) (ts : List Token) :
    (Parser.further sep item (n + 1) (sep :: ts) >>= fun r => .ok (group a r.1, r.2)) =
      gather sep item group n ts >>= fun r => .ok (more a r.1, r.2) := by
  rw [Grammar.further_cons, if_pos rfl, gather]
  cases item ts with
  | error f => rfl
  | ok r =>
    obtain ⟨e, ts'⟩ := r
    rw [ok_bind, ok_bind]
    dsimp only
    cases Parser.further sep item n ts' with
    | error f => rfl
    | ok r =>
      simp only [ok_bind, hmore]

include hitem hprogress

/-- The loop of a chain that groups to the left. -/
theorem agrees_chain {sign : Byte} (hsign : isSymbol sign = true) {combine : Expr → Expr → Expr}
    {n m pos : Nat} {ts : List Token} (left : Expr) (h : Ahead input pos ts) (hk : ts.length ≤ k)
    (hn : ts.length ≤ n) (hm : ts.length < m) :
    Agrees input (resume (.byte sign) combine item left n ts)
      (chain input sign combine move m left pos) := by
  induction m generalizing n pos ts left with
  | zero => omega
  | succ m ih =>
    refine h.agrees_peek hsign (fun rest hts h' => ?_) fun hhead => ?_
    · subst hts
      rw [List.length_cons] at hk hn hm
      obtain ⟨n, rfl⟩ : ∃ n', n = n' + 1 := ⟨n - 1, by omega⟩
      rw [resume_cons]
      refine (hitem _ _ h' (by omega)).bind fun a rest' pos' hok h'' => ?_
      have hlt := hprogress _ _ _ hok
      dsimp only
      exact ih _ h'' (by omega) (by omega) (by omega)
    · rw [resume_stop hhead]
      exact .ok h

/-- Where the cursor tracks the reader of the items, it tracks that of their chain. -/
theorem tracks_operands {sign : Byte} (hsign : isSymbol sign = true)
    {combine : Expr → Expr → Expr} {n limit : Nat} (hn : k ≤ n + 1) (hlimit : k ≤ limit) :
    Tracks input k (Parser.leftChain (.byte sign) combine item n)
      (operands input limit sign combine move) := by
  intro pos ts h hk
  refine (hitem pos ts h hk).bind fun a rest pos' hok h' => ?_
  have hlt := hprogress _ _ _ hok
  exact agrees_chain hitem hprogress hsign a h' (by omega) (by omega) (by omega)

/-- Items that are grouped from the right. -/
theorem agrees_sequence {γ : Type} {sep : Token} {separator : Nat → Except Stop Bool}
    (hseparator : ∀ pos ts, Ahead input pos ts →
      separator pos = .ok (decide (ts.head? = some sep)))
    {one : Expr → γ} {more : Expr → γ → γ} {group : Expr → List Expr → γ}
    (hone : ∀ e, group e [] = one e)
    (hmore : ∀ e e' es, group e (e' :: es) = more e (group e' es)) {n m pos : Nat}
    {ts : List Token} (h : Ahead input pos ts) (hk : ts.length ≤ k) (hn : ts.length ≤ n + 1)
    (hm : ts.length < m) :
    Agrees input (gather sep item group n ts)
      (sequence separator sep.text.length one more move m pos) := by
  induction m generalizing n pos ts with
  | zero => omega
  | succ m ih =>
    refine (hitem pos ts h hk).bind fun a rest pos' hok h' => ?_
    have hlt := hprogress _ _ _ hok
    dsimp only
    rw [hseparator pos' rest h', ok_bind]
    by_cases hhead : rest.head? = some sep
    · obtain ⟨rest, rfl⟩ := List.head?_eq_some_iff.1 hhead
      rw [List.length_cons] at hlt
      obtain ⟨n, rfl⟩ : ∃ n', n = n' + 1 := ⟨n - 1, by omega⟩
      rw [if_pos (decide_eq_true hhead)]
      show Agrees input
        (Parser.further sep item (n + 1) (sep :: rest) >>= fun r => .ok (group a r.1, r.2)) _
      rw [gather_cons hmore]
      exact (ih h'.advance (by omega) (by omega) (by omega)).bind fun s rest' pos'' _ h'' => .ok h''
    · rw [if_neg (by simpa using hhead), Grammar.further_stop hhead, ok_bind, ← hone]
      exact .ok h'

end

/-! ## Terms -/

section
variable {input : Text} {limit k : Nat} {reader : Parser.Reader Expr} {move : Move Expr}

/-- Looking for a comma finds it exactly where it is the next token. -/
theorem Ahead.peekComma_eq {pos : Nat} {ts : List Token} (h : Ahead input pos ts) :
    peekComma input pos = .ok (decide (ts.head? = some .comma)) := by
  rw [peekComma, h.peek_eq, ok_bind]
  congr 1
  exact decide_eq_decide.2 (h.firstByte_eq_iff (by decide))

/-- Arguments are items gathered between commas, with a closing parenthesis behind them. -/
theorem arguments_eq (reader : Parser.Reader Expr) (n : Nat) (ts : List Token) :
    Parser.arguments reader n ts = gather .comma reader .cons n ts >>= fun r =>
      match r.2 with
      | .rparen :: ts => .ok (r.1, ts)
      | ts => .error ⟨.unterminatedArguments, ts⟩ := by
  rw [Parser.arguments, gather]
  cases reader ts with
  | error f => rfl
  | ok r =>
    obtain ⟨e, ts'⟩ := r
    simp only [ok_bind]
    cases Parser.further .comma reader n ts' with
    | error f => rfl
    | ok r => rfl

/-- Cursor and reader agree on the arguments in a parenthesis. -/
theorem agrees_arguments (hterm : Tracks input k reader move) (hprogress : Progresses reader)
    {n pos : Nat} {ts : List Token} (h : Ahead input pos (.lparen :: ts)) (hk : ts.length ≤ k)
    (hn : ts.length ≤ n + 1) (hlimit : ts.length < limit) :
    Agrees input (Parser.arguments reader n ts) (arguments input limit move pos) := by
  rw [arguments_eq, arguments, expect, h.peek_eq, ok_bind, firstByte_byte, if_pos rfl, ok_bind]
  refine (agrees_sequence hterm hprogress (fun _ _ => Ahead.peekComma_eq) (fun _ => rfl)
    (fun _ _ _ => rfl) h.byte hk hn hlimit).bind fun es rest pos' _ h' => ?_
  refine h'.agrees_peek (by decide) (fun rest' hrest h'' => ?_) fun hhead => ?_
  · rw [hrest]
    exact .ok h''
  · dsimp only
    split
    · exact absurd rfl hhead
    · exact .error h'

/-- Where there is no term, a zero byte counts as the end. -/
theorem Ahead.agrees_noTerm {pos : Nat} {ts : List Token} (h : Ahead input pos ts) :
    Agrees input (Parser.noTerm ts) (if firstByte ts = 0 then fail input pos (.expectedTerm none)
      else fail input pos (.expectedTerm (some (firstByte ts)))) := by
  cases ts with
  | nil =>
    rw [firstByte, if_pos rfl]
    exact .error h
  | cons t ts =>
    have hmessage : (if t.first = 0 then (Reason.expectedTerm none).message
        else (Reason.expectedTerm (some t.first)).message) =
        (Reason.expectedTerm (some t.first)).message := by
      split_ifs with hzero
      · rw [hzero]
        rfl
      · rfl
    rw [firstByte, fail, fail, ← apply_ite (fun m => Except.error (Stop.wrong input pos m)),
      hmessage]
    exact .error h

/-- An identifier ahead starts with a letter. -/
theorem Ahead.isLetter_of_ident {pos : Nat} {x : Text} {ts : List Token}
    (h : Ahead input pos (.ident x :: ts)) : Byte.isLetter (x.headD 0) = true := by
  have hlexes := h.lexes
  generalize input.drop pos = text at hlexes
  cases hlexes with
  | ident hb => exact hb

/-- A byte that is a token of its own is no letter. -/
theorem Ahead.isLetter_of_byte {pos : Nat} {b : Byte} {ts : List Token}
    (h : Ahead input pos (.byte b :: ts)) : b.isLetter = false := by
  have hlexes := h.lexes
  generalize input.drop pos = text at hlexes
  cases hlexes with
  | byte hb => exact hb

/-- A letter is none of the signs. -/
theorem ne_of_isLetter {b c : Byte} (hb : b.isLetter = true) (hc : c.isLetter = false) : b ≠ c := by
  rintro rfl
  rw [hb] at hc
  cases hc

/-- A name with or without arguments, where the reader reads the same. -/
theorem agrees_named (hlimit : input.length < limit) (hterm : Tracks input k reader move)
    (hprogress : Progresses reader) {alone : Text → Expr} {applied : Text → List Expr → Expr}
    {n pos : Nat} {x : Text} {ts : List Token} (h : Ahead input pos (.ident x :: ts))
    (hk : ts.length ≤ k + 1) (hn : ts.length ≤ n + 2)
    {outcome : Except Parser.Fault (Expr × List Token)}
    (halone : ts.head? ≠ some .lparen → outcome = .ok (alone x, ts))
    (happlied : ∀ rest, ts = .lparen :: rest →
      outcome = Parser.arguments reader n rest >>= fun r => .ok (applied x r.1, r.2)) :
    Agrees input outcome (named input limit alone applied move pos) := by
  have h' := h.advance
  have hlength := h'.length_le
  rw [named, h.scanIdent_eq hlimit, ok_bind]
  refine h'.agrees_peek (by decide) (fun rest hts _ => ?_) fun hhead => ?_
  · subst hts
    rw [List.length_cons] at hk hn hlength
    rw [happlied rest rfl]
    have harguments : Agrees input (Parser.arguments reader n rest)
        (arguments input limit move (pos + x.length)) :=
      agrees_arguments hterm hprogress h' (by omega) (by omega) (by omega)
    exact harguments.bind fun es rest' pos' _ h'' => .ok h''
  · rw [halone hhead]
    exact .ok h'

/-- Where the cursor tracks the reader of terms, it tracks that of primaries. -/
theorem tracks_primary (hlimit : input.length < limit)
    (hterm : ∀ j < k, Tracks input j reader move) (hprogress : Progresses reader) {n : Nat}
    (hn : k ≤ n + 1) : Tracks input k (Parser.primary reader n) (primary input limit move) := by
  intro pos ts h hk
  rw [primary, h.peek_eq, ok_bind]
  cases ts with
  | nil => exact h.agrees_noTerm
  | cons t ts =>
    rw [List.length_cons] at hk
    have hshorter : Tracks input ts.length reader move := hterm _ (by omega)
    cases t with
    | arrow => exact h.agrees_noTerm
    | ident x =>
      have hletter := h.isLetter_of_ident
      by_cases hx : Parser.isLowerName x = true
      · rw [isLower_firstByte, if_pos hx]
        refine agrees_named hlimit hshorter hprogress h (by omega) (by omega : ts.length ≤ n + 2)
          (fun hhead => ?_) fun rest hrest => ?_
        · rw [Grammar.primary_ident, if_pos hx]
          split
          · exact absurd rfl hhead
          · rfl
        · rw [hrest, Grammar.primary_ident, if_pos hx]
          rfl
      · rw [isLower_firstByte, if_neg hx, firstByte_ident,
          if_neg (ne_of_isLetter hletter (by decide)), if_neg (ne_of_isLetter hletter (by decide)),
          Grammar.primary_ident, if_neg hx]
        exact h.agrees_noTerm
    | byte b =>
      have hlower : b.isLower = false := (Bool.or_eq_false_iff.1 h.isLetter_of_byte).2
      rw [firstByte_byte, hlower, if_neg Bool.false_ne_true]
      by_cases hopen : b = 40
      · subst hopen
        rw [if_pos rfl]
        refine (hshorter _ _ h.byte le_rfl).bind fun e rest pos' _ h' => ?_
        exact (h'.agrees_expect (by decide)).bind fun _ rest' pos'' _ h'' => .ok h''
      by_cases hzero : b = 48
      · subst hzero
        rw [if_neg (by decide), if_pos rfl]
        exact .ok h.byte
      · rw [if_neg hopen, if_neg hzero]
        have hnone : Parser.primary reader n (.byte b :: ts) = Parser.noTerm (.byte b :: ts) := by
          unfold Parser.primary
          split <;> simp_all
        rw [hnone]
        exact h.agrees_noTerm

/-- Cursor and reader count the same primes. -/
theorem agrees_primes {m pos : Nat} {ts : List Token} (e : Expr) (h : Ahead input pos ts)
    (hm : ts.length < m) : Agrees input (.ok (Parser.primes e ts)) (primes input m e pos) := by
  induction m generalizing pos ts e with
  | zero => omega
  | succ m ih =>
    refine h.agrees_peek (by decide) (fun rest hts h' => ?_) fun hhead => ?_
    · subst hts
      rw [List.length_cons] at hm
      exact ih (.successor e) h' (by omega)
    · have hstop : Parser.primes e ts = (e, ts) := by
        unfold Parser.primes
        split
        · exact absurd rfl hhead
        · rfl
      rw [hstop]
      exact .ok h

/-- Where the cursor tracks the reader of terms, it tracks that of increments. -/
theorem tracks_increment (hlimit : input.length < limit)
    (hterm : ∀ j < k, Tracks input j reader move) (hprogress : Progresses reader) {n : Nat}
    (hn : k ≤ n + 1) : Tracks input k (Parser.increment reader n) (increment input limit move) := by
  intro pos ts h hk
  refine (tracks_primary hlimit hterm hprogress hn pos ts h hk).bind fun e rest pos' _ h' => ?_
  have hlength := h'.length_le
  exact agrees_primes e h' (by omega)

end

theorem progresses_term (n : Nat) : Progresses (Parser.term n) := progresses_of_sound (sound_term n)

/-- With more steps than there are tokens ahead, the cursor reads terms as the reader does. -/
theorem tracks_term {input : Text} {limit : Nat} (hlimit : input.length < limit) {k n m : Nat}
    (hk : k ≤ limit) (hn : k ≤ n) (hm : k < m) :
    Tracks input k (Parser.term n) (term input limit m) := by
  induction m generalizing k n with
  | zero => omega
  | succ m ih =>
    have hsucc (n : Nat) (hn : k ≤ n + 1) :
        Tracks input k (Parser.term (n + 1)) (term input limit (m + 1)) := by
      have hinner (j : Nat) (hj : j < k) : Tracks input j (Parser.term n) (term input limit m) :=
        ih (by omega) (by omega) (by omega)
      have hinc := tracks_increment hlimit hinner (progresses_term n) hn
      have hmul : Tracks input k
          (Parser.leftChain .star .times (Parser.increment (Parser.term n) n) n)
          (operands input limit 42 .times (increment input limit (term input limit m))) :=
        tracks_operands hinc (progresses_of_sound (sound_increment (sound_term n) n)) (by decide)
          hn hk
      exact tracks_operands hmul (progresses_of_sound (sound_product (sound_term n) n)) (by decide)
        hn hk
    cases n with
    | succ n => exact hsucc n hn
    | zero =>
      -- Without tokens the reader says the same with one more step.
      intro pos ts h hts
      obtain rfl : ts = [] := List.length_eq_zero_iff.1 (by omega)
      exact hsucc 0 (by omega) pos [] h hts

/-! ## Formulas -/

section
variable {input : Text} {limit k : Nat}

/-- The cursor tracks the reader of equations. -/
theorem tracks_equation (hlimit : input.length < limit) (hk : k < limit) {n : Nat} (hn : k ≤ n) :
    Tracks input k (Parser.equation (Parser.term n)) (equation input limit) := by
  have hterm : Tracks input k (Parser.term n) (term input limit limit) :=
    tracks_term hlimit hk.le hn hk
  intro pos ts h hts
  refine (hterm pos ts h hts).bind fun l rest pos₁ hl h₁ => ?_
  have hshorter := progresses_term n _ _ _ hl
  refine (h₁.agrees_expect (by decide)).bind fun _ rest₂ pos₂ hsign h₂ => ?_
  obtain rfl := expect_eq_ok hsign
  rw [List.length_cons] at hshorter
  refine (hterm pos₂ rest₂ h₂ (by omega)).bind fun r rest₃ pos₃ _ h₃ => ?_
  exact .ok h₃

/-- Where no upper-case letter is ahead, an equation is read. -/
theorem Ahead.predicate_eq {pos : Nat} {ts : List Token} (h : Ahead input pos ts)
    (hupper : (firstByte ts).isUpper = false) :
    predicate input limit pos = equation input limit pos := by
  rw [predicate, h.peek_eq, ok_bind, hupper, if_neg Bool.false_ne_true]

/-- Cursor and reader agree behind a quantifier, where the cursor tracks the reader of its body. -/
theorem agrees_quantified (hlimit : input.length < limit) {kind : Kind} {q : Byte}
    (hkind : (if q = 63 then Kind.existential else Kind.universal) = kind) {pos : Nat}
    {ts : List Token} (h : Ahead input pos (.byte q :: ts)) {reader : Parser.Reader Expr}
    {move : Move Expr} (hbody : Tracks input ts.length reader move) :
    Agrees input (Parser.quantifier kind reader ts) (quantified input limit move pos) := by
  have h' := h.byte
  rw [quantified, h.peek_eq, ok_bind, firstByte_byte, hkind]
  dsimp only
  rw [h'.peek_eq, ok_bind]
  cases ts with
  | nil => exact .error h'
  | cons t ts =>
    cases t with
    | arrow => exact .error h'
    | ident x =>
      rw [isLower_firstByte, Parser.quantifier]
      split_ifs with hx
      · rw [h'.scanIdent_eq hlimit, ok_bind]
        have hts : ts.length ≤ (Token.ident x :: ts).length := Nat.le_succ _
        exact (hbody _ ts h'.advance hts).bind fun b rest pos₁ _ h₁ => .ok h₁
      · exact .error h'
    | byte b =>
      have hlower : b.isLower = false := (Bool.or_eq_false_iff.1 h'.isLetter_of_byte).2
      rw [firstByte_byte, hlower, if_neg Bool.false_ne_true]
      exact .error h'

/-- Where the cursor tracks the reader of a `Unary`, it tracks that of formulas. -/
theorem tracks_formulaOf {reader : Parser.Reader Expr} {move : Move Expr}
    (hunary : Tracks input k reader move) (hsound : Sound reader fun e => Derives (.unary e))
    {n : Nat} (hn : k ≤ n + 1) (hk : k < limit) :
    Tracks input k (Parser.formulaOf reader n) (formulaOf input limit move) := by
  have hconj : Tracks input k (Parser.leftChain .ampersand .and reader n)
      (operands input limit 38 .and move) :=
    tracks_operands hunary (progresses_of_sound hsound) (by decide) hn hk.le
  have hdisj : Tracks input k
      (Parser.leftChain .bar .or (Parser.leftChain .ampersand .and reader n) n)
      (operands input limit 124 .or (operands input limit 38 .and move)) :=
    tracks_operands hconj (progresses_of_sound (sound_conjunction hsound n)) (by decide) hn hk.le
  intro pos ts h hts
  show Agrees input (gather .arrow _ (Parser.groupRight .implies) n ts)
    (sequence (peekArrow input) Token.arrow.text.length id .implies _ limit pos)
  refine agrees_sequence hdisj (progresses_of_sound (sound_disjunction hsound n))
    (fun _ _ => Ahead.peekArrow_eq) ?_ ?_ h hts (hts.trans hn) (hts.trans_lt hk)
  · intro e
    rfl
  · intro e e' es
    rfl

/-- One step of reading a `Unary`, where the cursor agrees on all that is shorter. -/
theorem tracks_unary_succ (hlimit : input.length < limit) (hk : k < limit) {n m : Nat}
    (hn : k ≤ n + 1) (ih : ∀ j < k, Tracks input j (Parser.unary n) (unary input limit m)) :
    Tracks input k (Parser.unary (n + 1)) (unary input limit (m + 1)) := by
  have hequation := tracks_equation hlimit hk hn
  have hpredicate {pos : Nat} {ts : List Token} (h : Ahead input pos ts) (hts : ts.length ≤ k)
      (hupper : (firstByte ts).isUpper = false) :
      Agrees input (Parser.equation (Parser.term (n + 1)) ts) (predicate input limit pos) :=
    h.predicate_eq hupper ▸ hequation pos ts h hts
  intro pos ts h hts
  rw [unary, h.peek_eq, ok_bind]
  cases ts with
  | nil => exact hpredicate h hts rfl
  | cons t ts =>
    have hlength : ts.length < k := hts
    have hshorter : Tracks input ts.length (Parser.unary n) (unary input limit m) := ih _ hlength
    cases t with
    | arrow => exact hpredicate h hts rfl
    | ident p =>
      have hne {b : Byte} (hb : b.isLetter = false) : firstByte (.ident p :: ts) ≠ b :=
        ne_of_isLetter h.isLetter_of_ident hb
      rw [if_neg (hne (by decide)), if_neg (hne (by decide)),
        if_neg (not_or.2 ⟨hne (by decide), hne (by decide)⟩)]
      by_cases hp : Parser.isUpperName p = true
      · have hterm : Tracks input ts.length (Parser.term n) (term input limit limit) :=
          tracks_term hlimit (by omega) (by omega) (by omega)
        rw [predicate, h.peek_eq, ok_bind, isUpper_firstByte, if_pos hp]
        refine agrees_named hlimit hterm (progresses_term n) h (by omega)
          (by omega : ts.length ≤ n + 2) (fun hhead => ?_) fun rest hrest => ?_
        · exact Grammar.unary_letter hp hhead
        · rw [hrest, Grammar.unary_ident, if_pos hp]
          rfl
      · rw [Grammar.unary_ident, if_neg hp]
        exact hpredicate h hts ((isUpper_firstByte p ts).trans (Bool.not_eq_true _ ▸ hp))
    | byte b =>
      have hupper : b.isUpper = false := (Bool.or_eq_false_iff.1 h.isLetter_of_byte).1
      rw [firstByte_byte]
      by_cases hbang : b = 33
      · subst hbang
        rw [if_pos rfl]
        exact (hshorter _ ts h.byte le_rfl).bind fun e rest pos' _ h' => .ok h'
      by_cases hopen : b = 40
      · subst hopen
        rw [if_neg (by decide), if_pos rfl, h.opensTerm_eq hlimit, ok_bind, Grammar.unary_lparen]
        split_ifs
        · exact hpredicate h hts hupper
        · have hformula : Tracks input ts.length (Parser.formulaOf (Parser.unary n) n)
              (formulaOf input limit (unary input limit m)) :=
            tracks_formulaOf hshorter (sound_unary n) (by omega) (by omega)
          refine (hformula _ ts h.byte le_rfl).bind fun e rest pos' _ h' => ?_
          exact (h'.agrees_expect (by decide)).bind fun _ rest' pos'' _ h'' => .ok h''
      rw [if_neg hbang, if_neg hopen]
      by_cases hall : b = 64
      · subst hall
        rw [if_pos (.inl rfl)]
        exact agrees_quantified hlimit rfl h hshorter
      by_cases hexist : b = 63
      · subst hexist
        rw [if_pos (.inr rfl)]
        exact agrees_quantified hlimit rfl h hshorter
      · have hother : Parser.unary (n + 1) (.byte b :: ts) =
            Parser.equation (Parser.term (n + 1)) (.byte b :: ts) := by
          unfold Parser.unary
          split <;> simp_all
        rw [if_neg (not_or.2 ⟨hall, hexist⟩), hother]
        exact hpredicate h hts hupper

/-- The cursor tracks the reader of a `Unary`. -/
theorem tracks_unary (hlimit : input.length < limit) (hk : k < limit) {n m : Nat} (hn : k ≤ n)
    (hm : k < m) : Tracks input k (Parser.unary n) (unary input limit m) := by
  induction m generalizing k n with
  | zero => omega
  | succ m ih =>
    cases n with
    | succ n =>
      exact tracks_unary_succ hlimit hk hn fun j hj => ih (by omega) (by omega) (by omega)
    | zero =>
      intro pos ts h hts
      obtain rfl : ts = [] := List.length_eq_zero_iff.1 (by omega)
      have hone : Tracks input k (Parser.unary 1) (unary input limit (m + 1)) :=
        tracks_unary_succ hlimit hk (by omega) fun j hj => absurd hj (by omega)
      exact hone pos [] h hts

end

/-! ## Whole texts -/

/-- The cursor reads a text as the reader does, to its end. -/
theorem whole_eq {input : Text} {reader : Nat → Parser.Reader Expr} {move : Move Expr}
    (h : Tracks input (scan input).length (reader (scan input).length) move) :
    whole input move = (Parser.whole reader input).mapError Stop.ofSyntaxError := by
  have hread := h 0 _ (ahead_zero input) le_rfl
  unfold whole Parser.whole
  dsimp only
  generalize reader (scan input).length (scan input) = outcome at hread ⊢
  generalize move 0 = moved at hread ⊢
  cases hread with
  | @error reason rest pos h' =>
    show _ = Except.error (Stop.wrong input (input.length - (spell rest).length) reason.message)
    rw [h'.position]
    rfl
  | @ok e rest pos h' =>
    rw [ok_bind]
    dsimp only
    cases rest with
    | nil =>
      have hend := h'.eq_nil_iff.1 rfl
      rw [if_neg (by omega)]
      rfl
    | cons t rest =>
      have hlt : pos < input.length := by
        have hlength := h'.length_le
        rw [List.length_cons] at hlength
        omega
      rw [if_pos hlt, h'.peek_eq, ok_bind]
      show _ = Except.error (Stop.wrong input (input.length - (spell (t :: rest)).length)
        (Parser.trailing t).message)
      rw [h'.position, Parser.trailing]
      by_cases ht : t = .rparen
      · subst ht
        rfl
      · have hfirst : ¬ firstByte (t :: rest) = 41 := by
          rw [h'.firstByte_eq_iff (by decide)]
          simpa using ht
        rw [if_neg hfirst, if_neg ht]
        rfl

/-- Whatever the text is, reading a formula with a cursor stays within the text and comes to an
end, with the result of reading its tokens. -/
theorem parseFormula_eq {text : Text} {limit : Nat} (hlimit : text.stripSpace.length < limit) :
    parseFormula limit text = text.parseFormula.mapError Stop.ofSyntaxError := by
  have hlength := (ahead_zero text.stripSpace).length_le
  refine whole_eq (tracks_formulaOf ?_ (sound_unary _) (Nat.le_succ _) (by omega))
  exact tracks_unary hlimit (by omega) le_rfl (by omega)

/-- Reading a term with a cursor gives the same tree or the same error. -/
theorem parseTerm_eq {text : Text} {limit : Nat} (hlimit : text.stripSpace.length < limit) :
    parseTerm limit text = text.parseTerm.mapError Stop.ofSyntaxError := by
  have hlength := (ahead_zero text.stripSpace).length_le
  exact whole_eq (tracks_term hlimit (by omega) le_rfl (by omega))

end Cursor

namespace Text

/-- Syntax errors are safe and point after a viable prefix. Reading with a cursor that checks every
access and bounds every loop by more than the length of the text, by however much, gives what
reading gives: it stays within the text and comes to an end. An error shows the text without white
space, its place is in that text, and what stands before the place is the beginning of a formula,
and of a term where a term is read. -/
theorem syntax_errors_after_viable_prefix (text : Text) (extra : Nat) :
    (Cursor.parseFormula (text.stripSpace.length + 1 + extra) text =
        text.parseFormula.mapError Stop.ofSyntaxError ∧
      ∀ e, text.parseFormula = .error e → e.AfterViablePrefix text parseFormula) ∧
    (Cursor.parseTerm (text.stripSpace.length + 1 + extra) text =
        text.parseTerm.mapError Stop.ofSyntaxError ∧
      ∀ e, text.parseTerm = .error e → e.AfterViablePrefix text parseTerm) := by
  refine ⟨⟨Cursor.parseFormula_eq (by omega), fun e he => ?_⟩,
    ⟨Cursor.parseTerm_eq (by omega), fun e he => ?_⟩⟩
  · exact afterViablePrefix_of_parseFormula he
  · exact afterViablePrefix_of_parseTerm he

/-- A zero byte stands where a term is expected, in a parenthesis that opens a term because of what
comes after it. -/
theorem syntax_errors_after_viable_prefix_zero_byte :
    ∃ e, Text.parseFormula "P & (x + \x00) = y" = .error e ∧ e.position = 5 ∧
      Cursor.parseFormula 20 "P & (x + \x00) = y" = .error (.ofSyntaxError e) ∧
      e.AfterViablePrefix "P & (x + \x00) = y" parseFormula := by
  have hparse : Text.parseFormula "P & (x + \x00) = y" =
      .error ⟨"P&(x+\x00)=y", 5, .expectedTerm (some 0)⟩ := by cbv
  have hlimit : (Text.stripSpace "P & (x + \x00) = y").length + 1 + 10 = 20 := by cbv
  obtain ⟨⟨hcursor, hviable⟩, -⟩ := syntax_errors_after_viable_prefix "P & (x + \x00) = y" 10
  rw [hlimit, hparse] at hcursor
  exact ⟨_, hparse, rfl, hcursor, hviable _ hparse⟩

end Text

end Sequitur
