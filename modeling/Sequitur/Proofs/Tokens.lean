import Mathlib
import Sequitur.Text.Space
import Sequitur.Token

/-!
# The tokens of a text

`Lexes` says what it is for a list of tokens to be the tokens of a text: identifiers take the
longest run of digits after their letter, `->` is one token, and every other byte stands alone.
`Token.scan` computes exactly this list (`lexes_iff_scan`). For texts that are put together from
pieces the equations `scan_byte_cons`, `scan_arrow_cons` and `scan_ident_append` read the tokens
off from the front; only an identifier asks something of what follows it, namely that it does not
start with a digit (`DigitFree`).

Texts of visible ASCII characters are their own stripped form (`Text.stripSpace_eq_self`), which
is why white space plays no part once a text has been read or printed.
-/

namespace Sequitur

/-! ## Classes of bytes -/

namespace Byte

theorem isLetter_of_isDigit {b : Byte} (h : b.isDigit = true) : b.isLetter = false := by
  grind [isDigit, isLetter, isUpper, isLower]

theorem isLetter_of_isUpper {b : Byte} (h : b.isUpper = true) : b.isLetter = true := by
  simp [isLetter, h]

theorem isUpper_of_isLower {b : Byte} (h : b.isLower = true) : b.isUpper = false := by
  grind [isUpper, isLower]

theorem isDigit_of_isLetter {b : Byte} (h : b.isLetter = true) : b.isDigit = false := by
  grind [isDigit, isLetter, isUpper, isLower]

/-- The visible ASCII characters. -/
def isVisible (b : Byte) : Bool := 33 ≤ b && b ≤ 126

theorem isVisible_of_isLetter {b : Byte} (h : b.isLetter = true) : b.isVisible = true := by
  grind [isLetter, isUpper, isLower, isVisible]

theorem isVisible_of_isDigit {b : Byte} (h : b.isDigit = true) : b.isVisible = true := by
  grind [isDigit, isVisible]

end Byte

/-! ## Texts without white space -/

namespace Text

/-- Reading a visible character and writing it again gives the same byte. -/
theorem stripped_visible : ∀ b : Byte, b.isVisible = true →
    b < 0x80 ∧ Piece.stripped (.char (Char.ofNat b.toNat)) = [b] := by
  decide +kernel

/-- An ASCII byte is a character of its own. -/
theorem pieces_ascii {b : Byte} (h : b < 0x80) (rest : Text) :
    Text.pieces (b :: rest) = .char (Char.ofNat b.toNat) :: Text.pieces rest := by
  rw [Text.pieces.eq_def]
  simp only [if_pos h]

/-- A text of visible ASCII characters has no white space and no stray byte. -/
theorem stripSpace_eq_self {text : Text} (h : text.all Byte.isVisible = true) :
    text.stripSpace = text := by
  unfold stripSpace
  induction text with
  | nil => rfl
  | cons b rest ih =>
    rw [List.all_cons, Bool.and_eq_true] at h
    obtain ⟨hlt, hb⟩ := stripped_visible b h.1
    rw [pieces_ascii hlt, List.flatMap_cons, hb, ih h.2]
    rfl

/-- An identifier: a letter of the class `letter` and digits after it. -/
def isIdent (letter : Byte → Bool) : Text → Bool
  | [] => false
  | b :: digits => letter b && digits.all Byte.isDigit

/-- An identifier that starts with an upper-case letter. -/
abbrev isUpperIdent : Text → Bool := isIdent Byte.isUpper

/-- An identifier that starts with a lower-case letter. -/
abbrev isLowerIdent : Text → Bool := isIdent Byte.isLower

/-- A text is no continuation of an identifier that stands before it. -/
def DigitFree (text : Text) : Prop := ∀ b ∈ text.head?, Byte.isDigit b = false

theorem digitFree_nil : DigitFree [] := by simp [DigitFree]

theorem digitFree_cons {b : Byte} {rest : Text} : DigitFree (b :: rest) ↔ b.isDigit = false := by
  simp [DigitFree]

/-- An identifier is a letter with digits behind it. -/
theorem isIdent_iff {letter : Byte → Bool} {x : Text} :
    isIdent letter x = true ↔
      ∃ b digits, x = b :: digits ∧ letter b = true ∧ ∀ d ∈ digits, Byte.isDigit d = true := by
  cases x with
  | nil => simp [isIdent]
  | cons b digits => simp [isIdent]

/-- An identifier of either case. -/
theorem isIdent_isLetter {x : Text} :
    isIdent Byte.isLetter x = true ↔ isUpperIdent x = true ∨ isLowerIdent x = true := by
  cases x with
  | nil => simp [isIdent]
  | cons b digits => simp [isIdent, Byte.isLetter, or_and_right]

/-- An identifier with a small letter is none with a capital one. -/
theorem not_isUpperIdent {x : Text} (h : isLowerIdent x = true) : isUpperIdent x ≠ true := by
  obtain ⟨b, digits, rfl, hb, -⟩ := isIdent_iff.1 h
  intro h'
  obtain ⟨_, _, ⟨⟩, hb', -⟩ := isIdent_iff.1 h'
  rw [Byte.isUpper_of_isLower hb] at hb'
  cases hb'

/-- Digits put behind an identifier leave it one. -/
theorem isIdent_append {letter : Byte → Bool} {x digits : Text}
    (hdigits : digits.all Byte.isDigit = true) (hx : isIdent letter x = true) :
    isIdent letter (x ++ digits) = true := by
  obtain ⟨b, ds, rfl, hb, hds⟩ := isIdent_iff.1 hx
  refine isIdent_iff.2 ⟨b, ds ++ digits, rfl, hb, List.forall_mem_append.2 ⟨hds, ?_⟩⟩
  exact List.all_eq_true.1 hdigits

/-- An identifier has no white space in it. -/
theorem isIdent_visible {x : Text} (h : isIdent Byte.isLetter x = true) :
    x.all Byte.isVisible = true := by
  obtain ⟨b, digits, rfl, hb, hd⟩ := isIdent_iff.1 h
  rw [List.all_eq_true]
  intro c hc
  rcases List.mem_cons.1 hc with rfl | hc
  · exact Byte.isVisible_of_isLetter hb
  · exact Byte.isVisible_of_isDigit (hd c hc)

end Text

/-! ## What the tokens of a text are -/

namespace Token

/-- The tokens of a text: an identifier takes every digit after its letter, `->` is one token, and
any other byte is a token of its own. -/
inductive Lexes : Text → List Token → Prop
  | nil : Lexes [] []
  | ident {b : Byte} {digits rest : Text} {ts : List Token} :
      b.isLetter = true → (∀ d ∈ digits, Byte.isDigit d = true) → rest.DigitFree → Lexes rest ts →
      Lexes (b :: (digits ++ rest)) (.ident (b :: digits) :: ts)
  | arrow {rest : Text} {ts : List Token} : Lexes rest ts → Lexes (45 :: 62 :: rest) (.arrow :: ts)
  | byte {b : Byte} {rest : Text} {ts : List Token} :
      b.isLetter = false → ¬ (b = 45 ∧ rest.head? = some 62) → Lexes rest ts →
      Lexes (b :: rest) (.byte b :: ts)

/-- A letter takes the digits behind it and makes one identifier with them. -/
theorem push_letter {b : Byte} (hb : b.isLetter = true) (ts : List Token) :
    push b ts = .ident (b :: leadingDigits ts) :: ts.drop (leadingDigits ts).length := by
  simp [push, hb]

/-- A byte that is neither letter nor hyphen is a token of its own. -/
theorem push_byte {b : Byte} (hb : b.isLetter = false) (hh : b ≠ 45) (ts : List Token) :
    push b ts = .byte b :: ts := by
  simp [push, hb, hh]

/-- A hyphen with no `>` behind it is a token of its own. -/
theorem push_hyphen {ts : List Token} (h : ts.head? ≠ some (.byte 62)) :
    push 45 ts = .byte 45 :: ts := by
  unfold push
  rw [if_neg (by decide), if_pos rfl]
  split
  · simp at h
  · rfl

theorem scan_cons (b : Byte) (text : Text) : scan (b :: text) = push b (scan text) := rfl

/-- A byte that is no letter and no hyphen is a token. -/
theorem scan_byte_cons {b : Byte} (hb : b.isLetter = false) (hh : b ≠ 45) (text : Text) :
    scan (b :: text) = .byte b :: scan text := by
  rw [scan_cons, push_byte hb hh]

/-- A hyphen with `>` behind it is an arrow. -/
theorem scan_arrow_cons (text : Text) : scan (45 :: 62 :: text) = .arrow :: scan text := by
  rw [scan_cons, scan_byte_cons (by decide) (by decide)]
  rfl

/-- The first token of a text is a single byte only if that is the first byte of the text. -/
theorem head?_of_head?_scan {text : Text} {b : Byte} (h : (scan text).head? = some (.byte b)) :
    text.head? = some b := by
  cases text with
  | nil => simp [scan] at h
  | cons c rest =>
    rw [scan_cons] at h
    unfold push at h
    grind

/-- Digits with no letter before them stand alone. -/
theorem scan_digits_append {digits : Text} (h : ∀ d ∈ digits, Byte.isDigit d = true)
    (text : Text) : scan (digits ++ text) = digits.map .byte ++ scan text := by
  induction digits with
  | nil => rfl
  | cons d digits ih =>
    have hd := h d (by simp)
    have hne : d ≠ 45 := by
      rintro rfl
      exact absurd hd (by decide)
    rw [List.cons_append, scan_byte_cons (Byte.isLetter_of_isDigit hd) hne,
      ih fun c hc => h c (by simp [hc])]
    rfl

/-- The tokens of a text start with a digit only if the text does. -/
theorem leadingDigits_scan {text : Text} (h : text.DigitFree) : leadingDigits (scan text) = [] := by
  unfold leadingDigits
  split
  · next b ts heq =>
    have hb := h b (head?_of_head?_scan (by rw [heq]; rfl))
    simp [hb]
  · rfl

/-- Digits put in front of a list lead it, before the digits that led it. -/
theorem leadingDigits_append {digits : Text} (h : ∀ d ∈ digits, Byte.isDigit d = true)
    (ts : List Token) : leadingDigits (digits.map .byte ++ ts) = digits ++ leadingDigits ts := by
  induction digits with
  | nil => rfl
  | cons d digits ih =>
    simp [leadingDigits, h d (by simp), ih fun c hc => h c (by simp [hc])]

/-- An identifier in front of a text that does not continue it is a token. -/
theorem scan_ident_append {x : Text} (hx : Text.isIdent Byte.isLetter x = true) {text : Text}
    (ht : text.DigitFree) : scan (x ++ text) = .ident x :: scan text := by
  obtain ⟨b, digits, rfl, hb, hd⟩ := Text.isIdent_iff.1 hx
  rw [List.cons_append, scan_cons, scan_digits_append hd, push_letter hb, leadingDigits_append hd,
    leadingDigits_scan ht, List.append_nil, List.drop_left' (by simp)]

/-- The only tokens of a text are the scanned ones. -/
theorem Lexes.eq_scan {text : Text} {ts : List Token} (h : Lexes text ts) : ts = scan text := by
  induction h with
  | nil => rfl
  | @ident b digits rest ts hb hd hrest _ ih =>
    have hx : Text.isIdent Byte.isLetter (b :: digits) = true :=
      Text.isIdent_iff.2 ⟨b, digits, rfl, hb, hd⟩
    rw [← List.cons_append, scan_ident_append hx hrest, ih]
  | arrow _ ih => rw [scan_arrow_cons, ih]
  | @byte b rest ts hb hh _ ih =>
    by_cases h45 : b = 45
    · subst h45
      rw [scan_cons, push_hyphen fun h => hh ⟨rfl, head?_of_head?_scan h⟩, ih]
    · rw [scan_byte_cons hb h45, ih]

/-- Every text has tokens. -/
theorem exists_lexes (text : Text) : ∃ ts, Lexes text ts := by
  induction hn : text.length using Nat.strong_induction_on generalizing text with
  | _ n ih =>
    cases text with
    | nil => exact ⟨[], .nil⟩
    | cons b rest =>
      subst hn
      by_cases hb : Byte.isLetter b = true
      · have hlen : (rest.dropWhile Byte.isDigit).length < (b :: rest).length :=
          Nat.lt_succ_of_le (List.length_dropWhile_le ..)
        obtain ⟨ts, hts⟩ := ih _ hlen _ rfl
        have hfree : Text.DigitFree (rest.dropWhile Byte.isDigit) := by
          intro d hd
          have := List.head?_dropWhile_not Byte.isDigit rest
          rwa [hd] at this
        have hall : ∀ d ∈ rest.takeWhile Byte.isDigit, Byte.isDigit d = true :=
          fun d hd => List.mem_takeWhile_imp hd
        have := Lexes.ident hb hall hfree hts
        rw [List.takeWhile_append_dropWhile] at this
        exact ⟨_, this⟩
      · by_cases hh : b = 45 ∧ rest.head? = some 62
        · obtain ⟨rfl, h62⟩ := hh
          obtain ⟨rest', rfl⟩ := List.head?_eq_some_iff.1 h62
          obtain ⟨ts, hts⟩ := ih rest'.length (by simp) _ rfl
          exact ⟨_, .arrow hts⟩
        · obtain ⟨ts, hts⟩ := ih rest.length (by simp) _ rfl
          exact ⟨_, .byte (by simpa using hb) hh hts⟩

/-- Scanning computes the tokens of a text and no other list is its tokens. -/
theorem lexes_iff_scan {text : Text} {ts : List Token} : Lexes text ts ↔ ts = scan text := by
  refine ⟨Lexes.eq_scan, fun h => ?_⟩
  obtain ⟨us, hus⟩ := exists_lexes text
  rwa [h, ← hus.eq_scan]

end Token

end Sequitur
