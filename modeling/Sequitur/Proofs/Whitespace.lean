import Mathlib
import Sequitur.Proofs.Splitting
import Sequitur.Proofs.Tokens

/-!
# Texts without white space

Removing white space leaves a text of whole characters none of which is white space
(`Text.Stripped`), whatever the text was: bytes that belong to no character have become U+FFFD.
Such texts are left alone when white space is removed again (`Stripped.stripSpace_eq`), for the
bytes of a character are read as that character wherever they stand (`pieces_ofChar_append`). They
have no line feed, so that they can be lines of a file, and they can be cut and joined at visible
ASCII characters. A text in which no character is white space may still have bytes that belong to
no character; it is left alone if what removing white space leaves is visible
(`SpaceFree.stripSpace_eq`).
-/

namespace Sequitur

open Utf8

namespace Text

/-! ## The bytes of a character -/

section
variable {a b c d : Byte}

/-- The bytes that continue a character. -/
theorem isTail_iff : isTail b = true ↔ 128 ≤ b.toNat ∧ b.toNat ≤ 191 := by
  simp [isTail, UInt8.le_iff_toNat_le]

/-- The two bytes of a character, as ranges of numbers. -/
theorem isPair_iff : isPair a b = true ↔ 194 ≤ a.toNat ∧ a.toNat ≤ 223 ∧ isTail b = true := by
  simp [isPair, UInt8.le_iff_toNat_le, and_assoc]

/-- The three bytes of a character, as ranges of numbers, without overlong forms and surrogates. -/
theorem isTriple_iff : isTriple a b c = true ↔
    224 ≤ a.toNat ∧ a.toNat ≤ 239 ∧ isTail b = true ∧ isTail c = true ∧
      (a.toNat = 224 → 160 ≤ b.toNat) ∧ (a.toNat = 237 → b.toNat ≤ 159) := by
  simp [isTriple, UInt8.le_iff_toNat_le, UInt8.lt_iff_toNat_lt, ← UInt8.toNat_inj, and_assoc,
    imp_iff_not_or]

/-- The four bytes of a character, as ranges of numbers, without overlong forms and numbers beyond
Unicode. -/
theorem isQuadruple_iff : isQuadruple a b c d = true ↔
    240 ≤ a.toNat ∧ a.toNat ≤ 244 ∧ isTail b = true ∧ isTail c = true ∧ isTail d = true ∧
      (a.toNat = 240 → 144 ≤ b.toNat) ∧ (a.toNat = 244 → b.toNat ≤ 143) := by
  simp [isQuadruple, UInt8.le_iff_toNat_le, UInt8.lt_iff_toNat_lt, ← UInt8.toNat_inj, and_assoc,
    imp_iff_not_or]

/-- A byte from 128 on is no ASCII byte. -/
theorem not_ascii (h : 128 ≤ a.toNat) : ¬ a < 0x80 := by
  rw [UInt8.lt_iff_toNat_lt]
  exact Nat.not_lt.2 h

/-- Two bytes of a character are cut off as that character. -/
theorem pieces_pair (h : isPair a b = true) (rest : Text) : pieces (a :: b :: rest) =
    .char (Char.ofNat (a.toNat % 32 * 64 + tailBits b)) :: pieces rest := by
  have hascii : ¬ a < 0x80 := not_ascii (by have := isPair_iff.1 h; omega)
  rw [Text.pieces.eq_def]
  simp only [if_neg hascii, if_pos h]

/-- Three bytes of a character are cut off as that character. -/
theorem pieces_triple (h : isTriple a b c = true) (rest : Text) : pieces (a :: b :: c :: rest) =
    .char (Char.ofNat (a.toNat % 16 * 4096 + tailBits b * 64 + tailBits c)) :: pieces rest := by
  have hlow := isTriple_iff.1 h
  have hascii : ¬ a < 0x80 := not_ascii (by omega)
  have hpair : ¬ isPair a b = true := by
    rw [isPair_iff]
    omega
  rw [Text.pieces.eq_def]
  simp only [if_neg hascii, if_neg hpair, if_pos h]

/-- Four bytes of a character are cut off as that character. -/
theorem pieces_quadruple (h : isQuadruple a b c d = true) (rest : Text) :
    pieces (a :: b :: c :: d :: rest) = .char (Char.ofNat
      (a.toNat % 8 * 262144 + tailBits b * 4096 + tailBits c * 64 + tailBits d)) ::
        pieces rest := by
  have hlow := isQuadruple_iff.1 h
  have hascii : ¬ a < 0x80 := not_ascii (by omega)
  have hpair : ¬ isPair a b = true := by
    rw [isPair_iff]
    omega
  have htriple : ¬ isTriple a b c = true := by
    rw [isTriple_iff]
    omega
  rw [Text.pieces.eq_def]
  simp only [if_neg hascii, if_neg hpair, if_neg htriple, if_pos h]

end

/-- A number below 256 is what the byte of that number stands for. -/
theorem toNat_byte {n : Nat} (h : n < 256) : (UInt8.ofNat n).toNat = n := by
  rw [UInt8.toNat_ofNat']
  exact Nat.mod_eq_of_lt h

/-- Six bits with a mark in front continue a character. -/
theorem isTail_byte (n : Nat) : isTail (UInt8.ofNat (n % 64 + 128)) = true := by
  rw [isTail_iff, toNat_byte (by omega)]
  omega

/-- The six bits are read back from the byte that carries them. -/
theorem tailBits_byte (n : Nat) : tailBits (UInt8.ofNat (n % 64 + 128)) = n % 64 := by
  rw [tailBits, toNat_byte (by omega)]
  omega

/-! One lemma for each number of bytes that a character can have. -/

section
variable {v : Nat}

/-- A number up to 127, written as one byte, is read back. -/
theorem pieces_of_one (h : v ≤ 127) (rest : Text) :
    pieces (UInt8.ofNat v :: rest) = .char (Char.ofNat v) :: pieces rest := by
  have hbyte : (UInt8.ofNat v).toNat = v := toNat_byte (by omega)
  have hascii : UInt8.ofNat v < 0x80 := by
    rw [UInt8.lt_iff_toNat_lt, hbyte]
    exact Nat.lt_succ_of_le h
  rw [pieces_ascii hascii, hbyte]

/-- A number up to 2047, written as two bytes, is read back. -/
theorem pieces_of_two (hlow : 127 < v) (hhigh : v ≤ 2047) (rest : Text) :
    pieces (UInt8.ofNat (v / 64 % 32 + 192) :: UInt8.ofNat (v % 64 + 128) :: rest) =
      .char (Char.ofNat v) :: pieces rest := by
  have hfirst : (UInt8.ofNat (v / 64 % 32 + 192)).toNat = v / 64 % 32 + 192 :=
    toNat_byte (by omega)
  have hpair : isPair (UInt8.ofNat (v / 64 % 32 + 192)) (UInt8.ofNat (v % 64 + 128)) = true := by
    rw [isPair_iff, hfirst]
    exact ⟨by omega, by omega, isTail_byte v⟩
  have hvalue : (v / 64 % 32 + 192) % 32 * 64 + v % 64 = v := by omega
  rw [pieces_pair hpair, hfirst, tailBits_byte, hvalue]

/-- A number up to 65535 that is no surrogate, written as three bytes, is read back. -/
theorem pieces_of_three (hlow : 2047 < v) (hhigh : v ≤ 65535) (hvalid : v < 0xD800 ∨ 0xDFFF < v)
    (rest : Text) :
    pieces (UInt8.ofNat (v / 4096 % 16 + 224) :: UInt8.ofNat (v / 64 % 64 + 128) ::
      UInt8.ofNat (v % 64 + 128) :: rest) = .char (Char.ofNat v) :: pieces rest := by
  have hfirst : (UInt8.ofNat (v / 4096 % 16 + 224)).toNat = v / 4096 % 16 + 224 :=
    toNat_byte (by omega)
  have hsecond : (UInt8.ofNat (v / 64 % 64 + 128)).toNat = v / 64 % 64 + 128 :=
    toNat_byte (by omega)
  have htriple : isTriple (UInt8.ofNat (v / 4096 % 16 + 224)) (UInt8.ofNat (v / 64 % 64 + 128))
      (UInt8.ofNat (v % 64 + 128)) = true := by
    rw [isTriple_iff, hfirst, hsecond]
    exact ⟨by omega, by omega, isTail_byte _, isTail_byte v, by omega, by omega⟩
  have hvalue : (v / 4096 % 16 + 224) % 16 * 4096 + v / 64 % 64 * 64 + v % 64 = v := by omega
  rw [pieces_triple htriple, hfirst, tailBits_byte, tailBits_byte, hvalue]

/-- A number beyond 65535, written as four bytes, is read back. -/
theorem pieces_of_four (hlow : 65535 < v) (hhigh : v < 0x110000) (rest : Text) :
    pieces (UInt8.ofNat (v / 262144 % 8 + 240) :: UInt8.ofNat (v / 4096 % 64 + 128) ::
      UInt8.ofNat (v / 64 % 64 + 128) :: UInt8.ofNat (v % 64 + 128) :: rest) =
      .char (Char.ofNat v) :: pieces rest := by
  have hfirst : (UInt8.ofNat (v / 262144 % 8 + 240)).toNat = v / 262144 % 8 + 240 :=
    toNat_byte (by omega)
  have hsecond : (UInt8.ofNat (v / 4096 % 64 + 128)).toNat = v / 4096 % 64 + 128 :=
    toNat_byte (by omega)
  have hquadruple : isQuadruple (UInt8.ofNat (v / 262144 % 8 + 240))
      (UInt8.ofNat (v / 4096 % 64 + 128)) (UInt8.ofNat (v / 64 % 64 + 128))
      (UInt8.ofNat (v % 64 + 128)) = true := by
    rw [isQuadruple_iff, hfirst, hsecond]
    exact ⟨by omega, by omega, isTail_byte _, isTail_byte _, isTail_byte v, by omega, by omega⟩
  have hvalue : (v / 262144 % 8 + 240) % 8 * 262144 + v / 4096 % 64 * 4096 + v / 64 % 64 * 64 +
      v % 64 = v := by omega
  rw [pieces_quadruple hquadruple, hfirst, tailBits_byte, tailBits_byte, tailBits_byte, hvalue]

end

/-- The bytes of a character are read as that character. -/
theorem pieces_ofChar_append (c : Char) (rest : Text) :
    pieces (ofChar c ++ rest) = .char c :: pieces rest := by
  have hvalid : c.val.toNat < 0xD800 ∨ 0xDFFF < c.val.toNat ∧ c.val.toNat < 0x110000 := c.valid
  have hchar : Char.ofNat c.val.toNat = c := Char.ofNat_toNat c
  rw [ofChar, String.utf8EncodeChar.eq_1]
  split
  · next h1 => exact (pieces_of_one h1 rest).trans (by rw [hchar])
  split
  · next h1 h2 => exact (pieces_of_two (by omega) h2 rest).trans (by rw [hchar])
  split
  · next h1 h2 h3 => exact (pieces_of_three (by omega) h3 (by omega) rest).trans (by rw [hchar])
  · next h1 h2 h3 =>
    exact (pieces_of_four (v := c.val.toNat) (by omega) (by omega) rest).trans (by rw [hchar])

/-- An ASCII byte is among the bytes of no character but its own. -/
theorem ofChar_eq_singleton {c : Char} {b : Byte} (hb : b < 0x80) (h : b ∈ ofChar c) :
    ofChar c = [b] := by
  have hlt : b.toNat < 128 := UInt8.lt_iff_toNat_lt.1 hb
  have hne {n : Nat} (hlow : 128 ≤ n) (hhigh : n < 256) : b ≠ UInt8.ofNat n := by
    rintro rfl
    rw [toNat_byte hhigh] at hlt
    omega
  rw [ofChar, String.utf8EncodeChar.eq_1] at h ⊢
  generalize c.val.toNat = v at h ⊢
  split at h
  · next h1 => rw [if_pos h1, List.mem_singleton.1 h]
  -- all bytes of a longer sequence are above the ASCII ones
  have htail (n : Nat) : b ≠ UInt8.ofNat (n % 64 + 128) := hne (by omega) (by omega)
  have hfirst2 : b ≠ UInt8.ofNat (v / 64 % 32 + 192) := hne (by omega) (by omega)
  have hfirst3 : b ≠ UInt8.ofNat (v / 4096 % 16 + 224) := hne (by omega) (by omega)
  have hfirst4 : b ≠ UInt8.ofNat (v / 262144 % 8 + 240) := hne (by omega) (by omega)
  split at h
  · simp only [List.mem_cons, List.not_mem_nil, hfirst2, htail, or_self] at h
  split at h
  · simp only [List.mem_cons, List.not_mem_nil, hfirst3, htail, or_self] at h
  · simp only [List.mem_cons, List.not_mem_nil, hfirst4, htail, or_self] at h

/-! ## Cutting at an ASCII byte -/

/-- An ASCII byte continues no character. -/
theorem not_isTail {b : Byte} (h : b < 0x80) : isTail b = false := by
  have hlt : ¬ (0x80 : UInt8) ≤ b := UInt8.not_le.2 h
  simp [isTail, hlt]

/-- A byte that starts no character with what follows it. -/
structure Strays (a : Byte) (rest : Text) : Prop where
  ascii : ¬ a < 0x80
  pair : ∀ b r, rest = b :: r → isPair a b = false
  triple : ∀ b c r, rest = b :: c :: r → isTriple a b c = false
  quadruple : ∀ b c d r, rest = b :: c :: d :: r → isQuadruple a b c d = false

/-- A byte that starts no character is a piece of its own. -/
theorem pieces_stray {a : Byte} {rest : Text} (h : Strays a rest) :
    pieces (a :: rest) = .stray a :: pieces rest := by
  match rest with
  | [] =>
    rw [Text.pieces.eq_def, Text.pieces.eq_def []]
    simp only [if_neg h.ascii]
  | [b] =>
    rw [Text.pieces.eq_def]
    simp [h.ascii, h.pair b [] rfl]
  | [b, c] =>
    rw [Text.pieces.eq_def]
    simp [h.ascii, h.pair b [c] rfl, h.triple b c [] rfl]
  | b :: c :: d :: r =>
    rw [Text.pieces.eq_def]
    simp [h.ascii, h.pair b _ rfl, h.triple b c _ rfl, h.quadruple b c d r rfl]

/-- A byte that strays before a text strays before it when an ASCII byte follows. -/
theorem Strays.append {a b : Byte} {s : Text} (h : Strays a s) (hb : b < 0x80) (rest : Text) :
    Strays a (s ++ b :: rest) where
  ascii := h.ascii
  pair c r heq := by
    rw [Bool.eq_false_iff]
    intro hpair
    obtain ⟨-, -, htail⟩ := isPair_iff.1 hpair
    cases s with
    | nil =>
      obtain ⟨rfl, -⟩ := List.cons.inj heq
      cases (not_isTail hb).symm.trans htail
    | cons x s =>
      obtain ⟨rfl, -⟩ := List.cons.inj heq
      rw [h.pair x s rfl] at hpair
      cases hpair
  triple c d r heq := by
    rw [Bool.eq_false_iff]
    intro htriple
    obtain ⟨-, -, hc, hd, -⟩ := isTriple_iff.1 htriple
    match s with
    | [] =>
      cases heq
      cases (not_isTail hb).symm.trans hc
    | [x] =>
      cases heq
      cases (not_isTail hb).symm.trans hd
    | x :: y :: s =>
      cases heq
      rw [h.triple _ _ s rfl] at htriple
      cases htriple
  quadruple c d f r heq := by
    rw [Bool.eq_false_iff]
    intro hquad
    obtain ⟨-, -, hc, hd, hf, -⟩ := isQuadruple_iff.1 hquad
    match s with
    | [] =>
      cases heq
      cases (not_isTail hb).symm.trans hc
    | [x] =>
      cases heq
      cases (not_isTail hb).symm.trans hd
    | [x, y] =>
      cases heq
      cases (not_isTail hb).symm.trans hf
    | x :: y :: z :: s =>
      cases heq
      rw [h.quadruple _ _ _ s rfl] at hquad
      cases hquad

theorem pieces_nil : pieces [] = [] := by
  rw [Text.pieces.eq_def]

/-- An ASCII byte belongs to no character that starts before it. -/
theorem pieces_append {b : Byte} (hb : b < 0x80) (s rest : Text) :
    pieces (s ++ b :: rest) = pieces s ++ pieces (b :: rest) := by
  have hstray {a : Byte} {s : Text} (h : Strays a s)
      (ih : pieces (s ++ b :: rest) = pieces s ++ pieces (b :: rest)) :
      pieces (a :: s ++ b :: rest) = pieces (a :: s) ++ pieces (b :: rest) := by
    rw [List.cons_append, pieces_stray (h.append hb rest), pieces_stray h, ih, List.cons_append]
  induction s using Text.pieces.induct with
  | case1 => rw [pieces_nil, List.nil_append, List.nil_append]
  | case2 a r ha ih => rw [List.cons_append, pieces_ascii ha, pieces_ascii ha, ih, List.cons_append]
  | case3 a ha =>
    exact hstray ⟨ha, by simp, by simp, by simp⟩
      (by rw [pieces_nil, List.nil_append, List.nil_append])
  | case4 a ha c r hpair ih =>
    rw [Text.pieces.eq_def, Text.pieces.eq_def (a :: c :: r)]
    simp [ha, hpair, ih]
  | case5 a ha c hpair ih =>
    have hpair' : isPair a c = false := by simpa using hpair
    refine hstray ⟨ha, ?_, by simp, by simp⟩ ih
    rintro _ _ ⟨⟩
    exact hpair'
  | case6 a ha c hpair d r htriple ih =>
    rw [Text.pieces.eq_def, Text.pieces.eq_def (a :: c :: d :: r)]
    simp [ha, hpair, htriple, ih]
  | case7 a ha c hpair d htriple ih =>
    have hpair' : isPair a c = false := by simpa using hpair
    have htriple' : isTriple a c d = false := by simpa using htriple
    refine hstray ⟨ha, ?_, ?_, by simp⟩ ih
    · rintro _ _ ⟨⟩
      exact hpair'
    · rintro _ _ _ ⟨⟩
      exact htriple'
  | case8 a ha c hpair d htriple f r hquad ih =>
    rw [Text.pieces.eq_def, Text.pieces.eq_def (a :: c :: d :: f :: r)]
    simp [ha, hpair, htriple, hquad, ih]
  | case9 a ha c hpair d htriple f r hquad ih =>
    have hpair' : isPair a c = false := by simpa using hpair
    have htriple' : isTriple a c d = false := by simpa using htriple
    have hquad' : isQuadruple a c d f = false := by simpa using hquad
    refine hstray ⟨ha, ?_, ?_, ?_⟩ ih
    · rintro _ _ ⟨⟩
      exact hpair'
    · rintro _ _ _ ⟨⟩
      exact htriple'
    · rintro _ _ _ _ ⟨⟩
      exact hquad'

/-- Removing white space goes past a visible character. -/
theorem stripSpace_append {b : Byte} (hb : b.isVisible = true) (s rest : Text) :
    (s ++ b :: rest).stripSpace = s.stripSpace ++ b :: rest.stripSpace := by
  obtain ⟨hlt, hself⟩ := stripped_visible b hb
  unfold stripSpace
  rw [pieces_append hlt, pieces_ascii hlt, List.flatMap_append, List.flatMap_cons, hself]
  rfl

/-- Removing white space from joined parts is removing it from each of them. -/
theorem stripSpace_join {b : Byte} (hb : b.isVisible = true) (ts : List Text) :
    (join [b] ts).stripSpace = join [b] (ts.map stripSpace) := by
  induction ts with
  | nil => simp [join, stripSpace, pieces_nil]
  | cons t ts ih =>
    cases ts with
    | nil => simp [join]
    | cons u ts =>
      rw [join_cons_cons, List.singleton_append, stripSpace_append hb, ih]
      exact (join_cons_cons [b] t.stripSpace u.stripSpace (ts.map stripSpace)).symm

/-! ## Stripped texts -/

/-- Whole characters, none of which is white space. -/
def Stripped (text : Text) : Prop :=
  ∃ cs : List Char, (∀ c ∈ cs, isSpace c = false) ∧ text = cs.flatMap ofChar

theorem stripped_nil : Stripped [] := ⟨[], nofun, rfl⟩

theorem stripped_ofChar {c : Char} (h : isSpace c = false) : (ofChar c).Stripped :=
  ⟨[c], List.forall_mem_singleton.2 h, by rw [List.flatMap_singleton]⟩

/-- Stripped texts in a row are a stripped text. -/
theorem Stripped.append {s t : Text} (hs : s.Stripped) (ht : t.Stripped) : (s ++ t).Stripped := by
  obtain ⟨cs, hcs, rfl⟩ := hs
  obtain ⟨ds, hds, rfl⟩ := ht
  exact ⟨cs ++ ds, List.forall_mem_append.2 ⟨hcs, hds⟩, List.flatMap_append.symm⟩

/-- What is left of the pieces of a text is stripped. -/
theorem stripped_flatMap (ps : List Piece) : Stripped (ps.flatMap Piece.stripped) := by
  induction ps with
  | nil => exact stripped_nil
  | cons p ps ih =>
    rw [List.flatMap_cons]
    refine Stripped.append ?_ ih
    cases p with
    | char c =>
      rw [Piece.stripped]
      split
      · exact stripped_nil
      · next h => exact stripped_ofChar (Bool.eq_false_iff.2 h)
    | stray b => exact stripped_ofChar (c := '�') (by decide)

/-- Removing white space leaves whole characters that are none. -/
theorem stripped_stripSpace (text : Text) : text.stripSpace.Stripped := stripped_flatMap _

/-- Written characters are read back one by one. -/
theorem pieces_flatMap_ofChar (cs : List Char) : pieces (cs.flatMap ofChar) = cs.map .char := by
  induction cs with
  | nil => rw [List.flatMap_nil, Text.pieces.eq_def, List.map_nil]
  | cons c cs ih => rw [List.flatMap_cons, pieces_ofChar_append, ih, List.map_cons]

/-- Removing white space leaves a stripped text as it is. -/
theorem Stripped.stripSpace_eq {text : Text} (h : text.Stripped) : text.stripSpace = text := by
  obtain ⟨cs, hcs, rfl⟩ := h
  rw [stripSpace, pieces_flatMap_ofChar, List.flatMap_map]
  exact List.flatMap_congr fun c hc => if_neg (by simp [hcs c hc])

/-- Removing white space twice is removing it once. -/
theorem stripSpace_stripSpace (text : Text) : text.stripSpace.stripSpace = text.stripSpace :=
  (stripped_stripSpace text).stripSpace_eq

theorem stripped_of_visible {text : Text} (h : text.all Byte.isVisible = true) : text.Stripped :=
  stripSpace_eq_self h ▸ stripped_stripSpace text

/-- Stripped texts can be cut at ASCII characters. -/
theorem Stripped.of_append {b : Byte} (hb : b < 0x80) {s t : Text} (h : (s ++ b :: t).Stripped) :
    s.Stripped ∧ t.Stripped := by
  obtain ⟨cs, hcs, heq⟩ := h
  induction cs generalizing s with
  | nil => simp at heq
  | cons c cs ih =>
    obtain ⟨hc, hcs⟩ := List.forall_mem_cons.1 hcs
    rw [List.flatMap_cons, List.append_eq_append_iff] at heq
    rcases heq with ⟨m, hchar, htail⟩ | ⟨m, rfl, hrest⟩
    · cases m with
      | nil =>
        rw [List.append_nil] at hchar
        exact ⟨hchar ▸ stripped_ofChar hc, (ih (s := []) hcs htail).2⟩
      | cons b' m =>
        obtain ⟨rfl, rfl⟩ := List.cons.inj htail
        have hsingle := ofChar_eq_singleton hb (by rw [hchar]; simp)
        rw [hsingle, List.singleton_eq_append_iff] at hchar
        obtain ⟨rfl, hm⟩ | ⟨-, hm⟩ := hchar
        · obtain ⟨-, rfl⟩ := List.cons.inj hm
          exact ⟨stripped_nil, cs, hcs, rfl⟩
        · cases hm
    · obtain ⟨hm, ht⟩ := ih hcs hrest.symm
      exact ⟨(stripped_ofChar hc).append hm, ht⟩

/-- A text with a visible character in it is stripped when both sides of that character are. -/
theorem stripped_append_iff {b : Byte} (hb : b.isVisible = true) {s t : Text} :
    (s ++ b :: t).Stripped ↔ s.Stripped ∧ t.Stripped := by
  refine ⟨Stripped.of_append (stripped_visible b hb).1, fun ⟨hs, ht⟩ => ?_⟩
  have hbyte : Stripped [b] := stripped_of_visible (by simpa using hb)
  exact hs.append (hbyte.append ht)

/-- A stripped text stands on one line. -/
theorem Stripped.newline_not_mem {text : Text} (h : text.Stripped) : Byte.newline ∉ text := by
  obtain ⟨cs, hcs, rfl⟩ := h
  intro hmem
  obtain ⟨c, hc, hbyte⟩ := List.mem_flatMap.1 hmem
  have hpieces := pieces_ofChar_append c []
  rw [ofChar_eq_singleton (by decide) hbyte, List.append_nil, pieces_ascii (by decide)] at hpieces
  obtain ⟨hchar, -⟩ := List.cons.inj hpieces
  have hspace := hcs c hc
  rw [← Piece.char.inj hchar] at hspace
  exact absurd hspace (by decide)

/-! ## Visible texts without white space -/

/-- No character of the text is white space. Bytes that belong to no character are allowed. -/
def SpaceFree (text : Text) : Prop := ∀ c, .char c ∈ text.pieces → isSpace c = false

/-- A stripped text has no white space in it. -/
theorem Stripped.spaceFree {text : Text} (h : text.Stripped) : text.SpaceFree := by
  obtain ⟨cs, hcs, rfl⟩ := h
  intro c hc
  rw [pieces_flatMap_ofChar] at hc
  obtain ⟨d, hd, hdc⟩ := List.mem_map.1 hc
  exact Piece.char.inj hdc ▸ hcs d hd

/-- Every character takes a byte at least. -/
theorem ofChar_ne_nil (c : Char) : ofChar c ≠ [] := by
  intro h
  have hpieces := pieces_ofChar_append c []
  rw [h, List.nil_append, Text.pieces.eq_def] at hpieces
  cases hpieces

/-- A character with visible bytes is an ASCII character. -/
theorem toNat_of_visible {c : Char} (h : (ofChar c).all Byte.isVisible = true) :
    33 ≤ c.toNat ∧ c.toNat < 128 := by
  obtain ⟨b, hb⟩ := List.exists_mem_of_ne_nil _ (ofChar_ne_nil c)
  have hvisible := List.all_eq_true.1 h b hb
  have hascii := (stripped_visible b hvisible).1
  have hpieces := pieces_ofChar_append c []
  rw [ofChar_eq_singleton hascii hb, List.append_nil, pieces_ascii hascii] at hpieces
  obtain rfl := Piece.char.inj (List.cons.inj hpieces).1
  simp only [Byte.isVisible, Bool.and_eq_true, decide_eq_true_eq, UInt8.le_iff_toNat_le] at hvisible
  change 33 ≤ b.toNat ∧ b.toNat ≤ 126 at hvisible
  rw [Char.toNat_ofNat, if_pos (.inl (by omega))]
  omega

/-- What stands at the start of a text that does not start with an ASCII character. -/
theorem head_pieces {a : Byte} (ha : ¬ a < 0x80) (rest : Text) :
    ∃ p ps, pieces (a :: rest) = p :: ps ∧
      (p = .stray a ∨ ∃ n, 128 ≤ n ∧ p = .char (Char.ofNat n)) := by
  rw [Text.pieces.eq_def]
  simp only [if_neg ha]
  split
  · exact ⟨_, _, rfl, .inl rfl⟩
  split
  · next hpair =>
    have hlow := isPair_iff.1 hpair
    exact ⟨_, _, rfl, .inr ⟨_, by omega, rfl⟩⟩
  split
  · exact ⟨_, _, rfl, .inl rfl⟩
  split
  · next htriple =>
    have hlow := isTriple_iff.1 htriple
    have htail := isTail_iff.1 hlow.2.2.1
    refine ⟨_, _, rfl, .inr ⟨_, ?_, rfl⟩⟩
    rw [tailBits]
    omega
  split
  · exact ⟨_, _, rfl, .inl rfl⟩
  split
  · next hquadruple =>
    have hlow := isQuadruple_iff.1 hquadruple
    have htail := isTail_iff.1 hlow.2.2.1
    refine ⟨_, _, rfl, .inr ⟨_, ?_, rfl⟩⟩
    rw [tailBits]
    omega
  · exact ⟨_, _, rfl, .inl rfl⟩

theorem ofChar_ascii : ∀ b : Byte, b < 0x80 → ofChar (Char.ofNat b.toNat) = [b] := by
  decide +kernel

/-- A character that is no white space is kept. -/
theorem stripped_of_not_isSpace {c : Char} (h : isSpace c = false) :
    Piece.stripped (.char c) = ofChar c := if_neg (by simp [h])

/-- Where removing white space leaves visible characters there was nothing to replace, and where
there was no white space nothing has changed. -/
theorem SpaceFree.stripSpace_eq {text : Text} (h : text.SpaceFree)
    (hvisible : text.stripSpace.all Byte.isVisible = true) : text.stripSpace = text := by
  induction text with
  | nil => rw [stripSpace, Text.pieces.eq_def, List.flatMap_nil]
  | cons a rest ih =>
    unfold stripSpace at hvisible
    by_cases ha : a < 0x80
    · unfold SpaceFree at h
      rw [pieces_ascii ha] at h hvisible
      rw [List.flatMap_cons, List.all_append, Bool.and_eq_true] at hvisible
      rw [stripSpace, pieces_ascii ha, List.flatMap_cons,
        stripped_of_not_isSpace (h _ List.mem_cons_self), ofChar_ascii a ha]
      exact congrArg (a :: ·) (ih (fun c hc => h c (List.mem_cons_of_mem _ hc)) hvisible.2)
    · obtain ⟨p, ps, hpieces, hp⟩ := head_pieces ha rest
      rw [hpieces, List.flatMap_cons, List.all_append, Bool.and_eq_true] at hvisible
      rcases hp with rfl | ⟨n, hn, rfl⟩
      · exact absurd hvisible.1 (show ¬ List.all replacement Byte.isVisible = true by decide)
      · have hspace := h _ (hpieces ▸ List.mem_cons_self)
        have hlow := toNat_of_visible (stripped_of_not_isSpace hspace ▸ hvisible.1)
        rw [Char.toNat_ofNat] at hlow
        split at hlow <;> omega

end Text

end Sequitur
