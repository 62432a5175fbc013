import Mathlib
import Sequitur.Sequent
import Sequitur.Proofs.Readability
import Sequitur.Proofs.Whitespace

/-!
# Sequents from formulas

A sequent put together from texts that are read as formulas is read again as those formulas
(`parse_format`). Removing white space goes through the separators, which are ASCII characters.
Splitting then passes over each text: the commas of a formula are inside the parentheses of argument
lists, its parentheses are balanced, and a bar in it is followed by the start of a conjunction and
not by a hyphen. This is an induction over derivations of the grammar (`Derives.passes`), with the
depth of parentheses at which the text stands.

The other way round, what splitting gives is put together as the text it came from, less its white
space (`format_of_split`), whatever the parts are. So splitting and putting together are inverse to
each other on texts without white space (`split_inverse_format`).
-/

namespace Sequitur

/-! ## Splitting passes over a formula -/

namespace Sequent

/-- Puts a text before the first part. -/
def prepend (s : Text) (r : List Text × Text) : List Text × Text := s.foldr prependByte r

theorem prepend_append (s t : Text) (r : List Text × Text) :
    prepend (s ++ t) r = prepend s (prepend t r) := List.foldr_append

/-- A text put before the first part lengthens that part. -/
theorem prepend_part (s part : Text) (parts : List Text) (goal : Text) :
    prepend s (part :: parts, goal) = ((s ++ part) :: parts, goal) := by
  induction s with
  | nil => rfl
  | cons b s ih =>
    show prependByte b (prepend s (part :: parts, goal)) = _
    rw [ih]
    rfl

/-- At this depth of parentheses the text has no comma and no turnstile to split at, and it does not
change the depth. -/
def Passes (d : Int) (s : Text) : Prop :=
  ∀ rest, splitFrom d (s ++ rest) = (splitFrom d rest).map (prepend s)

theorem passes_nil (d : Int) : Passes d [] := fun _ => Option.map_id_apply.symm

/-- Splitting passes over two texts in a row if it passes over each. -/
theorem Passes.append {d : Int} {s t : Text} (hs : Passes d s) (ht : Passes d t) :
    Passes d (s ++ t) := by
  intro rest
  rw [List.append_assoc, hs, ht, Option.map_map]
  exact congrArg (Option.map · _) (funext fun r => (prepend_append s t r).symm)

/-- One step of splitting, by the byte and the depth of parentheses. -/
theorem splitFrom_cons (d : Int) (b : Byte) (rest : Text) : splitFrom d (b :: rest) =
    if b = 40 then (splitFrom (d + 1) rest).map (prependByte b)
    else if b = 41 then (splitFrom (d - 1) rest).map (prependByte b)
    else if b = 44 ∧ d = 0 then
      (splitFrom d rest).map fun (parts, goal) => ([] :: parts, goal)
    else if b = 124 ∧ d = 0 then
      match rest with
      | 45 :: goal => some ([[]], goal)
      | _ => (splitFrom d rest).map (prependByte b)
    else (splitFrom d rest).map (prependByte b) := rfl

/-- A byte that is no parenthesis, comma or bar. -/
def isPlain (b : Byte) : Bool := b != 40 && b != 41 && b != 44 && b != 124

/-- Splitting passes over a plain byte. -/
theorem passes_plain {b : Byte} (hb : isPlain b = true) (d : Int) : Passes d [b] := by
  intro rest
  simp only [isPlain, Bool.and_eq_true, bne_iff_ne] at hb
  obtain ⟨⟨⟨h40, h41⟩, h44⟩, h124⟩ := hb
  rw [List.singleton_append, splitFrom_cons, if_neg h40, if_neg h41, if_neg fun h => h44 h.1,
    if_neg fun h => h124 h.1]
  rfl

/-- Splitting passes over plain bytes. -/
theorem passes_plain_all {s : Text} (hs : s.all isPlain = true) (d : Int) : Passes d s := by
  induction s with
  | nil => exact passes_nil d
  | cons b s ih =>
    rw [List.all_cons, Bool.and_eq_true] at hs
    exact (passes_plain hs.1 d).append (ih hs.2)

/-- Splitting passes over a comma inside parentheses. -/
theorem passes_comma {d : Int} (hd : d ≠ 0) : Passes d [44] := by
  intro rest
  rw [List.singleton_append, splitFrom_cons, if_neg (by decide), if_neg (by decide),
    if_neg fun h => hd h.2, if_neg (by simp)]
  rfl

/-- A bar is no turnstile where something other than a hyphen follows. -/
theorem Passes.bar {d : Int} {s : Text} {b : Byte} (hs : Passes d (b :: s)) (hb : b ≠ 45) :
    Passes d (124 :: b :: s) := by
  intro rest
  have hsplit : splitFrom d (124 :: (b :: s ++ rest)) =
      (splitFrom d (b :: s ++ rest)).map (prependByte 124) := by
    rw [splitFrom_cons, if_neg (by decide), if_neg (by decide), if_neg (by simp)]
    split
    · split
      · next heq => exact absurd (List.cons.inj heq).1 hb
      · rfl
    · rfl
  rw [List.cons_append, hsplit, hs, Option.map_map]
  rfl

/-- Splitting passes over parentheses if it passes over what is inside, one level deeper. -/
theorem Passes.parens {d : Int} {s : Text} (hs : Passes (d + 1) s) :
    Passes d (40 :: (s ++ [41])) := by
  intro rest
  have hclose : splitFrom (d + 1) (41 :: rest) = (splitFrom d rest).map (prependByte 41) := by
    rw [splitFrom_cons, if_neg (by decide), if_pos rfl, add_sub_cancel_right]
  rw [List.cons_append, List.append_assoc, splitFrom_cons, if_pos rfl, hs, List.singleton_append,
    hclose, Option.map_map, Option.map_map]
  refine congrArg (Option.map · _) (funext fun r => ?_)
  show prependByte 40 (prepend s (prepend [41] r)) = prepend ([40] ++ (s ++ [41])) r
  rw [prepend_append, prepend_append]
  rfl

end Sequent

/-! ## The text of a phrase -/

namespace Token

theorem spell_cons (t : Token) (ts : List Token) : spell (t :: ts) = t.text ++ spell ts :=
  List.flatMap_cons

theorem spell_append (ts us : List Token) : spell (ts ++ us) = spell ts ++ spell us :=
  List.flatMap_append

/-- No byte of a text is lost in its tokens. -/
theorem spell_scan (text : Text) : spell (scan text) = text := by
  obtain ⟨ts, hts⟩ := exists_lexes text
  rw [← hts.eq_scan]
  induction hts with
  | nil => rfl
  | ident _ _ _ _ ih | arrow _ ih | byte _ _ _ ih =>
    rw [spell_cons, ih]
    rfl

end Token

namespace Grammar

open Sequent Token

/-- No phrase starts with a hyphen. -/
theorem Derives.spell_head {p : Phrase} {ts : List Token} (h : Derives p ts) (hn : Named ts) :
    ∃ b s, spell ts = b :: s ∧ b ≠ 45 := by
  have hident {x : Text} {ts : List Token} (hn : Named (.ident x :: ts)) :
      ∃ b s, spell (.ident x :: ts) = b :: s ∧ b ≠ 45 := by
    obtain ⟨b, digits, rfl, hb, -⟩ := Text.isIdent_iff.1 (hn x (by simp))
    refine ⟨b, digits ++ spell ts, spell_cons _ _, ?_⟩
    rintro rfl
    exact absurd hb (by decide)
  induction h with
  | disj _ ih | conj _ ih | unary _ ih | quantified _ ih | predicate _ ih | add _ ih | mul _ ih
  | inc _ ih | primary _ ih | lastArg _ ih => exact ih hn
  | implies _ _ ih | or _ _ ih | and _ _ ih | equals _ _ ih | plus _ _ ih | times _ _ ih
  | arg _ _ ih | successor _ ih =>
    obtain ⟨b, s, hs, hb⟩ := ih hn.left
    rw [spell_append, hs]
    exact ⟨b, _, rfl, hb⟩
  | letter | var | applied | function => exact hident hn
  | negation | parens | group | forAll | exist | zero => exact ⟨_, _, rfl, by decide⟩

/-- No token of a derivation has white space in it. -/
theorem Derives.visible {p : Phrase} {ts : List Token} (h : Derives p ts) (hn : Named ts) :
    ∀ t ∈ ts, t.text.all Byte.isVisible = true := by
  have hident {x : Text} {us : List Token} (hn : Named (.ident x :: us)) :
      (Token.ident x).text.all Byte.isVisible = true :=
    Text.isIdent_visible (hn x List.mem_cons_self)
  have hclose : ∀ t ∈ [Token.rparen], t.text.all Byte.isVisible = true :=
    List.forall_mem_singleton.2 rfl
  induction h with
  | disj _ ih | conj _ ih | unary _ ih | quantified _ ih | predicate _ ih | add _ ih | mul _ ih
  | inc _ ih | primary _ ih | lastArg _ ih => exact ih hn
  | implies _ _ ih₁ ih₂ | or _ _ ih₁ ih₂ | and _ _ ih₁ ih₂ | equals _ _ ih₁ ih₂ | plus _ _ ih₁ ih₂
  | times _ _ ih₁ ih₂ | arg _ _ ih₁ ih₂ =>
    exact List.forall_mem_append.2
      ⟨ih₁ hn.left, List.forall_mem_cons.2 ⟨rfl, ih₂ hn.right⟩⟩
  | successor _ ih =>
    exact List.forall_mem_append.2 ⟨ih hn.left, List.forall_mem_singleton.2 rfl⟩
  | negation _ ih => exact List.forall_mem_cons.2 ⟨rfl, ih hn.tail⟩
  | parens _ ih | group _ ih =>
    exact List.forall_mem_cons.2 ⟨rfl, List.forall_mem_append.2 ⟨ih hn.tail.left, hclose⟩⟩
  | forAll _ _ ih | exist _ _ ih =>
    exact List.forall_mem_cons.2 ⟨rfl, List.forall_mem_cons.2 ⟨hident hn.tail, ih hn.tail.tail⟩⟩
  | letter | var => exact List.forall_mem_singleton.2 (hident hn)
  | applied _ _ ih | function _ _ ih =>
    exact List.forall_mem_cons.2 ⟨hident hn, List.forall_mem_cons.2 ⟨rfl,
      List.forall_mem_append.2 ⟨ih hn.tail.tail.left, hclose⟩⟩⟩
  | zero => exact List.forall_mem_singleton.2 rfl

/-- A text whose tokens are a phrase has no white space in it. -/
theorem Derives.visible_text {p : Phrase} {text : Text} (h : Derives p (scan text)) :
    text.all Byte.isVisible = true := by
  rw [← spell_scan text, spell, List.all_flatMap, List.all_eq_true]
  exact h.visible (named_scan text)

/-- The fewest parentheses a phrase stands in: arguments are always inside some. -/
def Phrase.depth : Phrase → Int
  | .args _ => 1
  | _ => 0

/-- Splitting passes over a name. -/
theorem passes_ident {x : Text} {ts : List Token} (hn : Named (.ident x :: ts)) (d : Int) :
    Passes d x := by
  refine passes_plain_all (List.all_eq_true.2 fun b hb => ?_) d
  obtain ⟨c, digits, rfl, hc, hd⟩ := Text.isIdent_iff.1 (hn x (by simp))
  have hclass : Byte.isLetter b = true ∨ Byte.isDigit b = true := by
    rcases List.mem_cons.1 hb with rfl | hb
    · exact .inl hc
    · exact .inr (hd b hb)
  grind [isPlain, Byte.isLetter, Byte.isUpper, Byte.isLower, Byte.isDigit]

/-- Splitting passes over the text of a phrase, wherever the phrase can stand. -/
theorem Derives.passes {p : Phrase} {ts : List Token} (h : Derives p ts) (hn : Named ts) {d : Int}
    (hd : p.depth ≤ d) : Passes d (spell ts) := by
  induction h generalizing d with
  | disj _ ih | conj _ ih | unary _ ih | quantified _ ih | predicate _ ih | add _ ih | mul _ ih
  | inc _ ih | primary _ ih => exact ih hn hd
  | lastArg _ ih => exact ih hn (zero_le_one.trans hd)
  | implies _ _ ih₁ ih₂ | and _ _ ih₁ ih₂ | equals _ _ ih₁ ih₂ | plus _ _ ih₁ ih₂
  | times _ _ ih₁ ih₂ =>
    rw [spell_append, spell_cons]
    exact (ih₁ hn.left hd).append ((passes_plain_all rfl d).append (ih₂ hn.right hd))
  | or _ h₂ ih₁ ih₂ =>
    -- the text of a conjunction does not make a turnstile of the bar before it
    obtain ⟨b, s, hs, hb⟩ := h₂.spell_head hn.right
    have hbar := (hs ▸ ih₂ hn.right hd).bar hb
    rw [spell_append, spell_cons, hs]
    exact (ih₁ hn.left hd).append hbar
  | arg _ _ ih₁ ih₂ =>
    have hd' : (1 : Int) ≤ d := hd
    rw [spell_append, spell_cons]
    exact (ih₁ hn.left (zero_le_one.trans hd)).append
      ((passes_comma (by omega)).append (ih₂ hn.right hd))
  | negation _ ih =>
    rw [spell_cons]
    exact (passes_plain_all rfl d).append (ih hn.tail hd)
  | forAll _ _ ih | exist _ _ ih =>
    rw [spell_cons, spell_cons]
    exact (passes_plain_all rfl d).append
      ((passes_ident hn.tail d).append (ih hn.tail.tail hd))
  | letter | var =>
    rw [spell_cons]
    exact (passes_ident hn d).append (passes_nil d)
  | zero => exact passes_plain rfl d
  | successor _ ih =>
    rw [spell_append]
    exact (ih hn.left hd).append (passes_plain rfl d)
  | parens _ ih | group _ ih =>
    rw [spell_cons, spell_append]
    exact (ih hn.tail.left (hd.trans (by omega))).parens
  | applied _ _ ih | function _ _ ih =>
    have hd' : (0 : Int) ≤ d := hd
    rw [spell_cons, spell_cons, spell_append]
    exact (passes_ident hn d).append
      (ih hn.tail.tail.left (show (1 : Int) ≤ d + 1 by omega)).parens

end Grammar

/-! ## Reading a sequent that was put together -/

namespace Text

variable {text : Text} {e : Expr}

/-- White space does not matter to reading. -/
theorem parseFormula_stripSpace (h : text.parseFormula = .ok e) :
    text.stripSpace.parseFormula = .ok e := by
  rw [Grammar.parseFormula_eq_ok_iff, stripSpace_stripSpace]
  exact Grammar.parseFormula_eq_ok_iff.1 h

/-- Splitting passes over a text that is read as a formula. -/
theorem passes_of_parseFormula (h : text.parseFormula = .ok e) :
    Sequent.Passes 0 text.stripSpace := by
  rw [← Token.spell_scan text.stripSpace]
  exact (Grammar.parseFormula_eq_ok_iff.1 h).passes (Token.named_scan _) le_rfl

/-- A text without white space is read as it stands. -/
theorem SpaceFree.stripSpace_of_parseFormula (hs : text.SpaceFree) (h : text.parseFormula = .ok e) :
    text.stripSpace = text :=
  hs.stripSpace_eq (Grammar.parseFormula_eq_ok_iff.1 h).visible_text

/-- A text that is read as a formula is not blank. -/
theorem stripSpace_ne_nil (h : text.parseFormula = .ok e) : text.stripSpace ≠ [] := by
  intro hnil
  have hpos := (Grammar.parseFormula_eq_ok_iff.1 h).length_pos
  rw [hnil] at hpos
  exact absurd hpos (by decide)

end Text

/-- The formula of a statement is what its text says. -/
def Statement.IsRead (s : Statement) : Prop := s.text.parseFormula = .ok s.formula

/-- A statement whose text has no white space. -/
def Statement.stripped (s : Statement) : Statement := ⟨s.text.stripSpace, s.formula⟩

theorem Statement.IsRead.isFormula {s : Statement} (h : s.IsRead) : s.formula.IsFormula :=
  Text.isFormula_of_parseFormula h

namespace Sequent

/-- Reading a statement keeps its text with the formula. -/
theorem isRead_of_readStatement {text : Text} {s : Statement} (h : readStatement text = .ok s) :
    s.text = text ∧ s.IsRead := by
  unfold readStatement at h
  split at h
  · next e he =>
    cases h
    exact ⟨rfl, he⟩
  · cases h

/-- What a sequent that was read comes from: the parts of its text. -/
theorem parse_eq_ok {text : Text} {s : Sequent} (h : parse text = .ok s) :
    ∃ parts goal, split text = .ok (parts, goal) ∧
      (∀ t ∈ s.hypotheses, t.text ∈ parts ∧ t.IsRead) ∧ s.goal.text = goal ∧ s.goal.IsRead := by
  obtain ⟨⟨parts, goal⟩, hsplit, h⟩ := Grammar.bind_eq_ok.1 h
  obtain ⟨hyps, hhyps, h⟩ := Grammar.bind_eq_ok.1 h
  obtain ⟨g, hg, h⟩ := Grammar.bind_eq_ok.1 h
  cases h
  refine ⟨parts, goal, hsplit, fun t ht => ?_, isRead_of_readStatement hg⟩
  obtain ⟨part, hpart, hpartRead⟩ := Grammar.exists_of_mapM hhyps t ht
  obtain ⟨htext, hread⟩ := isRead_of_readStatement hpartRead
  exact ⟨htext ▸ hpart, hread⟩

/-- The statements of a sequent that was read are read from their texts. -/
theorem isRead_of_parse {text : Text} {s : Sequent} (h : parse text = .ok s) :
    (∀ t ∈ s.hypotheses, t.IsRead) ∧ s.goal.IsRead := by
  obtain ⟨parts, goal, -, hhyps, -, hgoal⟩ := parse_eq_ok h
  exact ⟨fun t ht => (hhyps t ht).2, hgoal⟩

/-- What stands behind the turnstile is the goal. -/
theorem splitFrom_turnstile (goal : Text) :
    splitFrom 0 (124 :: 45 :: goal) = some ([[]], goal) := rfl

/-- Splitting finds the parts that were joined, when none of them has a place to split at. -/
theorem splitFrom_join {t : Text} {ts : List Text} (h : ∀ u ∈ t :: ts, Passes 0 u) (goal : Text) :
    splitFrom 0 (Text.join [44] (t :: ts) ++ 124 :: 45 :: goal) = some (t :: ts, goal) := by
  induction ts generalizing t with
  | nil =>
    rw [show Text.join [44] [t] = t by simp [Text.join], h t (by simp), splitFrom_turnstile,
      Option.map_some, prepend_part, List.append_nil]
  | cons u ts ih =>
    have hcomma : splitFrom 0 (44 :: (Text.join [44] (u :: ts) ++ 124 :: 45 :: goal)) =
        some ([] :: u :: ts, goal) := by
      rw [splitFrom_cons, if_neg (by decide), if_neg (by decide), if_pos ⟨rfl, rfl⟩,
        ih fun v hv => h v (List.mem_cons_of_mem t hv)]
      rfl
    rw [Text.join_cons_cons, List.append_assoc, h t (by simp), List.singleton_append,
      List.cons_append, hcomma, Option.map_some, prepend_part, List.append_nil]

/-- Removing white space from a sequent is removing it from its parts. -/
theorem stripSpace_format (hyps : List Text) (goal : Text) :
    (format hyps goal).stripSpace =
      Text.join [44] (hyps.map Text.stripSpace) ++ 124 :: 45 :: goal.stripSpace := by
  have hformat : format hyps goal = Text.join [44] hyps ++ 124 :: ([] ++ 45 :: goal) :=
    List.append_assoc _ [124, 45] goal
  rw [hformat, Text.stripSpace_append (by decide), Text.stripSpace_append (by decide),
    Text.stripSpace_join (by decide)]
  simp [Text.stripSpace, Text.pieces_nil]

/-- A sequent is split into the texts it was put together from. -/
theorem split_format {hyps : List Statement} (hh : ∀ s ∈ hyps, s.IsRead) (goal : Text) :
    split (format (hyps.map Statement.text) goal) =
      .ok (hyps.map fun s => s.text.stripSpace, goal.stripSpace) := by
  unfold split
  rw [stripSpace_format, List.map_map]
  cases hyps with
  | nil => rw [show Text.join [44] _ = [] from rfl, List.nil_append, splitFrom_turnstile]; rfl
  | cons s hyps =>
    have hpasses : ∀ u ∈ s.text.stripSpace :: hyps.map (Text.stripSpace ∘ Statement.text),
        Passes 0 u := by
      intro u hu
      rw [show s.text.stripSpace :: _ = (s :: hyps).map (Text.stripSpace ∘ Statement.text) from rfl,
        List.mem_map] at hu
      obtain ⟨v, hv, rfl⟩ := hu
      exact Text.passes_of_parseFormula (hh v hv)
    have hne : s.text.stripSpace ≠ [] := Text.stripSpace_ne_nil (hh s (by simp))
    rw [List.map_cons, Function.comp_apply, splitFrom_join hpasses]
    dsimp only
    rw [if_neg fun heq => hne (List.cons.inj heq).1]
    rfl

/-- A statement is read again from its text without white space. -/
theorem readStatement_stripSpace {s : Statement} (h : s.IsRead) :
    readStatement s.text.stripSpace = .ok s.stripped := by
  unfold readStatement
  rw [Text.parseFormula_stripSpace h]
  rfl

/-- Statements are read again from their texts without white space. -/
theorem mapM_readStatement {ss : List Statement} (h : ∀ s ∈ ss, s.IsRead) :
    (ss.map fun s => s.text.stripSpace).mapM readStatement = .ok (ss.map Statement.stripped) := by
  induction ss with
  | nil => rfl
  | cons s ss ih =>
    rw [List.map_cons, List.mapM_cons, readStatement_stripSpace (h s (by simp)),
      ih fun t ht => h t (List.mem_cons_of_mem s ht)]
    rfl

/-- A sequent put together from statements is read as these statements. -/
theorem parse_format {hyps : List Statement} {goal : Statement} (hh : ∀ s ∈ hyps, s.IsRead)
    (hg : goal.IsRead) : parse (format (hyps.map Statement.text) goal.text) =
      .ok ⟨hyps.map Statement.stripped, goal.stripped⟩ := by
  unfold parse
  rw [split_format hh]
  show (do
    let hs ← (hyps.map fun s : Statement => s.text.stripSpace).mapM readStatement
    let g ← readStatement goal.text.stripSpace
    return (⟨hs, g⟩ : Sequent)) = _
  rw [mapM_readStatement hh, readStatement_stripSpace hg]
  rfl

/-! ## The texts of a sequent that was read -/

/-- A sequent with one hypothesis. -/
theorem format_singleton (part goal : Text) : format [part] goal = part ++ 124 :: 45 :: goal := by
  rw [format, show Text.join "," [part] = part by simp [Text.join], List.append_assoc]
  rfl

/-- One hypothesis more, with a comma behind it. -/
theorem format_cons (part : Text) {parts : List Text} (h : parts ≠ []) (goal : Text) :
    format (part :: parts) goal = part ++ 44 :: format parts goal := by
  obtain ⟨next, parts, rfl⟩ := List.exists_cons_of_ne_nil h
  unfold format
  rw [show Text.join "," (part :: next :: parts) = _ from Text.join_cons_cons [44] part next parts]
  simp only [List.append_assoc]
  rfl

/-- A byte put before the first part stands before the whole sequent. -/
theorem format_prependByte (b : Byte) {parts : List Text × Text} (h : parts.1 ≠ []) :
    format (prependByte b parts).1 (prependByte b parts).2 = b :: format parts.1 parts.2 := by
  obtain ⟨parts, goal⟩ := parts
  obtain ⟨part, parts, rfl⟩ := List.exists_cons_of_ne_nil h
  by_cases hne : parts = []
  · subst hne
    rw [format_singleton]
    exact format_singleton (b :: part) goal
  · exact (format_cons (b :: part) hne goal).trans (by rw [format_cons part hne]; rfl)

/-- Splitting loses nothing. -/
theorem format_of_splitFrom {text : Text} {d : Int} {parts : List Text × Text}
    (h : splitFrom d text = some parts) : parts.1 ≠ [] ∧ format parts.1 parts.2 = text := by
  induction text generalizing d parts with
  | nil => cases h
  | cons b rest ih =>
    -- every byte is put before the first part, but for the separators
    have hbyte {d : Int} (h : (splitFrom d rest).map (prependByte b) = some parts) :
        parts.1 ≠ [] ∧ format parts.1 parts.2 = b :: rest := by
      obtain ⟨parts', hparts, rfl⟩ := Option.map_eq_some_iff.1 h
      obtain ⟨hne, hformat⟩ := ih hparts
      refine ⟨?_, by rw [format_prependByte b hne, hformat]⟩
      obtain ⟨_ | ⟨part, more⟩, goal⟩ := parts' <;> exact List.cons_ne_nil _ _
    rw [splitFrom_cons] at h
    split_ifs at h with hopen hclose hcomma hbar
    · exact hbyte h
    · exact hbyte h
    · obtain ⟨⟨parts', goal⟩, hparts, rfl⟩ := Option.map_eq_some_iff.1 h
      obtain ⟨hne, hformat⟩ := ih hparts
      exact ⟨List.cons_ne_nil _ _, by rw [format_cons [] hne, hformat, hcomma.1]; rfl⟩
    · split at h
      · cases h
        exact ⟨List.cons_ne_nil _ _, by rw [format_singleton, hbar.1]; rfl⟩
      · exact hbyte h
    · exact hbyte h

/-- The parts of a text put together again are the text without white space. -/
theorem format_of_split {text : Text} {parts : List Text} {goal : Text}
    (h : split text = .ok (parts, goal)) : format parts goal = text.stripSpace := by
  unfold split at h
  split at h
  · cases h
  · next parts' goal' hsplit =>
    cases h
    rw [← (format_of_splitFrom hsplit).2]
    split_ifs with hempty
    · rw [hempty, format_singleton]; rfl
    · rfl

/-- A sequent is stripped exactly when its parts are. -/
theorem stripped_format_iff {parts : List Text} {goal : Text} :
    (format parts goal).Stripped ↔ (∀ part ∈ parts, part.Stripped) ∧ goal.Stripped := by
  have hturnstile (s : Text) : (s ++ 124 :: 45 :: goal).Stripped ↔ s.Stripped ∧ goal.Stripped := by
    rw [Text.stripped_append_iff (by decide), ← List.nil_append (45 :: goal),
      Text.stripped_append_iff (by decide)]
    simp [Text.stripped_nil]
  induction parts with
  | nil =>
    refine (hturnstile []).trans (and_congr_left' ?_)
    simp [Text.stripped_nil]
  | cons part parts ih =>
    by_cases hne : parts = []
    · subst hne
      rw [format_singleton, hturnstile, List.forall_mem_singleton]
    · rw [format_cons part hne, Text.stripped_append_iff (by decide), List.forall_mem_cons,
        and_assoc]
      exact and_congr_right' ih

/-- The texts of the statements that are read from a sequent have no white space. -/
theorem stripped_of_parse {text : Text} {s : Sequent} (h : parse text = .ok s) :
    (∀ t ∈ s.hypotheses, t.text.Stripped) ∧ s.goal.text.Stripped := by
  obtain ⟨parts, goal, hsplit, hhyps, rfl, -⟩ := parse_eq_ok h
  have hformat : (format parts s.goal.text).Stripped :=
    format_of_split hsplit ▸ Text.stripped_stripSpace text
  obtain ⟨hparts, hgoal⟩ := stripped_format_iff.1 hformat
  exact ⟨fun t ht => hparts t.text (hhyps t ht).1, hgoal⟩

/-! ## Splitting and putting together -/

/-- Splitting and putting together are inverse. Whatever a text is split into is put together to the
text without white space. Hypotheses and a goal that are read from texts without white space are
put together to a text that is split into just these texts, and that is read as just these
statements. -/
theorem split_inverse_format :
    (∀ (text : Text) (parts : List Text) (goal : Text), split text = .ok (parts, goal) →
        format parts goal = text.stripSpace) ∧
      ∀ (hyps : List Statement) (goal : Statement),
        (∀ s ∈ goal :: hyps, s.text.SpaceFree ∧ s.IsRead) →
        split (format (hyps.map Statement.text) goal.text) =
            .ok (hyps.map Statement.text, goal.text) ∧
          parse (format (hyps.map Statement.text) goal.text) = .ok ⟨hyps, goal⟩ := by
  refine ⟨fun text parts goal h => format_of_split h, fun hyps goal h => ?_⟩
  have htext : ∀ s ∈ goal :: hyps, s.text.stripSpace = s.text := fun s hs =>
    (h s hs).1.stripSpace_of_parseFormula (h s hs).2
  have hstripped : ∀ s ∈ goal :: hyps, s.stripped = s := fun s hs =>
    congrArg (Statement.mk · s.formula) (htext s hs)
  obtain ⟨hgoal, hhyps⟩ := List.forall_mem_cons.1 fun s hs => (h s hs).2
  constructor
  · rw [split_format hhyps, htext goal List.mem_cons_self]
    rw [List.map_congr_left fun s hs => htext s (List.mem_cons_of_mem goal hs)]
  · rw [parse_format hhyps hgoal, hstripped goal List.mem_cons_self]
    rw [List.map_congr_left fun s hs => hstripped s (List.mem_cons_of_mem goal hs), List.map_id']

/-- Bars and a comma inside the parts, next to the signs between them. -/
theorem split_inverse_format_disjunction :
    split "P(x,0)|A,x=y|-B|A" = .ok (["P(x,0)|A", "x=y"], "B|A") ∧
      parse "P(x,0)|A,x=y|-B|A" =
        .ok ⟨[⟨"P(x,0)|A", .or (.predicate "P" [.var "x", .zero]) (.predicate "A" [])⟩,
          ⟨"x=y", .equals (.var "x") (.var "y")⟩],
          ⟨"B|A", .or (.predicate "B" []) (.predicate "A" [])⟩⟩ := by
  have hformat : format ["P(x,0)|A", "x=y"] "B|A" = Text.ofString "P(x,0)|A,x=y|-B|A" := by cbv
  have hfree (text : Text) (h : text.all Byte.isVisible = true) : text.SpaceFree :=
    (Text.stripped_of_visible h).spaceFree
  rw [← hformat]
  refine split_inverse_format.2
    [⟨"P(x,0)|A", .or (.predicate "P" [.var "x", .zero]) (.predicate "A" [])⟩,
      ⟨"x=y", .equals (.var "x") (.var "y")⟩]
    ⟨"B|A", .or (.predicate "B" []) (.predicate "A" [])⟩ ?_
  intro s hs
  simp only [List.mem_cons, List.not_mem_nil, or_false] at hs
  rcases hs with rfl | rfl | rfl
  · exact ⟨hfree _ (by decide), by unfold Statement.IsRead; cbv⟩
  · exact ⟨hfree _ (by decide), by unfold Statement.IsRead; cbv⟩
  · exact ⟨hfree _ (by decide), by unfold Statement.IsRead; cbv⟩

end Sequent

end Sequitur
