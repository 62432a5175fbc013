import Mathlib
import Sequitur.Batch
import Sequitur.Proofs.Splitting

/-!
# The files below a directory

The files of a tree are found by their places, and a directory that is walked gives one path for
each file below it. The paths are different for different files
(`FileTree.WellFormed.nodup_walk`): what a directory puts in front of the components of a file
depends on the directory only (`Path.join_names`), and the components can be read off from the rest.
This needs that the components of files are names, which holds of every tree that is made from paths
(`FileTree.wellFormed_ofLists`).
-/

namespace Sequitur

/-! ## Paths below a directory -/

namespace Path

/-- A component that names a file or a directory. -/
structure IsName (c : Text) : Prop where
  ne_nil : c ≠ []
  ne_here : c ≠ here
  ne_up : c ≠ up
  no_slash : slash ∉ c

instance (c : Text) : Decidable (IsName c) :=
  decidable_of_iff (c ≠ [] ∧ c ≠ here ∧ c ≠ up ∧ slash ∉ c)
    ⟨fun ⟨hne, hhere, hup, hslash⟩ => ⟨hne, hhere, hup, hslash⟩,
      fun h => ⟨h.ne_nil, h.ne_here, h.ne_up, h.no_slash⟩⟩

/-- A name goes on top of the components before it. -/
theorem push_of_isName {c : Text} (h : IsName c) (rooted : Bool) (stack : List Text) :
    push rooted stack c = c :: stack := by
  simp [push, h.ne_nil, h.ne_here, h.ne_up]

/-- Names go on top of the components before them, one after the other. -/
theorem foldl_push_names {names : List Text} (h : ∀ c ∈ names, IsName c) (rooted : Bool)
    (stack : List Text) : names.foldl (push rooted) stack = names.reverse ++ stack := by
  induction names generalizing stack with
  | nil => rfl
  | cons c names ih =>
    obtain ⟨hc, hnames⟩ := List.forall_mem_cons.1 h
    rw [List.foldl_cons, push_of_isName hc, ih hnames, List.reverse_cons, List.append_assoc,
      List.singleton_append]

/-- Names that are joined by slashes are the components of the result. -/
theorem components_join_names {names : List Text} (hne : names ≠ [])
    (h : ∀ c ∈ names, IsName c) : components (Text.join [slash] names) = names :=
  Text.splitOn_join hne fun t ht => (h t ht).no_slash

/-- Names that are joined by slashes are no empty path. -/
theorem join_names_ne_nil {names : List Text} (hne : names ≠ []) (h : ∀ c ∈ names, IsName c) :
    Text.join [slash] names ≠ [] := by
  intro hnil
  have hcomponents := components_join_names hne h
  rw [hnil] at hcomponents
  exact (h [] (by rw [← hcomponents]; exact List.mem_cons_self)).ne_nil rfl

/-- The components of a directory when something is put behind it. -/
def stack (directory : Text) : List Text :=
  ((components directory).foldl (push (isRooted (directory ++ [slash]))) []).reverse

/-- What a directory puts in front of the names of a file below it. -/
def lead (directory : Text) : Text :=
  (if isRooted (directory ++ [slash]) then [slash] else []) ++
    if stack directory = [] then [] else Text.join [slash] (stack directory) ++ [slash]

/-- The path of a file below a directory. -/
theorem join_names (directory : Text) {names : List Text} (hne : names ≠ [])
    (hnames : ∀ c ∈ names, IsName c) :
    join directory (Text.join [slash] names) = lead directory ++ Text.join [slash] names := by
  have hrooted : isRooted (directory ++ slash :: Text.join [slash] names) =
      isRooted (directory ++ [slash]) := by
    cases directory <;> rfl
  have hstack : ((components (directory ++ slash :: Text.join [slash] names)).foldl
      (push (isRooted (directory ++ [slash]))) []).reverse = stack directory ++ names := by
    rw [components, Text.splitOn_append_cons, List.foldl_append, ← components, ← components,
      components_join_names hne hnames, foldl_push_names hnames, List.reverse_append,
      List.reverse_reverse, stack]
  have hbody : Text.join [slash] (stack directory ++ names) =
      (if stack directory = [] then [] else Text.join [slash] (stack directory) ++ [slash]) ++
        Text.join [slash] names := by
    split_ifs with hnil
    · rw [hnil, List.nil_append, List.nil_append]
    · rw [Text.join_append hnil hne, List.append_assoc]
  have hbody_ne : (Text.join [slash] (stack directory ++ names)).isEmpty = false := by
    rw [List.isEmpty_eq_false_iff, hbody]
    exact List.append_ne_nil_of_right_ne_nil _ (join_names_ne_nil hne hnames)
  rw [join, clean, hrooted, hstack, lead, hbody_ne, hbody]
  cases isRooted (directory ++ [slash]) <;> rfl

/-- Different files below a directory have different paths. -/
theorem join_names_inj {directory : Text} {names names' : List Text} (hne : names ≠ [])
    (hnames : ∀ c ∈ names, IsName c) (hne' : names' ≠ []) (hnames' : ∀ c ∈ names', IsName c)
    (h : join directory (Text.join [slash] names) = join directory (Text.join [slash] names')) :
    names = names' := by
  rw [join_names directory hne hnames, join_names directory hne' hnames', List.append_right_inj]
    at h
  rw [← components_join_names hne hnames, h, components_join_names hne' hnames']

/-- Dropping what stands before a byte leaves a text that starts with it. -/
theorem exists_dropWhile_eq_cons {b : Byte} {t : Text} (h : b ∈ t) :
    ∃ d, t.dropWhile (· != b) = b :: d := by
  induction t with
  | nil => cases h
  | cons c t ih =>
    by_cases hc : c = b
    · exact ⟨t, by rw [List.dropWhile_cons_of_neg (by simp [hc]), hc]⟩
    · rw [List.dropWhile_cons_of_pos (by simp [hc])]
      exact ih ((List.mem_cons.1 h).resolve_left (Ne.symm hc))

/-- A path has an extension exactly when it ends in it. -/
theorem extension_eq_iff {path e : Text} (hdot : 46 ∉ e) (hslash : slash ∉ e) :
    extension path = 46 :: e ↔ (46 :: e) <:+ path := by
  constructor
  · intro h
    unfold extension at h
    dsimp only at h
    split_ifs at h with hcontains
    obtain ⟨d, hd⟩ := exists_dropWhile_eq_cons (List.contains_iff_mem.1 hcontains)
    have hlast := List.takeWhile_append_dropWhile (p := (· != 46))
      (l := path.reverse.takeWhile (· != slash))
    rw [hd, List.reverse_eq_iff.1 (List.cons.inj h).2] at hlast
    rw [← List.reverse_prefix, List.reverse_cons]
    refine List.IsPrefix.trans ⟨d, ?_⟩ (List.takeWhile_prefix (· != slash))
    rw [List.append_assoc, List.singleton_append, hlast]
  · rintro ⟨q, rfl⟩
    have hlast : (q ++ 46 :: e).reverse.takeWhile (· != slash) =
        e.reverse ++ 46 :: q.reverse.takeWhile (· != slash) := by
      rw [List.reverse_append, List.reverse_cons, List.append_assoc, List.singleton_append,
        List.takeWhile_append_of_pos, List.takeWhile_cons_of_pos (by decide)]
      intro b hb
      rw [bne_iff_ne]
      rintro rfl
      exact hslash (List.mem_reverse.1 hb)
    have hname : (e.reverse ++ 46 :: q.reverse.takeWhile (· != slash)).takeWhile (· != 46) =
        e.reverse := by
      rw [List.takeWhile_append_of_pos, List.takeWhile_cons_of_neg (by decide), List.append_nil]
      intro b hb
      rw [bne_iff_ne]
      rintro rfl
      exact hdot (List.mem_reverse.1 hb)
    unfold extension
    dsimp only
    rw [hlast, hname, List.reverse_reverse, if_pos (by simp)]

end Path

/-! ## Trees -/

namespace FileTree

/-- A place: components that lead upward or to the root, and names after them. -/
def IsPlace (place : List Text) : Prop :=
  ∃ lead names, place = lead ++ names ∧ (∀ c ∈ lead, c = [] ∨ c = Path.up) ∧
    ∀ c ∈ names, Path.IsName c

/-- The places of the files of a tree. -/
def places (t : FileTree) : List (List Text) := t.files.map Prod.fst

/-- A tree whose files have places, each its own. -/
structure WellFormed (t : FileTree) : Prop where
  isPlace : ∀ p ∈ t.places, IsPlace p
  distinct : t.places.Nodup

/-- Components lead down when the first of them leads neither to the root nor upward. -/
theorem leadsDown_iff {rest : List Text} :
    leadsDown rest = true ↔ ∃ c cs, rest = c :: cs ∧ c ≠ [] ∧ c ≠ Path.up := by
  cases rest with
  | nil => simp [leadsDown]
  | cons c cs => simp [leadsDown]

/-- What leads down to a file is names only. -/
theorem IsPlace.isName_of_leadsDown {place rest : List Text} (h : IsPlace (place ++ rest))
    (hdown : leadsDown rest = true) : ∀ c ∈ rest, Path.IsName c := by
  obtain ⟨lead, names, heq, hlead, hnames⟩ := h
  obtain ⟨c, cs, rfl, hnil, hup⟩ := leadsDown_iff.1 hdown
  rcases List.append_eq_append_iff.1 heq with ⟨rest', rfl, hrest⟩ | ⟨names', rfl, rfl⟩
  · cases rest' with
    | nil =>
      rw [List.nil_append] at hrest
      exact hrest ▸ hnames
    | cons c' cs' =>
      obtain ⟨rfl, -⟩ := List.cons.inj hrest
      exact absurd (hlead c (by simp)) (by simp [hnil, hup])
  · exact fun d hd => hnames d (List.mem_append_right names' hd)

/-- What leads down from a directory to a place. -/
def restBelow (directory place : List Text) : Option (List Text) :=
  let rest := place.drop directory.length
  if directory.isPrefixOf place && leadsDown rest then some rest else none

/-- What leads down from a directory to a place is what is left behind the directory. -/
theorem restBelow_eq_some_iff {directory place rest : List Text} :
    restBelow directory place = some rest ↔ place = directory ++ rest ∧ leadsDown rest = true := by
  unfold restBelow
  dsimp only
  constructor
  · intro h
    split_ifs at h with hcond
    rw [Bool.and_eq_true, List.isPrefixOf_iff_prefix] at hcond
    obtain ⟨⟨rest', rfl⟩, hdown⟩ := hcond
    rw [List.drop_left] at h hdown
    obtain rfl := Option.some.inj h
    exact ⟨rfl, hdown⟩
  · rintro ⟨rfl, hdown⟩
    rw [List.drop_left, if_pos]
    rw [Bool.and_eq_true, List.isPrefixOf_iff_prefix]
    exact ⟨List.prefix_append directory rest, hdown⟩

section
variable {t : FileTree} {directory rest : List Text}

/-- The files below a directory are what leads down to the places of the tree, in order. -/
theorem below_eq (t : FileTree) (directory : List Text) :
    t.below directory = (t.places.filterMap (restBelow directory)).mergeSort before := by
  rw [places, List.filterMap_map]
  rfl

/-- A file is below a directory when the tree has its place and it leads down. -/
theorem mem_below_iff :
    rest ∈ t.below directory ↔ directory ++ rest ∈ t.places ∧ leadsDown rest = true := by
  rw [below_eq, List.mem_mergeSort, List.mem_filterMap]
  simp only [restBelow_eq_some_iff]
  constructor
  · rintro ⟨_, hmem, rfl, hdown⟩
    exact ⟨hmem, hdown⟩
  · rintro ⟨hmem, hdown⟩
    exact ⟨_, hmem, rfl, hdown⟩

/-- No file is listed twice below a directory. -/
theorem WellFormed.nodup_below (h : t.WellFormed) (directory : List Text) :
    (t.below directory).Nodup := by
  rw [below_eq, List.nodup_mergeSort]
  refine h.distinct.filterMap fun p p' rest hp hp' => ?_
  rw [(restBelow_eq_some_iff.1 hp).1, (restBelow_eq_some_iff.1 hp').1]

/-- What leads down to a file below a directory is names only. -/
theorem WellFormed.isName_of_mem_below (h : t.WellFormed) (hrest : rest ∈ t.below directory) :
    rest ≠ [] ∧ ∀ c ∈ rest, Path.IsName c := by
  obtain ⟨hmem, hdown⟩ := mem_below_iff.1 hrest
  have hnames := (h.isPlace _ hmem).isName_of_leadsDown hdown
  obtain ⟨c, cs, rfl, -, -⟩ := leadsDown_iff.1 hdown
  exact ⟨List.cons_ne_nil c cs, hnames⟩

/-- No file is found twice in a directory. -/
theorem WellFormed.nodup_walk (h : t.WellFormed) (path : Text) : (t.walk path).Nodup := by
  unfold walk
  cases t.locate path with
  | error fault => exact List.nodup_nil
  | ok directory =>
    refine (h.nodup_below directory).map_on fun rest hrest rest' hrest' heq => ?_
    obtain ⟨hne, hnames⟩ := h.isName_of_mem_below hrest
    obtain ⟨hne', hnames'⟩ := h.isName_of_mem_below hrest'
    exact Path.join_names_inj hne hnames hne' hnames' heq

end

/-! ## Trees that are made from paths -/

section
variable {p : List Text} {c : Text}

theorem isPlace_nil : IsPlace [] := ⟨[], [], rfl, by simp, by simp⟩

/-- A place below the root is a place. -/
theorem IsPlace.root_cons (h : IsPlace p) : IsPlace ([] :: p) := by
  obtain ⟨lead, names, rfl, hlead, hnames⟩ := h
  exact ⟨[] :: lead, names, rfl, List.forall_mem_cons.2 ⟨.inl rfl, hlead⟩, hnames⟩

/-- A name behind a place gives a place. -/
theorem IsPlace.append_name (h : IsPlace p) (hc : Path.IsName c) : IsPlace (p ++ [c]) := by
  obtain ⟨lead, names, rfl, hlead, hnames⟩ := h
  refine ⟨lead, names ++ [c], List.append_assoc lead names [c], hlead, fun d hd => ?_⟩
  rcases List.mem_append.1 hd with hd | hd
  · exact hnames d hd
  · exact List.mem_singleton.1 hd ▸ hc

/-- A place without its last component is a place. -/
theorem IsPlace.of_append (h : IsPlace (p ++ [c])) : IsPlace p := by
  obtain ⟨lead, names, heq, hlead, hnames⟩ := h
  rcases List.append_eq_append_iff.1 heq with ⟨rest, rfl, -⟩ | ⟨names', rfl, rfl⟩
  · exact ⟨p, [], (List.append_nil p).symm, fun d hd => hlead d (List.mem_append_left rest hd),
      by simp⟩
  · exact ⟨lead, names', rfl, hlead, fun d hd => hnames d (List.mem_append_left [c] hd)⟩

/-- Where the last component leads upward there are no names. -/
theorem IsPlace.append_up (h : IsPlace (p ++ [Path.up])) :
    IsPlace (p ++ [Path.up] ++ [Path.up]) := by
  obtain ⟨lead, names, heq, hlead, hnames⟩ := h
  rcases List.eq_nil_or_concat names with rfl | ⟨names', c, rfl⟩
  · rw [heq, List.append_nil]
    refine ⟨lead ++ [Path.up], [], (List.append_nil _).symm, fun d hd => ?_, by simp⟩
    rcases List.mem_append.1 hd with hd | hd
    · exact hlead d hd
    · exact .inr (List.mem_singleton.1 hd)
  · rw [List.concat_eq_append, ← List.append_assoc] at heq
    obtain ⟨-, hup⟩ := List.append_inj' heq rfl
    exact absurd (List.singleton_inj.1 hup).symm (hnames c (by simp)).ne_up

/-- One component more keeps a stack a place. -/
theorem isPlace_push {stack : List Text} (h : IsPlace stack.reverse) (rooted : Bool)
    (hc : Path.slash ∉ c) : IsPlace (Path.push rooted stack c).reverse := by
  unfold Path.push
  by_cases hskip : (c.isEmpty || c == Path.here) = true
  · rw [if_pos hskip]
    exact h
  · rw [if_neg hskip]
    by_cases hup : (c == Path.up) = true
    · rw [if_pos hup]
      cases stack with
      | nil =>
        cases rooted with
        | true => exact h
        | false => exact ⟨[Path.up], [], rfl, by simp, by simp⟩
      | cons last rest =>
        rw [List.reverse_cons] at h
        dsimp only
        split_ifs with hlast
        · rw [eq_of_beq hlast] at h ⊢
          rw [List.reverse_cons, List.reverse_cons]
          exact h.append_up
        · exact h.of_append
    · rw [if_neg hup, List.reverse_cons]
      simp only [Bool.or_eq_true, List.isEmpty_iff, beq_iff_eq, not_or] at hskip hup
      exact h.append_name ⟨hskip.1, hskip.2, hup, hc⟩

end

/-- Every path leads to a place. -/
theorem isPlace_place (path : Text) : IsPlace (place path) := by
  have hfold (cs : List Text) (hcs : ∀ c ∈ cs, Path.slash ∉ c) (stack : List Text)
      (hstack : IsPlace stack.reverse) (rooted : Bool) :
      IsPlace (cs.foldl (Path.push rooted) stack).reverse := by
    induction cs generalizing stack with
    | nil => exact hstack
    | cons c cs ih =>
      obtain ⟨hc, hcs⟩ := List.forall_mem_cons.1 hcs
      exact ih hcs _ (isPlace_push hstack rooted hc)
  have hplace := hfold (Path.components path) (fun c hc => Text.not_mem_of_mem_splitOn hc) []
    isPlace_nil (Path.isRooted path)
  unfold place
  dsimp only
  split_ifs
  · exact hplace.root_cons
  · exact hplace

section
variable {t : FileTree}

/-- Putting a file into a tree adds its place unless it is there. -/
theorem places_put (t : FileTree) (place : List Text) (content : Text) :
    (t.put place content).places = if place ∈ t.places then t.places else t.places ++ [place] := by
  have hany : t.files.any (·.1 == place) = true ↔ place ∈ t.places := by
    simp [places]
  unfold FileTree.put
  by_cases hmem : place ∈ t.places
  · rw [if_pos (hany.2 hmem), if_pos hmem, places, List.map_map]
    refine List.map_congr_left fun f _ => ?_
    dsimp only [Function.comp_apply]
    split_ifs with heq
    · exact (eq_of_beq heq).symm
    · rfl
  · rw [if_neg (mt hany.1 hmem), if_neg hmem, places, List.map_append]
    rfl

/-- Putting a file at a place keeps a tree well-formed. -/
theorem WellFormed.put (h : t.WellFormed) {place : List Text} (hplace : IsPlace place)
    (content : Text) : (t.put place content).WellFormed := by
  by_cases hmem : place ∈ t.places
  · have hplaces : (t.put place content).places = t.places := by rw [places_put, if_pos hmem]
    exact ⟨hplaces ▸ h.isPlace, hplaces ▸ h.distinct⟩
  · have hplaces : (t.put place content).places = t.places ++ [place] := by
      rw [places_put, if_neg hmem]
    refine ⟨fun p hp => ?_, ?_⟩
    · rw [hplaces, List.mem_append] at hp
      rcases hp with hp | hp
      · exact h.isPlace p hp
      · exact List.mem_singleton.1 hp ▸ hplace
    · rw [hplaces]
      exact h.distinct.append (List.nodup_singleton place) (by simpa using hmem)

/-- Adding directories leaves the files. -/
theorem files_addDirectories (t : FileTree) (place : List Text) :
    (t.addDirectories place).files = t.files := by
  unfold addDirectories
  generalize List.range place.length = ns
  induction ns generalizing t with
  | nil => rfl
  | cons n ns ih =>
    rw [List.foldl_cons, ih, addDirectory]
    split_ifs <;> rfl

/-- Adding directories keeps a tree well-formed. -/
theorem WellFormed.addDirectories (h : t.WellFormed) (place : List Text) :
    (t.addDirectories place).WellFormed := by
  have hplaces : (t.addDirectories place).places = t.places := by
    rw [places, files_addDirectories, places]
  exact ⟨hplaces ▸ h.isPlace, hplaces ▸ h.distinct⟩

/-- What keeps a tree well-formed once does so again and again. -/
theorem wellFormed_foldl {α : Type} {f : FileTree → α → FileTree}
    (hf : ∀ t a, t.WellFormed → (f t a).WellFormed) (h : t.WellFormed) (as : List α) :
    (as.foldl f t).WellFormed := by
  induction as generalizing t with
  | nil => exact h
  | cons a as ih => exact ih (hf t a h)

/-- Every tree that is made from paths is well-formed. -/
theorem wellFormed_ofLists (files : List (Text × Text)) (directories : List Text) :
    (ofLists files directories).WellFormed := by
  have hempty : ({} : FileTree).WellFormed := ⟨by simp [places], List.nodup_nil⟩
  have hdirectories := wellFormed_foldl (f := fun t d => t.addDirectories (place d))
    (fun t d h => h.addDirectories (place d)) hempty directories
  exact wellFormed_foldl (f := fun t (f : Text × Text) => t.putPath f.1 f.2)
    (fun t f h => (h.addDirectories _).put (isPlace_place f.1) f.2) hdirectories files

end

end FileTree

end Sequitur
