import Mathlib
import Sequitur.Proofs.Paths
import Sequitur.Proofs.Steps

/-!
# The order in which reports arrive does not show

The files of a directory are checked by workers that finish in any order, and each appends its
report to a shared list (`Workers.Step`). Whatever the order, no report is lost and none comes twice
(`Workers.perm_of_leaves`), so that the shared list is an `Arrival`. When all paths have been
checked the reports are sorted by file, and what comes out is always the same
(`Batch.reports_independent_of_arrival`).

Two facts carry this. Sorting is stable, so that for each file the reports on it keep their order
(`Batch.filter_sort`), and a sorted list is determined by these (`Batch.eq_of_filter_eq`). And one
path gives at most one report on a file, whatever the arrival, since a walk finds every file once
(`Batch.exists_path_eq_ok`).
-/

namespace Sequitur

namespace Batch

/-- The report on a file of a directory, where `result` is what checking a file gives. -/
def reportBy (result : Text → Except CheckError Report) (file : Text) : Report :=
  report file (result file)

/-- What the report on a file of a directory is: the one that checking the file gives, or one that
has nothing but the file and the reason why it cannot be checked. -/
inductive ReportOn (result : Text → Except CheckError Report) (file : Text) : Report → Prop
  | checked {r : Report} : result file = .ok r → ReportOn result file r
  | failed {e : CheckError} : result file = .error e →
      ReportOn result file ⟨file, [], .failed e.message⟩

/-- There is one such report, and it is the one that is made. -/
theorem reportOn_iff {result : Text → Except CheckError Report} {file : Text} {r : Report} :
    ReportOn result file r ↔ r = reportBy result file := by
  unfold reportBy
  constructor
  · rintro (h | h)
    · rw [h, report]
    · rw [h, report, Report.failure]
  · rintro rfl
    cases h : result file with
    | ok r => exact .checked h
    | error e => exact .failed h

end Batch

/-! ## Workers -/

/-- The workers on a directory: the files that wait, those that are being checked, and the reports
so far. -/
structure Workers where
  waiting : List Text
  running : List Text
  reports : List Report

namespace Workers

variable {capacity : Nat} {result : Text → Except CheckError Report}

/-- A worker takes the next file, as long as there are fewer than `capacity` of them, or one that is
done appends its report. -/
inductive Step (capacity : Nat) (result : Text → Except CheckError Report) :
    Workers → Workers → Prop
  | take {file waiting running reports} : running.length < capacity →
      Step capacity result ⟨file :: waiting, running, reports⟩ ⟨waiting, running ++ [file], reports⟩
  | finish {file waiting before after reports r} : Batch.ReportOn result file r →
      Step capacity result ⟨waiting, before ++ file :: after, reports⟩
        ⟨waiting, before ++ after, reports ++ [r]⟩

/-- From the files of a directory the workers come to an end with these reports. -/
def Leaves (capacity : Nat) (result : Text → Except CheckError Report) (files : List Text)
    (reports : List Report) : Prop :=
  Relation.ReflTransGen (Step capacity result) ⟨files, [], []⟩ ⟨[], [], reports⟩

/-- The reports so far and those to come. -/
def allReports (result : Text → Except CheckError Report) (w : Workers) : List Report :=
  w.reports ++ (w.running ++ w.waiting).map (Batch.reportBy result)

/-- A step moves a report from those to come to those so far, and loses none. -/
theorem Step.perm {w w' : Workers} (h : Step capacity result w w') :
    (w'.allReports result).Perm (w.allReports result) := by
  cases h with
  | take => simp [allReports]
  | @finish file waiting before after reports r hr =>
    obtain rfl := Batch.reportOn_iff.1 hr
    simp only [allReports, List.map_append, List.map_cons, List.append_assoc, List.cons_append,
      List.nil_append]
    exact List.perm_middle.symm.append_left reports

/-- The workers leave one report for each file. -/
theorem perm_of_leaves {files : List Text} {reports : List Report}
    (h : Leaves capacity result files reports) :
    reports.Perm (files.map (Batch.reportBy result)) := by
  have hrun (w : Workers) (h : Relation.ReflTransGen (Step capacity result) ⟨files, [], []⟩ w) :
      (w.allReports result).Perm (files.map (Batch.reportBy result)) := by
    induction h with
    | refl => simp [allReports]
    | tail _ hstep ih => exact hstep.perm.trans ih
  simpa [allReports] using hrun _ h

/-- One file after the other can be checked, however many workers there are. -/
theorem leaves_inTurn (hcapacity : 0 < capacity) (files : List Text) :
    Leaves capacity result files (files.map (Batch.reportBy result)) := by
  have hrun (reports : List Report) : Relation.ReflTransGen (Step capacity result)
      ⟨files, [], reports⟩ ⟨[], [], reports ++ files.map (Batch.reportBy result)⟩ := by
    induction files generalizing reports with
    | nil => rw [List.map_nil, List.append_nil]
    | cons file files ih =>
      have htake : Step capacity result ⟨file :: files, [], reports⟩
        ⟨files, [] ++ file :: [], reports⟩ := .take hcapacity
      have hrest := ih (reports ++ [Batch.reportBy result file])
      rw [List.append_assoc, List.singleton_append] at hrest
      exact .head htake (.head (.finish (Batch.reportOn_iff.2 rfl)) hrest)
  exact hrun []

end Workers

/-- Every rearrangement of reports is an arrival. -/
theorem Arrival.exists_of_perm {rs rs' : List Report} (h : rs'.Perm rs) :
    ∃ a : Arrival, a.arrange rs = rs' := by
  classical
  refine ⟨⟨fun l => if l = rs then rs' else l, fun l => ?_⟩, if_pos rfl⟩
  split_ifs with heq
  · exact heq ▸ h
  · exact .refl l

namespace Batch

/-! ## Sorting -/

section
variable {l l' : List Report}

/-- The order of reports by their files is transitive. -/
theorem le_trans_file (a b c : Report) (hab : Text.le a.file b.file = true)
    (hbc : Text.le b.file c.file = true) : Text.le a.file c.file = true := by
  simp only [Text.le, decide_eq_true_eq] at hab hbc ⊢
  exact List.le_trans hab hbc

/-- The order of reports by their files is total. -/
theorem le_total_file (a b : Report) :
    (Text.le a.file b.file || Text.le b.file a.file) = true := by
  simp only [Text.le, Bool.or_eq_true, decide_eq_true_eq]
  exact List.le_total a.file b.file

/-- Sorted reports go up in their files. -/
theorem sorted_sort (l : List Report) : (sort l).Pairwise fun a b => a.file ≤ b.file := by
  have h := List.pairwise_mergeSort le_trans_file le_total_file l
  exact h.imp fun hab => by simpa [Text.le] using hab

/-- Sorting keeps the order of the reports on a file. -/
theorem filter_sort (l : List Report) (file : Text) :
    (sort l).filter (·.file == file) = l.filter (·.file == file) := by
  have hperm : ((sort l).filter (·.file == file)).Perm (l.filter (·.file == file)) :=
    (List.mergeSort_perm l _).filter _
  have hpairwise : (l.filter (·.file == file)).Pairwise
      fun a b => Text.le a.file b.file = true := by
    refine List.pairwise_of_forall_mem_list fun a ha b hb => ?_
    rw [eq_of_beq (List.mem_filter.1 ha).2, eq_of_beq (List.mem_filter.1 hb).2]
    simp [Text.le]
  have hsub : (l.filter (·.file == file)).Sublist (sort l) :=
    List.sublist_mergeSort le_trans_file le_total_file hpairwise List.filter_sublist
  have hsub' := hsub.filter (·.file == file)
  rw [List.filter_filter] at hsub'
  simp only [Bool.and_self] at hsub'
  exact (hsub'.eq_of_length hperm.length_eq.symm).symm

/-- Lists that have the same reports on every file have the same reports. -/
theorem mem_iff_of_filter_eq
    (h : ∀ file, l.filter (·.file == file) = l'.filter (·.file == file)) (r : Report) :
    r ∈ l ↔ r ∈ l' := by
  have hfilter (l : List Report) : r ∈ l ↔ r ∈ l.filter (·.file == r.file) := by simp
  rw [hfilter l, h, ← hfilter l']

/-- A sorted list is determined by the reports on each file. -/
theorem eq_of_filter_eq (hl : l.Pairwise fun a b => a.file ≤ b.file)
    (hl' : l'.Pairwise fun a b => a.file ≤ b.file)
    (h : ∀ file, l.filter (·.file == file) = l'.filter (·.file == file)) : l = l' := by
  induction l generalizing l' with
  | nil =>
    refine (List.eq_nil_iff_forall_not_mem.2 fun r hr => ?_).symm
    exact List.not_mem_nil ((mem_iff_of_filter_eq h r).2 hr)
  | cons a l ih =>
    have hmem := mem_iff_of_filter_eq h
    cases l' with
    | nil => exact absurd ((hmem a).1 List.mem_cons_self) List.not_mem_nil
    | cons b l' =>
      obtain ⟨ha, htail⟩ := List.pairwise_cons.1 hl
      obtain ⟨hb, htail'⟩ := List.pairwise_cons.1 hl'
      have hab : a.file ≤ b.file := by
        rcases List.mem_cons.1 ((hmem b).2 List.mem_cons_self) with rfl | hmem
        · exact List.le_refl _
        · exact ha b hmem
      have hba : b.file ≤ a.file := by
        rcases List.mem_cons.1 ((hmem a).1 List.mem_cons_self) with rfl | hmem
        · exact List.le_refl _
        · exact hb a hmem
      have hfile : b.file = a.file := List.le_antisymm hba hab
      have hhead := h a.file
      rw [List.filter_cons_of_pos (by simp), List.filter_cons_of_pos (by simp [hfile])] at hhead
      obtain rfl := (List.cons.inj hhead).1
      refine congrArg (a :: ·) (ih htail htail' fun file => ?_)
      have hfilter := h file
      rw [List.filter_cons, List.filter_cons] at hfilter
      split_ifs at hfilter
      · exact (List.cons.inj hfilter).2
      · exact hfilter

end

/-! ## What a path stands for -/

/-- A path stands for a file: it is the path of the file, or that of a directory and the file is a
proof file somewhere below it. -/
inductive Covers (tree : FileTree) (path : Text) : Text → Prop
  | file {content : Text} : tree.stat path = .ok (.file content) → Covers tree path path
  | below {directory names : List Text} : tree.stat path = .ok .directory →
      tree.locate path = .ok directory → directory ++ names ∈ tree.places → names ≠ [] →
      (∀ c ∈ names, Path.IsName c) →
      (Text.ofString ".proof" <:+ Path.join path (Text.join [Path.slash] names) ∨
        Text.ofString ".in" <:+ Path.join path (Text.join [Path.slash] names)) →
      Covers tree path (Path.join path (Text.join [Path.slash] names))

/-- The proof files are those with one of two endings. -/
theorem isProofFile_iff {path : Text} : isProofFile path = true ↔
    Text.ofString ".proof" <:+ path ∨ Text.ofString ".in" <:+ path := by
  have hproof : Text.ofString ".proof" = 46 :: Text.ofString "proof" := by decide
  have hin : Text.ofString ".in" = 46 :: Text.ofString "in" := by decide
  rw [isProofFile, Bool.or_eq_true, beq_iff_eq, beq_iff_eq, hproof, hin,
    Path.extension_eq_iff (by decide) (by decide), Path.extension_eq_iff (by decide) (by decide)]

/-- The proof files that walking a directory finds are those the directory stands for. -/
theorem mem_walk_iff {tree : FileTree} (htree : tree.WellFormed) {path file : Text}
    (hstat : tree.stat path = .ok .directory) :
    file ∈ (tree.walk path).filter isProofFile ↔ Covers tree path file := by
  rw [List.mem_filter, isProofFile_iff]
  constructor
  · rintro ⟨hmem, hext⟩
    unfold FileTree.walk at hmem
    cases hlocate : tree.locate path with
    | error fault =>
      rw [hlocate] at hmem
      exact absurd hmem List.not_mem_nil
    | ok directory =>
      rw [hlocate] at hmem
      obtain ⟨names, hnames, rfl⟩ := List.mem_map.1 hmem
      obtain ⟨hne, hall⟩ := htree.isName_of_mem_below hnames
      exact .below hstat hlocate (FileTree.mem_below_iff.1 hnames).1 hne hall hext
  · intro h
    cases h with
    | file hfile =>
      rw [hstat] at hfile
      cases hfile
    | @below directory names _ hlocate hmem hne hall hext =>
      refine ⟨?_, hext⟩
      rw [FileTree.walk, hlocate]
      refine List.mem_map.2 ⟨names, FileTree.mem_below_iff.2 ⟨hmem, ?_⟩, rfl⟩
      obtain ⟨c, cs, rfl⟩ := List.exists_cons_of_ne_nil hne
      have hc := hall c List.mem_cons_self
      exact FileTree.leadsDown_iff.2 ⟨c, cs, rfl, hc.ne_nil, hc.ne_up⟩

/-- The path of a file stands for this file only. -/
theorem covers_iff_of_file {tree : FileTree} {path content : Text}
    (hstat : tree.stat path = .ok (.file content)) (file : Text) :
    Covers tree path file ↔ file = path := by
  constructor
  · intro h
    cases h with
    | file => rfl
    | below hdirectory =>
      rw [hstat] at hdirectory
      cases hdirectory
  · rintro rfl
    exact .file hstat

end Batch

/-! ## Processors -/

/-- What checking a file gives depends on its path only, as long as the state is of a kind that
checking keeps; and a report carries the path of its file. -/
structure Processor.DependsOnPath {σ : Type} (process : Processor σ) (Kind : σ → Prop)
    (result : Text → Except CheckError Report) : Prop where
  outcome : ∀ path s, Kind s → (process path s).1 = result path
  keeps : ∀ path s, Kind s → Kind (process path s).2
  carries : ∀ path r, result path = .ok r → r.file = path

namespace Engine

/-- A report carries the name of the file. -/
theorem file_of_check {e : Engine} {file content : Text} {r : Report}
    (h : (e.check file content).1 = .ok r) : r.file = file := by
  unfold check checkSource at h
  cases hparse : Source.parse file content with
  | error error => rw [hparse] at h; cases h
  | ok s =>
    rw [hparse] at h
    dsimp only at h
    cases hread : Proof.read s.header s.lines with
    | error error => rw [hread] at h; cases h
    | ok p => rw [hread] at h; cases h; rfl

/-- What a check gives depends on the configuration only, and not on what has been counted. -/
theorem check_eq_of_config (e : Engine) (file content : Text) :
    (e.check file content).1 = (Engine.check ⟨e.config, none⟩ file content).1 := by
  unfold check checkSource
  cases Source.parse file content with
  | error error => rfl
  | ok s =>
    dsimp only
    cases Proof.read s.header s.lines with
    | error error => rfl
    | ok p => rfl

/-- Checking leaves the configuration. -/
theorem config_check (e : Engine) (file content : Text) :
    (e.check file content).2.config = e.config := by
  unfold check checkSource
  cases Source.parse file content with
  | error error => rfl
  | ok s =>
    dsimp only
    cases Proof.read s.header s.lines with
    | error error => rfl
    | ok p => rfl

/-- Engines of one configuration are such processors, whatever they have counted. -/
theorem dependsOnPath_checkFile (tree : FileTree) (config : Config) :
    Processor.DependsOnPath (Engine.checkFile tree) (fun e => e.config = config)
      fun path => (Engine.checkFile tree path ⟨config, none⟩).1 := by
  refine ⟨fun path e he => ?_, fun path e he => ?_, fun path r hr => ?_⟩
  · subst he
    unfold checkFile
    cases tree.read path with
    | error error => rfl
    | ok content =>
      exact congrArg (Except.mapError CheckError.source) (e.check_eq_of_config path content)
  · unfold checkFile
    cases tree.read path with
    | error error => exact he
    | ok content => exact (e.config_check path content).trans he
  · unfold checkFile at hr
    cases hread : tree.read path with
    | error error => rw [hread] at hr; cases hr
    | ok content =>
      rw [hread] at hr
      cases hcheck : (Engine.check ⟨config, none⟩ path content).1 with
      | error error =>
        dsimp only at hr
        rw [hcheck] at hr
        cases hr
      | ok report =>
        dsimp only at hr
        rw [hcheck] at hr
        cases hr
        exact file_of_check hcheck

end Engine

namespace Batch

/-- A path does not fail: it is a directory, or a file that can be checked. -/
def Checkable (tree : FileTree) (result : Text → Except CheckError Report) (path : Text) : Prop :=
  tree.stat path = .ok .directory ∨
    ∃ content r, tree.stat path = .ok (.file content) ∧ result path = .ok r

/-- Where no path fails, the reports on the first path come before those on the others. -/
theorem paths_cons_of_ok {σ : Type} {tree : FileTree} {process : Processor σ}
    {arrivals : Nat → Arrival} {index : Nat} {p : Text} {ps : List Text} {s : σ}
    {rs others : List Report}
    (hpath : (path tree false process (arrivals index) p s).1 = .ok rs)
    (hpaths : (paths tree false process arrivals (index + 1) ps
      (path tree false process (arrivals index) p s).2).1 = .ok others) :
    (paths tree false process arrivals index (p :: ps) s).1 = .ok (rs ++ others) := by
  rw [paths]
  generalize path tree false process (arrivals index) p s = one at hpath hpaths ⊢
  obtain ⟨outcome, s'⟩ := one
  cases hpath
  dsimp only at hpaths ⊢
  generalize paths tree false process arrivals (index + 1) ps s' = rest at hpaths ⊢
  obtain ⟨outcome', s''⟩ := rest
  cases hpaths
  rfl

section
variable {σ : Type} {process : Processor σ} {Kind : σ → Prop}
variable {result : Text → Except CheckError Report}
variable (hprocess : Processor.DependsOnPath process Kind result)
include hprocess

/-- Visiting files one after the other gives a report on each of them, and the state stays of its
kind. -/
theorem visit_eq_map (files : List Text) {s : σ} (hs : Kind s) :
    (visit process files s).1 = files.map (reportBy result) ∧ Kind (visit process files s).2 := by
  induction files generalizing s with
  | nil => exact ⟨rfl, hs⟩
  | cons file files ih =>
    obtain ⟨hreports, hkind⟩ := ih (hprocess.keeps file s hs)
    refine ⟨?_, hkind⟩
    show report file (process file s).1 :: (visit process files (process file s).2).1 = _
    rw [hreports, hprocess.outcome file s hs, List.map_cons, reportBy]

/-- A report carries the path of its file. -/
theorem file_reportBy (file : Text) : (reportBy result file).file = file := by
  unfold reportBy report
  cases hresult : result file with
  | ok r => exact hprocess.carries file r hresult
  | error e => rfl

/-- Of reports on different files, in any order, at most one is on a given file. -/
theorem filter_of_perm {files : List Text} (hnodup : files.Nodup) {rs : List Report}
    (hperm : rs.Perm (files.map (reportBy result))) (file : Text) :
    rs.filter (·.file == file) = if file ∈ files then [reportBy result file] else [] := by
  have hcomp : (fun r : Report => r.file == file) ∘ reportBy result = (· == file) := by
    funext f
    rw [Function.comp_apply, file_reportBy hprocess]
  have hfilter : (files.map (reportBy result)).filter (·.file == file) =
      if file ∈ files then [reportBy result file] else [] := by
    rw [List.filter_map, hcomp, List.filter_beq, hnodup.count]
    split_ifs <;> rfl
  have hrs := hperm.filter (·.file == file)
  rw [hfilter] at hrs
  split_ifs at hrs ⊢
  · exact List.perm_singleton.1 hrs
  · exact List.perm_nil.1 hrs

variable {tree : FileTree} (htree : tree.WellFormed)
include htree

open scoped Classical in
/-- Whatever the arrival is, a path gives one report on each file it stands for. -/
theorem exists_path_eq_ok {p : Text} (hp : Checkable tree result p) (arrival : Arrival) {s : σ}
    (hs : Kind s) :
    ∃ rs, (path tree false process arrival p s).1 = .ok rs ∧
      Kind (path tree false process arrival p s).2 ∧
      ∀ file, rs.filter (·.file == file) =
        if Covers tree p file then [reportBy result file] else [] := by
  unfold path
  rcases hp with hstat | ⟨content, r, hstat, hresult⟩
  · rw [hstat]
    obtain ⟨hreports, hkind⟩ := visit_eq_map hprocess ((tree.walk p).filter isProofFile) hs
    refine ⟨_, rfl, hkind, fun file => ?_⟩
    have hperm := arrival.perm (visit process ((tree.walk p).filter isProofFile) s).1
    rw [hreports] at hperm ⊢
    rw [filter_of_perm hprocess ((htree.nodup_walk p).filter _) hperm]
    simp only [mem_walk_iff htree hstat]
  · rw [hstat]
    have houtcome : (process p s).1.map (fun r => [r]) = .ok [r] := by
      rw [hprocess.outcome p s hs, hresult]
      rfl
    have hreport : [r] = [p].map (reportBy result) := by
      rw [List.map_singleton, reportBy, hresult, report]
    refine ⟨[r], houtcome, hprocess.keeps p s hs, fun file => ?_⟩
    rw [filter_of_perm hprocess (List.nodup_singleton p) (.of_eq hreport)]
    simp only [covers_iff_of_file hstat, List.mem_singleton]

open scoped Classical in
/-- Over several paths, a file is reported on once for each path that stands for it. -/
theorem exists_paths_eq_ok (arrivals : Nat → Arrival) {ps : List Text}
    (hps : ∀ p ∈ ps, Checkable tree result p) (index : Nat) {s : σ} (hs : Kind s) :
    ∃ rs, (paths tree false process arrivals index ps s).1 = .ok rs ∧
      ∀ file, rs.filter (·.file == file) =
        (ps.filter fun p => Covers tree p file).map fun _ => reportBy result file := by
  induction ps generalizing index s with
  | nil => exact ⟨[], rfl, fun file => rfl⟩
  | cons p ps ih =>
    obtain ⟨hp, hps⟩ := List.forall_mem_cons.1 hps
    obtain ⟨rs, hpath, hkind, hfilter⟩ :=
      exists_path_eq_ok hprocess htree hp (arrivals index) hs
    obtain ⟨others, hpaths, hothers⟩ := ih hps (index + 1) hkind
    refine ⟨rs ++ others, ?_, fun file => ?_⟩
    · exact paths_cons_of_ok hpath hpaths
    · rw [List.filter_append, hfilter, hothers, List.filter_cons]
      simp only [decide_eq_true_eq]
      split_ifs
      · rw [List.map_cons, List.singleton_append]
      · rw [List.nil_append]

end

open scoped Classical in
/-- When no path fails, the arrivals do not show in what comes out. For each file it has one report
per path that stands for the file, in the order of the paths: the report of its check, or where the
file cannot be checked one that says why. It is sorted by file, and it has all that came in and no
more. Every end of the workers on a directory is an arrival. -/
theorem reports_independent_of_arrival {σ : Type} {process : Processor σ} {Kind : σ → Prop}
    {result : Text → Except CheckError Report}
    (hprocess : Processor.DependsOnPath process Kind result) {tree : FileTree}
    (htree : tree.WellFormed) {ps : List Text} (hps : ∀ p ∈ ps, Checkable tree result p)
    {start : σ} (hstart : Kind start) :
    ∃ reports : List Report,
      (∀ arrivals s, Kind s → (run tree false process arrivals ps s).1 = .ok reports) ∧
      reports.Pairwise (fun a b => a.file ≤ b.file) ∧
      (∀ file r, result file = .ok r → reports.filter (·.file == file) =
        (ps.filter fun p => Covers tree p file).map fun _ => r) ∧
      (∀ file e, result file = .error e → reports.filter (·.file == file) =
        (ps.filter fun p => Covers tree p file).map fun _ => ⟨file, [], .failed e.message⟩) ∧
      (∀ arrivals s, Kind s → ∃ rs, (paths tree false process arrivals 0 ps s).1 = .ok rs ∧
        reports.Perm rs ∧ ∀ file, reports.filter (·.file == file) = rs.filter (·.file == file)) ∧
      ∀ capacity p s, 0 < capacity → Kind s →
        (∃ rs, Workers.Leaves capacity result ((tree.walk p).filter isProofFile) rs) ∧
        ∀ rs, Workers.Leaves capacity result ((tree.walk p).filter isProofFile) rs →
          ∃ arrival : Arrival,
            arrival.arrange (visit process ((tree.walk p).filter isProofFile) s).1 = rs := by
  obtain ⟨inTurn, -, hinTurn⟩ :=
    exists_paths_eq_ok hprocess htree (fun _ => .inTurn) hps 0 hstart
  refine ⟨sort inTurn, fun arrivals s hs => ?_, sorted_sort _, fun file r hr => ?_,
    fun file e he => ?_, fun arrivals s hs => ?_,
    fun capacity p s hcapacity hs => ⟨?_, fun rs hrs => ?_⟩⟩
  · obtain ⟨rs, hrs, hfilter⟩ := exists_paths_eq_ok hprocess htree arrivals hps 0 hs
    have hsort : sort rs = sort inTurn := by
      refine eq_of_filter_eq (sorted_sort _) (sorted_sort _) fun file => ?_
      rw [filter_sort, filter_sort, hfilter, hinTurn]
    calc (run tree false process arrivals ps s).1
        = (paths tree false process arrivals 0 ps s).1.map sort := rfl
      _ = .ok (sort rs) := by rw [hrs, Except.map]
      _ = .ok (sort inTurn) := by rw [hsort]
  · rw [filter_sort, hinTurn, reportOn_iff.1 (.checked hr)]
  · rw [filter_sort, hinTurn, reportOn_iff.1 (.failed he)]
  · obtain ⟨rs, hrs, hfilter⟩ := exists_paths_eq_ok hprocess htree arrivals hps 0 hs
    have hsame (file : Text) :
        (sort inTurn).filter (·.file == file) = rs.filter (·.file == file) := by
      rw [filter_sort, hinTurn, hfilter]
    refine ⟨rs, hrs, ?_, hsame⟩
    have hsort : sort inTurn = sort rs := by
      refine eq_of_filter_eq (sorted_sort _) (sorted_sort _) fun file => ?_
      rw [hsame, filter_sort]
    rw [hsort]
    exact List.mergeSort_perm rs _
  · exact ⟨_, Workers.leaves_inTurn hcapacity _⟩
  · have hperm := Workers.perm_of_leaves hrs
    rw [← (visit_eq_map hprocess _ hs).1] at hperm
    exact Arrival.exists_of_perm hperm

/-- A directory and a file deep in it are given. The file is reported on twice, and another one of
the directory, which has no sequent, once and with the error. -/
theorem reports_independent_of_arrival_overlapping :
    ∃ tree, tree = FileTree.ofLists [("d/b.in", "P"), ("d/e/a.proof", "P|-P\nP")] [] ∧
      ∃ reports : List Report,
        (run tree false (Engine.checkFile tree) (fun _ => .inTurn) ["d", "d/e/a.proof"]
          { config := {} }).1 = .ok reports ∧
        (run tree false (Engine.checkFile tree) (fun _ => ⟨List.reverse, List.reverse_perm⟩)
          ["d", "d/e/a.proof"] { config := {} }).1 = .ok reports ∧
        (reports.filter (·.file == Text.ofString "d/e/a.proof")).length = 2 ∧
        reports.filter (·.file == Text.ofString "d/b.in") =
          [⟨"d/b.in", [], .failed "d/b.in: sequent has no \"|-\""⟩] := by
  classical
  refine ⟨_, rfl, ?_⟩
  generalize htree : FileTree.ofLists [("d/b.in", "P"), ("d/e/a.proof", "P|-P\nP")] [] = tree
  have hwf : tree.WellFormed := htree ▸ FileTree.wellFormed_ofLists _ _
  have hstat : tree.stat "d" = .ok .directory := by subst htree; rfl
  have hlocate : tree.locate "d" = .ok ["d"] := by subst htree; rfl
  have hplace : [Text.ofString "d"] ++ [Text.ofString "e", "a.proof"] ∈ tree.places := by
    subst htree; decide
  have hplace' : [Text.ofString "d"] ++ [Text.ofString "b.in"] ∈ tree.places := by
    subst htree; decide
  have hfile : tree.stat "d/e/a.proof" = .ok (.file "P|-P\nP") := by subst htree; rfl
  have hchecked : (Engine.checkFile tree "d/e/a.proof" ⟨{}, none⟩).1.map Report.ok =
      .ok true := by subst htree; cbv
  have hfailed : (Engine.checkFile tree "d/b.in" ⟨{}, none⟩).1 =
      .error (.source ⟨"d/b.in", .sequent .noTurnstile⟩) := by subst htree; rfl
  obtain ⟨r, hr, -⟩ := Proof.exists_of_map_eq_ok hchecked
  have hps : ∀ p ∈ [Text.ofString "d", "d/e/a.proof"], Checkable tree
      (fun path => (Engine.checkFile tree path ⟨{}, none⟩).1) p := by
    simp only [List.forall_mem_cons]
    exact ⟨.inl hstat, .inr ⟨_, r, hfile, hr⟩, fun p hp => absurd hp List.not_mem_nil⟩
  have hstart : (⟨{}, none⟩ : Engine).config = {} := rfl
  obtain ⟨reports, hruns, -, hok, herror, -⟩ := reports_independent_of_arrival
    (Engine.dependsOnPath_checkFile tree {}) hwf hps hstart
  refine ⟨reports, hruns _ _ rfl, hruns _ _ rfl, ?_, ?_⟩
  · have hbelow : Covers tree "d" "d/e/a.proof" := by
      have hjoin : Path.join "d" (Text.join [Path.slash] ["e", "a.proof"]) = "d/e/a.proof" := rfl
      exact hjoin ▸
        .below hstat hlocate hplace (by decide) (by decide) (.inl (by rw [hjoin]; decide))
    have hcovers : ∀ p ∈ [Text.ofString "d", "d/e/a.proof"], Covers tree p "d/e/a.proof" := by
      simp only [List.forall_mem_cons]
      exact ⟨hbelow, .file hfile, fun p hp => absurd hp List.not_mem_nil⟩
    rw [hok _ _ hr, List.length_map,
      List.filter_eq_self.2 fun p hp => decide_eq_true (hcovers p hp)]
    rfl
  · have hbelow : Covers tree "d" "d/b.in" := by
      have hjoin : Path.join "d" (Text.join [Path.slash] ["b.in"]) = "d/b.in" := rfl
      exact hjoin ▸
        .below hstat hlocate hplace' (by decide) (by decide) (.inr (by rw [hjoin]; decide))
    have hnot : ¬ Covers tree "d/e/a.proof" "d/b.in" := by
      rw [covers_iff_of_file hfile]
      decide
    rw [herror _ _ hfailed, List.filter_cons_of_pos (by simpa using hbelow),
      List.filter_cons_of_neg (by simpa using hnot), List.filter_nil]
    rfl

end Batch

end Sequitur
