import Mathlib
import Sequitur.Batch
import Sequitur.Proofs.Verification

/-!
# The counters account for every session

A session sends one request after the other to an engine. Whatever the requests and the
configuration are, the counters afterwards say what the responses say (`Engine.tally_accounts`):
there is one observation for each result of a check, the proofs are counted by whether the result
has errors and the lines by their outcome, and the rewritten proofs are those of the deductions.

A request can end early in many places: the source or the sequent is not accepted, the hypothesis is
not discharged, verification is off, or the sequent of the rewritten proof cannot be read. One
lemma for each operation (`counted_checkSource`, `counted_check`, `counted_deduce`) says that
exactly the results in the response have been counted. `counted_respond` joins them to one step of
a session, and `accounts_session` is the induction over its steps.
-/

namespace Sequitur

/-! ## Sessions -/

/-- What an engine can be asked to do. -/
inductive Request where
  /-- Checks the file at a path. -/
  | checkFile (tree : FileTree) (path : Text)
  /-- Checks the content of a file. -/
  | check (file content : Text)
  /-- Checks a file that has been split, discharge-safe or not. -/
  | checkSource (source : Source) (dischargeSafety : Bool)
  /-- Discharges the last hypothesis of the content of a file. -/
  | deduce (file content : Text)
  /-- Discharges the last hypothesis of a file that has been split. -/
  | deduceSource (source : Source)
  | setDischargeSafety (on : Bool)
  | setVerify (on : Bool)

/-- What an engine answers. -/
inductive Response where
  | report (report : Report)
  | result (result : Result)
  | deduction (deduction : Deduction)
  /-- The source or its sequent was not accepted. -/
  | refused
  | configured (config : Config)

namespace Response

/-- The report, or that there is none. -/
def ofReport {ε : Type} : Except ε Report → Response
  | .ok r => .report r
  | .error _ => .refused

/-- The result of a check, or that there is none. -/
def ofResult {ε : Type} : Except ε Result → Response
  | .ok r => .result r
  | .error _ => .refused

/-- The deduction, or that there is none. -/
def ofDeduction {ε : Type} : Except ε Deduction → Response
  | .ok d => .deduction d
  | .error _ => .refused

/-- The result of the check that was asked for. -/
def checked : Response → Option Result
  | .report ⟨_, _, .checked r⟩ => some r
  | .result r => some r
  | .deduction d => some d.source
  | _ => none

/-- The result of verifying a rewritten proof. -/
def verified : Response → Option Result
  | .deduction d => d.verified
  | _ => none

/-- The results of all checks that were made. -/
def results (a : Response) : List Result := a.checked.toList ++ a.verified.toList

/-- There is a rewritten proof, be it verified or not. -/
def hasOutput : Response → Bool
  | .deduction d => d.output.toOption.isSome
  | _ => false

end Response

namespace Request

/-- The source of a request, when its file can be read and split. -/
def source? : Request → Option Source
  | .checkFile tree path =>
    (tree.read path).toOption.bind fun content => (Source.parse path content).toOption
  | .check file content | .deduce file content => (Source.parse file content).toOption
  | .checkSource s _ | .deduceSource s => some s
  | .setDischargeSafety _ | .setVerify _ => none

/-- The request asks for a check or a deduction, and the source and its sequent are accepted. -/
def accepted (q : Request) : Bool := q.source?.any fun s => (Sequent.parse s.header).isOk

end Request

namespace Engine

/-- The response to a request, and the engine after it. -/
def respond (e : Engine) : Request → Response × Engine
  | .checkFile tree path => (e.checkFile tree path).map .ofReport id
  | .check file content => (e.check file content).map .ofReport id
  | .checkSource s safety => (e.checkSource s safety).map .ofResult id
  | .deduce file content =>
    match Source.parse file content with
    | .error _ => (.refused, e)
    | .ok s => (e.deduce s).map .ofDeduction id
  | .deduceSource s => (e.deduce s).map .ofDeduction id
  | .setDischargeSafety on =>
    (.configured (e.setDischargeSafety on).config, e.setDischargeSafety on)
  | .setVerify on => (.configured (e.setVerify on).config, e.setVerify on)

/-- The responses to several requests, and the engine after them. -/
def session (e : Engine) : List Request → List Response × Engine
  | [] => ([], e)
  | q :: qs =>
    let (a, e) := e.respond q
    let (as, e) := e.session qs
    (a :: as, e)

end Engine

/-! ## Counting -/

namespace Counts

/-- The count of a label is that of its first entry. -/
theorem get_cons (label other : Text) (n : Nat) (c : Counts) :
    get ((other, n) :: c) label = if other = label then n else c.get label := by
  unfold get
  rw [List.lookup_cons]
  split_ifs with h
  · simp [h]
  · have hne : (label == other) = false := by simpa using fun heq => h heq.symm
    rw [hne]

/-- Counting a label adds one to its count and nothing to the others. -/
theorem get_bump (label other : Text) (c : Counts) :
    (c.bump label).get other = c.get other + if label = other then 1 else 0 := by
  induction c with
  | nil =>
    rw [bump, get_cons]
    simp [get]
  | cons entry c ih =>
    obtain ⟨name, n⟩ := entry
    rw [bump]
    split_ifs <;> grind [get_cons]

/-- The labels that occur are those counted before and the one counted last. -/
theorem mem_labels_bump {label other : Text} {c : Counts} :
    other ∈ (c.bump label).map Prod.fst ↔ other = label ∨ other ∈ c.map Prod.fst := by
  induction c with
  | nil => simp [bump]
  | cons entry c ih =>
    obtain ⟨name, n⟩ := entry
    rw [bump]
    split_ifs with h
    · subst h
      simp
    · rw [List.map_cons, List.mem_cons, ih, List.map_cons, List.mem_cons]
      tauto

section
variable {α : Type} (outcome : α → Text) (ls : List α) (c : Counts) (label : Text)

/-- Counting the outcomes of a list adds to a label the number of times it comes up. -/
theorem get_foldl_bump : (ls.foldl (fun c l => c.bump (outcome l)) c).get label =
    c.get label + (ls.map outcome).count label := by
  induction ls generalizing c with
  | nil => simp
  | cons l ls ih =>
    rw [List.foldl_cons, ih, get_bump, List.map_cons, List.count_cons]
    simp only [beq_iff_eq]
    omega

/-- Counting the outcomes of a list adds no labels but those that come up. -/
theorem mem_labels_foldl_bump :
    label ∈ (ls.foldl (fun c l => c.bump (outcome l)) c).map Prod.fst ↔
      label ∈ ls.map outcome ∨ label ∈ c.map Prod.fst := by
  induction ls generalizing c with
  | nil => simp
  | cons l ls ih =>
    rw [List.foldl_cons, ih, mem_labels_bump, List.map_cons, List.mem_cons]
    tauto

end

end Counts

/-- The result is that of checking a proof. -/
def Result.IsCheck (r : Result) : Prop := ∃ (p : Proof) (safety : Bool), r = p.check safety

/-- The outcomes of all lines of several results. -/
def Result.outcomes (rs : List Result) : List Text := (rs.flatMap Result.lines).map Line.outcome

/-- The tally counts exactly these results, which are those of checks, and so many rewritten
proofs. -/
structure Tally.Accounts (t : Tally) (rs : List Result) (outputs : Nat) : Prop where
  isCheck : ∀ r ∈ rs, r.IsCheck
  checks : t.checks = rs.length
  ok : t.proofs.get "ok" = rs.countP fun r => r.errors.isEmpty
  failed : t.proofs.get "failed" = rs.countP fun r => !r.errors.isEmpty
  lines : ∀ label, t.lines.get label = (Result.outcomes rs).count label
  labels : ∀ label, label ∈ t.lines.map Prod.fst ↔ label ∈ Result.outcomes rs
  discharges : t.discharges = outputs

namespace Tally

/-- The empty tally accounts for nothing. -/
theorem accounts_empty : Accounts {} [] 0 :=
  ⟨by simp, rfl, rfl, rfl, fun _ => rfl, fun _ => Iff.rfl, rfl⟩

variable {t : Tally} {rs : List Result} {n : Nat}

/-- One result more has been counted. -/
theorem Accounts.addCheck (h : t.Accounts rs n) {r : Result} (hr : r.IsCheck) :
    (t.addCheck r).Accounts (rs ++ [r]) n := by
  have houtcomes :
      Result.outcomes (rs ++ [r]) = Result.outcomes rs ++ r.lines.map Line.outcome := by
    simp [Result.outcomes]
  have hproofs (label : Text) : (t.addCheck r).proofs.get label =
      t.proofs.get label + if status r = label then 1 else 0 := Counts.get_bump _ _ _
  have hfalse : ¬ ("failed" : Text) = "ok" := by decide
  have hfalse' : ¬ ("ok" : Text) = "failed" := by decide
  refine ⟨?_, ?_, ?_, ?_, fun label => ?_, fun label => ?_, h.discharges⟩
  · exact List.forall_mem_append.2 ⟨h.isCheck, List.forall_mem_singleton.2 hr⟩
  · rw [List.length_append, ← h.checks]
    rfl
  · rw [hproofs, h.ok, List.countP_append, List.countP_singleton, status, Result.ok]
    cases r.errors.isEmpty <;> simp [hfalse]
  · rw [hproofs, h.failed, List.countP_append, List.countP_singleton, status, Result.ok]
    cases r.errors.isEmpty <;> simp [hfalse']
  · rw [houtcomes, List.count_append, ← h.lines]
    exact Counts.get_foldl_bump Line.outcome r.lines t.lines label
  · rw [houtcomes, List.mem_append, ← h.labels, or_comm]
    exact Counts.mem_labels_foldl_bump Line.outcome r.lines t.lines label

/-- One rewritten proof more has been counted. -/
theorem Accounts.addDischarge (h : t.Accounts rs n) : t.addDischarge.Accounts rs (n + 1) :=
  ⟨h.isCheck, h.checks, h.ok, h.failed, h.lines, h.labels, congrArg (· + 1) h.discharges⟩

end Tally

/-- No rule has the name of an outcome that is not known. -/
theorem Rule.title_ne_unknown (r : Rule) : r.title ≠ "unknown" := by
  cases r with
  | other code => exact show Rule.title (.other 0) ≠ "unknown" by decide
  | _ => decide

/-- No kind of error has the name of an outcome that is not known. -/
theorem Problem.title_kind_ne_unknown (p : Problem) : p.kind.title ≠ "unknown" := by
  cases p with
  | malformed => exact show ErrorKind.malformed.title ≠ "unknown" by decide
  | capture => exact show ErrorKind.capture.title ≠ "unknown" by decide
  | banned | notFree | occursFree => exact show ErrorKind.freeVariable.title ≠ "unknown" by decide
  | unproved => decide
  | wrongGoal => decide

/-- A line with a justification or an error is counted by the name of the rule or of the kind of
error. Only a line with neither would be counted as unknown. -/
theorem Line.outcome_ne_unknown {l : Line} {r : Except LineError Justification}
    (h : l.verdict = some r) : l.outcome ≠ "unknown" := by
  cases r with
  | ok j =>
    obtain ⟨hj, herror⟩ := verdict_eq_ok_iff.1 h
    simp only [outcome, hj, herror]
    exact j.rule.title_ne_unknown
  | error err =>
    obtain ⟨-, herror⟩ := verdict_eq_error_iff.1 h
    simp only [outcome, herror]
    exact err.problem.title_kind_ne_unknown

/-- No line of a check is counted as unknown, since every one of them has a verdict. -/
theorem Result.IsCheck.outcome_ne_unknown {r : Result} (h : r.IsCheck) {l : Line}
    (hl : l ∈ r.lines) : l.outcome ≠ "unknown" := by
  obtain ⟨p, safety, rfl⟩ := h
  obtain ⟨k, hk, rfl⟩ := List.mem_mapIdx.1 hl
  obtain ⟨verdict, hverdict⟩ := (Context.ofProof p safety).exists_verdict_line k _
  exact Line.outcome_ne_unknown hverdict

/-! ## What an engine counts -/

/-- The engine has a tally, and it counts exactly these results and so many rewritten proofs. -/
def Engine.Accounts (e : Engine) (rs : List Result) (outputs : Nat) : Prop :=
  ∃ t, e.tally = some t ∧ t.Accounts rs outputs

namespace Engine

variable {e : Engine} {rs : List Result} {n : Nat}

/-- An engine that counts a check accounts for it. -/
theorem Accounts.addCheck (h : e.Accounts rs n) {r : Result} (hr : r.IsCheck) :
    (e.addCheck r).Accounts (rs ++ [r]) n := by
  obtain ⟨t, ht, hcounts⟩ := h
  exact ⟨t.addCheck r, by simp [Engine.addCheck, ht], hcounts.addCheck hr⟩

/-- An engine that counts a rewritten proof accounts for it. -/
theorem Accounts.addDischarge (h : e.Accounts rs n) : e.addDischarge.Accounts rs (n + 1) := by
  obtain ⟨t, ht, hcounts⟩ := h
  exact ⟨t.addDischarge, by simp [Engine.addDischarge, ht], hcounts.addDischarge⟩

/-- A response leaves an engine that has counted what is in the response. -/
def Counted (rs : List Result) (n : Nat) (run : Response × Engine) : Prop :=
  run.2.Accounts (rs ++ run.1.results) (n + run.1.hasOutput.toNat)

/-- Without results and without a rewritten proof nothing is to be counted. -/
theorem counted_of_results_eq_nil (h : e.Accounts rs n) {a : Response} (hresults : a.results = [])
    (hout : a.hasOutput = false) : Counted rs n (a, e) := by
  unfold Counted
  rw [hresults, hout, List.append_nil]
  exact h

/-- A refused request is not counted. -/
theorem counted_refused (h : e.Accounts rs n) : Counted rs n (.refused, e) :=
  counted_of_results_eq_nil h rfl rfl

/-- A check of a source is counted. -/
theorem counted_checkSource (h : e.Accounts rs n) (s : Source) (safety : Bool) :
    Counted rs n ((e.checkSource s safety).map .ofResult id) := by
  unfold checkSource
  cases Proof.read s.header s.lines with
  | error error => exact counted_refused h
  | ok p => exact h.addCheck ⟨p, safety, rfl⟩

/-- A check of the content of a file is counted. -/
theorem counted_check (h : e.Accounts rs n) (file content : Text) :
    Counted rs n ((e.check file content).map .ofReport id) := by
  unfold check checkSource
  cases Source.parse file content with
  | error error => exact counted_refused h
  | ok s =>
    dsimp only
    cases Proof.read s.header s.lines with
    | error error => exact counted_refused h
    | ok p => exact h.addCheck ⟨p, e.config.dischargeSafety, rfl⟩

/-- The response to a file that can be read is the response to its content. -/
theorem checkFile_of_read {tree : FileTree} {path content : Text} (h : tree.read path = .ok content)
    (e : Engine) : (e.checkFile tree path).map Response.ofReport id =
      (e.check path content).map Response.ofReport id := by
  rw [checkFile, h]
  dsimp only
  generalize e.check path content = run
  obtain ⟨outcome, e'⟩ := run
  cases outcome with
  | error error => rfl
  | ok report => rfl

/-- A file that cannot be read is refused, and the engine stays as it is. -/
theorem checkFile_of_error {tree : FileTree} {path : Text} {error : PathError}
    (h : tree.read path = .error error) (e : Engine) :
    (e.checkFile tree path).map Response.ofReport id = (.refused, e) := by
  rw [checkFile, h]
  rfl

/-- A check of the file at a path is counted. -/
theorem counted_checkFile (h : e.Accounts rs n) (tree : FileTree) (path : Text) :
    Counted rs n ((e.checkFile tree path).map .ofReport id) := by
  cases hread : tree.read path with
  | error error => exact checkFile_of_error hread e ▸ counted_refused h
  | ok content => exact checkFile_of_read hread e ▸ counted_check h path content

/-- Discharging a hypothesis counts the check of the source and, when there is a rewritten proof,
that proof and its verification; no more, wherever it ends. -/
theorem counted_deduce (h : e.Accounts rs n) (s : Source) :
    Counted rs n ((e.deduce s).map .ofDeduction id) := by
  unfold deduce checkSource
  cases Proof.read s.header s.lines with
  | error error => exact counted_refused h
  | ok p =>
    have hsource := h.addCheck ⟨p, true, rfl⟩
    dsimp only
    cases (p.check true).discharge (e.addCheck (p.check true)).config.templates with
    | error error => exact hsource
    | ok out =>
      have hout := hsource.addDischarge
      dsimp only
      split_ifs with hverify
      · cases hrecheck : out.recheck with
        | error error => exact hout
        | ok result =>
          obtain ⟨q, -, rfl⟩ := Rewriting.recheck_eq_ok_iff.1 hrecheck
          have hverified := hout.addCheck ⟨q, false, rfl⟩
          rw [List.append_assoc] at hverified
          exact hverified
      · exact hout

/-- One request: what is in the response has been counted, and nothing else. -/
theorem counted_respond (h : e.Accounts rs n) (q : Request) : Counted rs n (e.respond q) := by
  cases q with
  | checkFile tree path => exact counted_checkFile h tree path
  | check file content => exact counted_check h file content
  | checkSource s safety => exact counted_checkSource h s safety
  | deduce file content =>
    rw [respond]
    cases Source.parse file content with
    | error error => exact counted_refused h
    | ok s => exact counted_deduce h s
  | deduceSource s => exact counted_deduce h s
  | setDischargeSafety on =>
    have hsame : (e.setDischargeSafety on).Accounts rs n := h
    exact counted_of_results_eq_nil hsame rfl rfl
  | setVerify on =>
    have hsame : (e.setVerify on).Accounts rs n := h
    exact counted_of_results_eq_nil hsame rfl rfl

theorem session_cons (e : Engine) (q : Request) (qs : List Request) : e.session (q :: qs) =
    ((e.respond q).1 :: ((e.respond q).2.session qs).1, ((e.respond q).2.session qs).2) := rfl

/-- All requests of a session: what is in the responses has been counted, and nothing else. -/
theorem accounts_session (h : e.Accounts rs n) (qs : List Request) :
    (e.session qs).2.Accounts (rs ++ (e.session qs).1.flatMap Response.results)
      (n + (e.session qs).1.countP Response.hasOutput) := by
  induction qs generalizing e rs n with
  | nil => simpa [session] using h
  | cons q qs ih =>
    have hrest := ih (counted_respond h q)
    rw [session_cons, List.flatMap_cons, List.countP_cons, ← List.append_assoc]
    have hadd : n + (((e.respond q).2.session qs).1.countP Response.hasOutput +
        if (e.respond q).1.hasOutput = true then 1 else 0) =
        n + (e.respond q).1.hasOutput.toNat +
          ((e.respond q).2.session qs).1.countP Response.hasOutput := by
      cases (e.respond q).1.hasOutput
      · rfl
      · simp only [if_true, Bool.toNat_true]
        omega
    rw [hadd]
    exact hrest

/-! ## How many results there are -/

/-- A response that has a result exactly when the proof is read has one exactly when the sequent is
accepted. -/
theorem isSome_checked_of_sequent {s : Source} {a : Response}
    (herror : ∀ error, Proof.read s.header s.lines = .error error → a.checked = none)
    (hok : ∀ p, Proof.read s.header s.lines = .ok p → ∃ r, a.checked = some r) :
    a.checked.isSome = (Sequent.parse s.header).isOk := by
  cases hs : Sequent.parse s.header with
  | error error =>
    rw [herror error (by rw [Proof.read, hs]; rfl)]
    rfl
  | ok q =>
    obtain ⟨r, hr⟩ := hok ⟨_, q, _⟩ (by rw [Proof.read, hs]; rfl)
    rw [hr]
    rfl

/-- A deduction makes a check exactly when the sequent is accepted. -/
theorem isSome_checked_deduce (e : Engine) (s : Source) :
    (Response.ofDeduction (e.deduce s).1).checked.isSome = (Sequent.parse s.header).isOk := by
  refine isSome_checked_of_sequent (fun error hread => ?_) fun p hread => ?_
  · unfold deduce checkSource
    rw [hread]
    rfl
  · rw [deduce_of_read hread]
    exact ⟨_, rfl⟩

/-- Checking a source makes a check exactly when the sequent is accepted. -/
theorem isSome_checked_checkSource (e : Engine) (s : Source) (safety : Bool) :
    (Response.ofResult (e.checkSource s safety).1).checked.isSome =
      (Sequent.parse s.header).isOk := by
  refine isSome_checked_of_sequent (fun error hread => ?_) fun p hread => ?_
  · rw [checkSource, hread]
    rfl
  · rw [checkSource, hread]
    exact ⟨_, rfl⟩

/-- Checking the content of a file makes a check exactly when the content is split and the sequent
is accepted. -/
theorem isSome_checked_check (e : Engine) (file content : Text) :
    (Response.ofReport (e.check file content).1).checked.isSome =
      (Source.parse file content).toOption.any fun s => (Sequent.parse s.header).isOk := by
  unfold check
  cases Source.parse file content with
  | error error => rfl
  | ok s =>
    have hsource := isSome_checked_checkSource e s e.config.dischargeSafety
    dsimp only
    generalize e.checkSource s e.config.dischargeSafety = run at hsource ⊢
    obtain ⟨outcome, e'⟩ := run
    cases outcome with
    | error error => exact hsource
    | ok r => exact hsource

/-- A check is made for exactly the requests that are accepted. -/
theorem isSome_checked_respond (e : Engine) (q : Request) :
    (e.respond q).1.checked.isSome = q.accepted := by
  cases q with
  | checkFile tree path =>
    rw [respond, Request.accepted, Request.source?]
    cases hread : tree.read path with
    | error error =>
      rw [checkFile_of_error hread]
      rfl
    | ok content =>
      rw [checkFile_of_read hread]
      exact isSome_checked_check e path content
  | check file content => exact isSome_checked_check e file content
  | checkSource s safety => exact isSome_checked_checkSource e s safety
  | deduce file content =>
    rw [respond, Request.accepted, Request.source?]
    cases Source.parse file content with
    | error error => rfl
    | ok s => exact isSome_checked_deduce e s
  | deduceSource s => exact isSome_checked_deduce e s
  | setDischargeSafety on => rfl
  | setVerify on => rfl

/-- There is one result for each request that is accepted, and one for each verification that has a
result. -/
theorem length_results_session (e : Engine) (qs : List Request) :
    ((e.session qs).1.flatMap Response.results).length =
      qs.countP Request.accepted + (e.session qs).1.countP (·.verified.isSome) := by
  induction qs generalizing e with
  | nil => rfl
  | cons q qs ih =>
    rw [session_cons, List.flatMap_cons, List.length_append, ih, Response.results,
      List.length_append, List.countP_cons, List.countP_cons, ← isSome_checked_respond e q]
    cases (e.respond q).1.checked <;> cases (e.respond q).1.verified <;>
      simp only [Option.toList_none, Option.toList_some, Option.isSome_none, Option.isSome_some,
        List.length_nil, List.length_singleton, if_true, Bool.false_eq_true, if_false] <;> omega

/-- The counters account for every session. Let an engine with a fresh tally be sent any requests.
Then the number of observations is that of the proofs counted as ok or failed, and that of the
results in the responses: one for each request whose source and sequent were accepted, and one for
each deduction whose verification has a result. The proofs counted as ok are the results without
errors. Each outcome is counted as often as it is the outcome of a line of these results, and
`unknown` is not among the labels. The rewritten proofs are counted as often as a response has
one. -/
theorem tally_accounts (config : Config) (requests : List Request) :
    ∃ responses e t, (⟨config, some {}⟩ : Engine).session requests = (responses, e) ∧
      e.tally = some t ∧
      t.checks = t.proofs.get "ok" + t.proofs.get "failed" ∧
      t.checks = (responses.flatMap Response.results).length ∧
      t.checks = requests.countP Request.accepted + responses.countP (·.verified.isSome) ∧
      t.proofs.get "ok" = (responses.flatMap Response.results).countP (fun r => r.errors.isEmpty) ∧
      (∀ label, t.lines.get label =
        ((responses.flatMap Response.results).flatMap Result.lines).countP
          (fun l => l.outcome == label)) ∧
      ("unknown" : Text) ∉ t.lines.map Prod.fst ∧
      t.discharges = responses.countP Response.hasOutput := by
  have hstart : (⟨config, some {}⟩ : Engine).Accounts [] 0 := ⟨{}, rfl, Tally.accounts_empty⟩
  obtain ⟨t, ht, hcounts⟩ := accounts_session hstart requests
  have hlength := length_results_session ⟨config, some {}⟩ requests
  rw [List.nil_append, Nat.zero_add] at hcounts
  refine ⟨_, _, t, rfl, ht, ?_, hcounts.checks, hcounts.checks.trans hlength, hcounts.ok,
    fun label => ?_, fun hmem => ?_, hcounts.discharges⟩
  · rw [hcounts.checks, hcounts.ok, hcounts.failed,
      List.length_eq_countP_add_countP fun r => r.errors.isEmpty]
    simp only [Bool.not_eq_true, Bool.decide_eq_false]
  · rw [hcounts.lines, Result.outcomes, List.count, List.countP_map]
    rfl
  · obtain ⟨l, hl, hlabel⟩ := List.mem_map.1 ((hcounts.labels _).1 hmem)
    obtain ⟨r, hr, hl⟩ := List.mem_flatMap.1 hl
    exact (hcounts.isCheck r hr).outcome_ne_unknown hl hlabel

end Engine

end Sequitur
