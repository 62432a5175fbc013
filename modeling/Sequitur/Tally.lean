import Sequitur.Proof.Verdict

/-!
# Counters

A tally counts what a checker has done: the checks, by whether they found errors; the lines, by
rule or kind of error; and the hypotheses discharged. It can be written as text, one family of
counters after the other, for collection by other tools.
-/

namespace Sequitur

/-- How often each label was counted. -/
abbrev Counts := List (Text × Nat)

namespace Counts

/-- Counts a label once more. -/
def bump (label : Text) : Counts → Counts
  | [] => [(label, 1)]
  | (other, n) :: rest =>
    if other = label then (other, n + 1) :: rest else (other, n) :: bump label rest

/-- How often a label was counted. -/
def get (counts : Counts) (label : Text) : Nat := (counts.lookup label).getD 0

/-- The counts in the order of their labels. -/
def sorted (counts : Counts) : Counts := counts.mergeSort fun a b => Text.le a.1 b.1

end Counts

/-- What a checker has done so far. -/
structure Tally where
  /-- The number of checks. -/
  checks : Nat := 0
  /-- The lines checked, by outcome. -/
  lines : Counts := []
  /-- The checks, by whether they found errors. -/
  proofs : Counts := []
  /-- The number of hypotheses discharged. -/
  discharges : Nat := 0
  deriving DecidableEq, Repr

namespace Tally

/-- The label of a checked proof. -/
def status (r : Result) : Text := if r.ok then "ok" else "failed"

/-- Counts a check and its lines. -/
def addCheck (t : Tally) (r : Result) : Tally :=
  { t with
    checks := t.checks + 1
    lines := r.lines.foldl (fun counts l => counts.bump l.outcome) t.lines
    proofs := t.proofs.bump (status r) }

/-- Counts a discharged hypothesis. -/
def addDischarge (t : Tally) : Tally := { t with discharges := t.discharges + 1 }

/-- The lines that introduce a family of counters. -/
def familyHeader (name kind help : Text) : Text :=
  "# HELP " ++ name ++ " " ++ help ++ "\n# TYPE " ++ name ++ " " ++ kind ++ "\n"

/-- A labelled counter. -/
def sample (name label : Text) (count : Text × Nat) : Text :=
  name ++ "\x7b" ++ label ++ "=\"" ++ count.1 ++ "\"\x7d " ++ Text.ofNat count.2 ++ "\n"

/-- A family of labelled counters; nothing when there are none. -/
def family (name help label : Text) (counts : Counts) : Text :=
  if counts.isEmpty then []
  else familyHeader name "counter" help ++ counts.sorted.flatMap (sample name label)

/-- The counters as text. -/
def text (t : Tally) : Text :=
  let duration : Text := "hilbert_check_duration_seconds"
  let discharges : Text := "hilbert_deduction_rewrites_total"
  familyHeader duration "histogram" "Time spent checking one proof" ++
    duration ++ "_count " ++ Text.ofNat t.checks ++ "\n" ++
    family "hilbert_check_lines_total" "Proof lines classified, by outcome" "outcome" t.lines ++
    family "hilbert_check_proofs_total" "Proofs checked, by status" "status" t.proofs ++
    familyHeader discharges "counter" "Proofs rewritten by the deduction theorem" ++
    discharges ++ " " ++ Text.ofNat t.discharges ++ "\n"

end Tally

end Sequitur
