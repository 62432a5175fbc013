import Sequitur.Config.Basic
import Sequitur.Deduction.Discharge
import Sequitur.Source
import Sequitur.Tally

/-!
# The engine

An engine checks proof files and discharges hypotheses according to its configuration, and counts
what it does. Every operation returns the engine as it is afterwards. An engine without a tally
counts nothing.
-/

namespace Sequitur

/-- What there is to say about a proof file. -/
inductive Finding where
  /-- It was checked. -/
  | checked (result : Result)
  /-- It could not be checked. -/
  | failed (message : Text)
  /-- Nothing is known but the sequent. -/
  | nothing

/-- A proof file, its sequent, and what there is to say about it. -/
structure Report where
  file : Text
  header : Text
  finding : Finding

/-- Whether the file was checked and has no errors. -/
def Report.ok (r : Report) : Bool :=
  match r.finding with
  | .checked result => result.ok
  | _ => false

/-- The report on a file that could not be checked. -/
def Report.failure (file message : Text) : Report := ⟨file, [], .failed message⟩

/-- What discharging the last hypothesis of a proof file gave. -/
structure Deduction where
  file : Text
  /-- The check of the file. -/
  source : Result
  output : Except DischargeError Rewriting
  /-- The check of the rewritten proof, if it was asked for and there is one. -/
  recheck : Option (Except SequentError Result)

/-- Why a hypothesis was not discharged, or not to be trusted. -/
inductive DeductionError where
  | discharge (error : DischargeError)
  | unverified (error : Unverified)
  deriving DecidableEq, Repr

/-- The wording of the error. -/
def DeductionError.message : DeductionError → Text
  | .discharge e => e.message
  | .unverified e => e.message

namespace Deduction

/-- The report on the file itself. -/
def report (d : Deduction) : Report := ⟨d.file, d.source.proof.header, .checked d.source⟩

/-- The check of the rewritten proof. -/
def verified (d : Deduction) : Option Result := d.recheck.bind Except.toOption

/-- The rewritten proof, unless something is wrong with it. -/
def outcome (d : Deduction) : Except DeductionError Rewriting :=
  match d.output with
  | .error e => .error (.discharge e)
  | .ok out =>
    match d.recheck.bind Unverified.ofRecheck with
    | some u => .error (.unverified u)
    | none => .ok out

end Deduction

/-- A configured checker and its counters. -/
structure Engine where
  config : Config
  tally : Option Tally := some {}

namespace Engine

/-- Switches discharge safety on or off. -/
def setDischargeSafety (e : Engine) (on : Bool) : Engine :=
  { e with config := { e.config with dischargeSafety := on } }

/-- Switches the verification of rewritten proofs on or off. -/
def setVerify (e : Engine) (on : Bool) : Engine :=
  { e with config := { e.config with verify := on } }

/-- Counts a check. -/
def addCheck (e : Engine) (r : Result) : Engine := { e with tally := e.tally.map (·.addCheck r) }

/-- Counts a discharged hypothesis. -/
def addDischarge (e : Engine) : Engine := { e with tally := e.tally.map Tally.addDischarge }

/-- Checks a proof file. Only a sequent that cannot be read is an error. -/
def checkSource (e : Engine) (s : Source) (dischargeSafety : Bool) :
    Except SourceError Result × Engine :=
  match Proof.read s.header s.lines with
  | .error error => (.error ⟨s.file, .sequent error⟩, e)
  | .ok p =>
    let result := p.check dischargeSafety
    (.ok result, e.addCheck result)

/-- Splits and checks the content of a file. -/
def check (e : Engine) (file content : Text) : Except SourceError Report × Engine :=
  match Source.parse file content with
  | .error error => (.error error, e)
  | .ok s =>
    match e.checkSource s e.config.dischargeSafety with
    | (.error error, e) => (.error error, e)
    | (.ok result, e) => (.ok ⟨file, result.proof.header, .checked result⟩, e)

/-- Discharges the last hypothesis of a proof file. The check is discharge-safe whatever the
configuration says. -/
def deduce (e : Engine) (s : Source) : Except SourceError Deduction × Engine :=
  match e.checkSource s true with
  | (.error error, e) => (.error error, e)
  | (.ok source, e) =>
    match source.discharge e.config.templates with
    | .error error => (.ok ⟨s.file, source, .error error, none⟩, e)
    | .ok out =>
      let e := e.addDischarge
      if e.config.verify then
        let recheck := out.recheck
        let e := match recheck with
          | .ok result => e.addCheck result
          | .error _ => e
        (.ok ⟨s.file, source, .ok out, some recheck⟩, e)
      else
        (.ok ⟨s.file, source, .ok out, none⟩, e)

end Engine

end Sequitur
