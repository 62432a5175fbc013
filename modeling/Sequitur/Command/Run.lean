import Sequitur.Batch
import Sequitur.Command.Basic
import Sequitur.Numeral
import Sequitur.Report.Json
import Sequitur.Report.Plain
import Sequitur.Watch

/-!
# Running a command line

`Invocation.run` gives everything a run of the program does: what it prints, the files as they are
afterwards, and the error it ends with. The counters are written at the end whether or not the
command failed, if a file for them is named and the command came as far as loading the
configuration.
-/

namespace Sequitur

/-- A command line and what it is run on. -/
structure Invocation where
  args : List Text
  stdin : Text := []
  color : Bool := false
  tree : FileTree := {}

/-- Why a run failed. -/
inductive CommandError where
  /-- A proof has errors, and the output says which. -/
  | proofsFailed
  | flags (error : FlagError)
  | unknownCommand (word : Text)
  | count (error : Command.CountError)
  | config (error : ConfigError)
  | configExists (path : Text)
  | configUnwritten (error : PathError)
  | path (error : PathError)
  | check (error : CheckError)
  | source (error : SourceError)
  | deduction (error : DeductionError)
  | negative (n : Int)
  | noTemplate
  | specialize (error : SpecializeError)
  | watch (error : WatchError)
  | metrics (error : PathError)
  deriving DecidableEq, Repr

namespace CommandError

/-- The wording of the error. -/
def message : CommandError → Text
  | proofsFailed => "proof check failed"
  | flags e => e.message
  | unknownCommand word => Command.unknownMessage word
  | count e => e.message
  | config e => e.message
  | configExists file => "initializing config file: " ++ file ++ " already exists"
  | configUnwritten e => "initializing config file: " ++ e.message
  | path e => e.message
  | check e => e.message
  | source e => e.message
  | deduction e => e.message
  | negative n => "--n must not be negative, got " ++ Text.ofInt n
  | noTemplate => "no template given"
  | specialize e => e.message
  | watch e => e.message
  | metrics e => "writing metrics: " ++ e.message

/-- Whether the program prints the error at the end; that proofs failed has been said before. -/
def isPrinted : CommandError → Bool
  | proofsFailed => false
  | _ => true

end CommandError

/-- What a run has done so far, or in the end. -/
structure Outcome where
  stdout : Text := []
  stderr : Text := []
  tree : FileTree
  /-- The engine, if the run came to have one. -/
  engine : Option Engine := none
  error : Option CommandError := none

namespace Outcome

/-- The run ends with an error. -/
def fail (o : Outcome) (e : CommandError) : Outcome := { o with error := some e }

/-- More is printed. -/
def print (o : Outcome) (t : Text) : Outcome := { o with stdout := o.stdout ++ t }

/-- A text goes to a file, or is printed when none is named. -/
def emit (o : Outcome) (file t : Text) : Outcome :=
  if file.isEmpty then o.print t
  else
    match o.tree.write file t with
    | .ok tree => { o with tree := tree }
    | .error e => o.fail (.path e)

end Outcome

namespace Command

/-- Loads the configuration and goes on with an engine for it. -/
def withEngine (options : Options) (tree : FileTree) (next : Engine → Outcome) : Outcome :=
  match Config.load tree options.config with
  | .error e => { tree := tree, error := some (.config e) }
  | .ok c => next { config := c }

/-! ## Checking -/

/-- The argument that stands for the standard input. -/
def stdinName : Text := "-"

/-- The file name in reports on the standard input. -/
def stdinFile : Text := "<stdin>"

/-- Checks the standard input once for each time it is asked for; after the first it is empty. -/
def checkStdin : Nat → Text → Engine → List Report × Engine
  | 0, _, e => ([], e)
  | n + 1, content, e =>
    let (outcome, e) := e.check stdinFile content
    let (reports, e) := checkStdin n [] e
    (Batch.report stdinFile (outcome.mapError .source) :: reports, e)

/-- A run that has less time than this has none for a directory. -/
def leastTimeout : Int := 1000

/-- The reports on arguments, those on the standard input first. -/
def checkArguments (inv : Invocation) (options : Options) (args : List Text) (e : Engine) :
    Except CheckError (List Report) × Engine :=
  let (reports, e) := checkStdin (args.count stdinName) inv.stdin e
  let files := args.filter (· != stdinName)
  match Batch.run inv.tree (options.timeout < leastTimeout) (Engine.checkFile inv.tree)
      (fun _ => Arrival.inTurn) files e with
  | (.error error, e) => (.error error, e)
  | (.ok others, e) => (.ok (reports ++ others), e)

/-- Reports as they are printed. -/
def reportsText (json color : Bool) (reports : List Report) : Text :=
  if json then Report.jsonAll reports ++ "\n" else Report.plainAll color reports

/-- Checks files, directories and the standard input. -/
def runCheck (inv : Invocation) (options : Options) (args : List Text) : Outcome :=
  withEngine options inv.tree fun e =>
    let e := match options.dischargeSafety with
      | some on => e.setDischargeSafety on
      | none => e
    match checkArguments inv options args e with
    | (.error error, e) => { tree := inv.tree, engine := some e, error := some (.check error) }
    | (.ok reports, e) =>
      let json := options.json || e.config.format = Config.jsonFormat
      let o := Outcome.emit { tree := inv.tree, engine := some e } options.output
        (reportsText json inv.color reports)
      if o.error.isNone && !reports.all Report.ok then o.fail .proofsFailed else o

/-! ## Discharging a hypothesis -/

/-- Whether the proof itself is at fault when its hypothesis is not discharged. -/
def isProofFault : DeductionError → Bool
  | .discharge (.invalid _) => true
  | .discharge (.unjustified _) => true
  | _ => false

/-- Discharges the last hypothesis of a proof file. -/
def runDeduce (inv : Invocation) (options : Options) (file : Text) : Outcome :=
  withEngine options inv.tree fun e =>
    let e := if options.noVerify then e.setVerify false else e
    let o : Outcome := { tree := inv.tree, engine := some e }
    match inv.tree.read file with
    | .error error => o.fail (.path error)
    | .ok content =>
      match Source.parse file content with
      | .error error => o.fail (.source error)
      | .ok source =>
        match e.deduce source with
        | (.error error, e) => { o with engine := some e }.fail (.source error)
        | (.ok d, e) =>
          let o := { o with engine := some e }
          match d.outcome with
          | .ok out => o.emit options.output out.text
          | .error error =>
            if isProofFault error then
              { o with stderr := d.report.plain inv.color }.fail .proofsFailed
            else o.fail (.deduction error)

/-! ## Other commands -/

/-- Writes a configuration file with the defaults. -/
def runInit (inv : Invocation) (options : Options) : Outcome :=
  let path := if options.config.isEmpty then Config.defaultFile else options.config
  let o : Outcome := { tree := inv.tree }
  if !options.force && (inv.tree.stat path).isOk then o.fail (.configExists path)
  else
    match Config.save inv.tree path {} with
    | .error e => o.fail (.configUnwritten e)
    | .ok tree =>
      { o with tree := tree }.print ("Configuration file created/updated: " ++ path ++ "\n")

/-- Prints the instances of templates, up to the first that has none. -/
def printInstances (options : Options) : List Text → Outcome → Outcome
  | [], o => o
  | t :: rest, o =>
    if options.specialize then
      match t.specialize options.name options.number with
      | .error e => o.fail (.specialize e)
      | .ok lines =>
        printInstances options rest (o.print (Text.join [Byte.newline] lines ++ [Byte.newline]))
    else
      printInstances options rest
        (o.print (t.instantiate options.name options.number ++ [Byte.newline]))

/-- Puts a numeral into templates, which are arguments or the content of a file. -/
def runInstantiate (inv : Invocation) (options : Options) (args : List Text) : Outcome :=
  let o : Outcome := { tree := inv.tree }
  if options.number < 0 then o.fail (.negative options.number)
  else
    let templates : Except PathError (List Text) :=
      if options.file.isEmpty then .ok args
      else do
        let content ← inv.tree.read options.file
        return args ++ [content.trimRight Byte.newline]
    match templates with
    | .error e => o.fail (.path e)
    | .ok [] => o.fail .noTemplate
    | .ok templates => printInstances options templates o

/-- Starts to watch a file; what is printed is its first check. -/
def runWatch (inv : Invocation) (options : Options) (file : Text) : Outcome :=
  withEngine options inv.tree fun e =>
    match Watch.run e file inv.tree [] with
    | (.error error, e) => { tree := inv.tree, engine := some e, error := some (.watch error) }
    | (.ok outcomes, e) =>
      let shown : Except CheckError Report → Text
        | .ok r => r.plain inv.color ++ "\n"
        | .error _ => []
      { tree := inv.tree, engine := some e, stdout := outcomes.flatMap shown }

/-! ## The whole run -/

/-- Runs a command on its arguments. -/
def execute (inv : Invocation) (options : Options) (args : List Text) : Command → Outcome
  | .init => runInit inv options
  | .check => runCheck inv options args
  | .deduce => runDeduce inv options (args.headD [])
  | .watch => runWatch inv options (args.headD [])
  | .instantiate => runInstantiate inv options args

/-- What stands for the number in the name of a temporary file. -/
def temporaryMark : Text := "#"

/-- The name of the temporary file that takes the place of another when it is complete. -/
def temporaryName (file : Text) : Text :=
  let directory := Path.parent file
  let start : Text := if directory.getLast? == some Path.slash then directory else directory ++ "/"
  start ++ Path.base file ++ temporaryMark

/-- The tree with a file written by way of a temporary one. -/
def replaceFile (tree : FileTree) (file content : Text) : Except PathError FileTree :=
  match tree.writable (temporaryName file) with
  | .error fault => .error ⟨"open", temporaryName file, fault⟩
  | .ok _ => tree.write file content

/-- Writes the counters at the end of a run. When the run has failed already, that they could not be
written is only mentioned. -/
def writeMetrics (options : Options) (o : Outcome) : Outcome :=
  match o.engine.bind Engine.tally with
  | none => o
  | some tally =>
    if options.metricsFile.isEmpty then o
    else
      match replaceFile o.tree options.metricsFile tally.text with
      | .ok tree => { o with tree := tree }
      | .error e =>
        let error := CommandError.metrics e
        if o.error.isNone then o.fail error
        else { o with stderr := o.stderr ++ "error: " ++ error.message ++ "\n" }

end Command

/-- Runs a command line. -/
def Invocation.run (inv : Invocation) : Outcome :=
  let o : Outcome := { tree := inv.tree }
  match Command.find inv.args with
  | .error word => o.fail (.unknownCommand word)
  | .ok (.assistance, _) => o
  | .ok (.none, rest) =>
    match Flag.read (Command.globalFlags ++ [Command.helpFlag]) none {} rest with
    | .error e => o.fail (.flags e)
    | .ok _ => o
  | .ok (.command c, rest) =>
    match Flag.read c.flags none {} rest with
    | .error e => o.fail (.flags e)
    | .ok (options, args) =>
      if options.help then o
      else
        match c.countError? args.length with
        | some e => o.fail (.count e)
        | none => Command.writeMetrics options (c.execute inv options args)

end Sequitur
