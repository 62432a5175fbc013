import Sequitur.Command.Duration
import Sequitur.Config.File
import Sequitur.Text.Integer

/-!
# Flags

Flags stand anywhere among the arguments, up to an argument `--`. A long flag has its value after an
equality sign or in the next argument; short flags can be joined. A switch takes a value only after
an equality sign. Each flag changes the `Options`.
-/

namespace Sequitur

/-- What the flags of a command line set. -/
structure Options where
  help : Bool := false
  config : Text := Config.defaultFile
  /-- In nanoseconds. -/
  timeout : Int := 300000000000
  verbose : Bool := false
  metricsFile : Text := []
  force : Bool := false
  json : Bool := false
  output : Text := []
  /-- Nothing when the configuration decides. -/
  dischargeSafety : Option Bool := none
  noVerify : Bool := false
  name : Text := "a"
  number : Int := 0
  file : Text := []
  specialize : Bool := false
  deriving DecidableEq, Repr

/-- How a flag changes the options, by the kind of its value. -/
inductive FlagEffect where
  | switch (set : Bool → Options → Options)
  | text (set : Text → Options → Options)
  | integer (set : Int → Options → Options)
  | duration (set : Int → Options → Options)

/-- A flag of the command line. -/
structure Flag where
  name : Text
  short : Option Byte := none
  effect : FlagEffect

/-- Why a value does not fit its flag. -/
inductive ValueError where
  | notBool
  | notInteger (error : IntegerError)
  | notDuration (error : DurationError)
  deriving DecidableEq, Repr

/-- The wording of the error for a value. -/
def ValueError.message (value : Text) : ValueError → Text
  | notBool => "strconv.ParseBool: parsing " ++ value.quoted ++ ": invalid syntax"
  | notInteger .invalid => "strconv.ParseInt: parsing " ++ value.quoted ++ ": invalid syntax"
  | notInteger .outOfRange => "strconv.ParseInt: parsing " ++ value.quoted ++ ": value out of range"
  | notDuration e => e.message value

/-- What is wrong with the flags of a command line. -/
inductive FlagError where
  | unknown (name : Text)
  | unknownShort (flag : Byte) (cluster : Text)
  | malformed (argument : Text)
  | missing (name : Text)
  | missingShort (flag : Byte) (cluster : Text)
  /-- `shown` is the flag with its short form. -/
  | badValue (shown value : Text) (error : ValueError)
  deriving DecidableEq, Repr

/-- A short flag as messages quote it: by the first byte of the character with its code. -/
def FlagError.shownShort (flag : Byte) : Text :=
  Byte.quoted ((Text.ofChar (Char.ofNat flag.toNat)).headD 0)

/-- The wording of the error. -/
def FlagError.message : FlagError → Text
  | unknown name => "unknown flag: --" ++ name
  | unknownShort flag cluster =>
    "unknown shorthand flag: " ++ shownShort flag ++ " in -" ++ cluster
  | malformed argument => "bad flag syntax: " ++ argument
  | missing name => "flag needs an argument: --" ++ name
  | missingShort flag cluster => "flag needs an argument: " ++ shownShort flag ++ " in -" ++ cluster
  | badValue shown value error =>
    "invalid argument " ++ value.quoted ++ " for " ++ shown.quoted ++ " flag: " ++
      error.message value

namespace Flag

/-- Whether a flag needs no value. -/
def isSwitch (f : Flag) : Bool :=
  match f.effect with
  | .switch _ => true
  | _ => false

/-- A flag as messages name it. -/
def shown (f : Flag) : Text :=
  match f.short with
  | some b => "-" ++ [b] ++ ", --" ++ f.name
  | none => "--" ++ f.name

/-- The truth value a text stands for. -/
def bool? (t : Text) : Option Bool :=
  let isOneOf (words : List String) : Bool := words.any fun w => Text.ofString w == t
  if isOneOf ["1", "t", "T", "TRUE", "true", "True"] then some true
  else if isOneOf ["0", "f", "F", "FALSE", "false", "False"] then some false
  else none

/-- The options after a flag with a value. -/
def apply (f : Flag) (value : Text) (o : Options) : Except FlagError Options :=
  let fail (e : ValueError) : Except FlagError Options := .error (.badValue f.shown value e)
  match f.effect with
  | .text set => .ok (set value o)
  | .switch set =>
    match bool? value with
    | some b => .ok (set b o)
    | none => fail .notBool
  | .integer set =>
    match Integer.parse value with
    | .ok n => .ok (set n o)
    | .error e => fail (.notInteger e)
  | .duration set =>
    match Duration.parse value with
    | .ok n => .ok (set n o)
    | .error e => fail (.notDuration e)

/-- The flag with a name. -/
def find? (flags : List Flag) (name : Text) : Option Flag := flags.find? (·.name == name)

/-- The flag with a short form. -/
def findShort? (flags : List Flag) (b : Byte) : Option Flag := flags.find? (·.short == some b)

/-- What an argument does. -/
inductive Step where
  /-- It sets options. -/
  | set (o : Options)
  /-- The next argument is the value of a flag, and it is an error if there is none. -/
  | await (f : Flag) (missing : FlagError) (o : Options)

/-- The word `true`, the value of a switch without one. -/
def on : Text := "true"

/-- Reads a long flag after its dashes. -/
def long (flags : List Flag) (body : Text) (o : Options) : Except FlagError Step :=
  if body.isEmpty || body.head? == some 45 || body.head? == some 61 then
    .error (.malformed ("--" ++ body))
  else
    let name := body.takeWhile (· != 61)
    match find? flags name with
    | none => .error (.unknown name)
    | some f =>
      match body.drop name.length with
      | _ :: value => return .set (← f.apply value o)
      | [] =>
        if f.isSwitch then return .set (← f.apply on o)
        else .ok (.await f (.missing name) o)

/-- A cluster that starts so is passed over. -/
def passedOver : Text := "test."

/-- Reads short flags joined after a dash. -/
def cluster (flags : List Flag) : Text → Options → Except FlagError Step
  | [], o => .ok (.set o)
  | b :: rest, o =>
    if passedOver.isPrefixOf (b :: rest) then .ok (.set o)
    else
      match findShort? flags b with
      | none => .error (.unknownShort b (b :: rest))
      | some f =>
        match rest with
        | 61 :: v :: more => return .set (← f.apply (v :: more) o)
        | rest =>
          if f.isSwitch then do cluster flags rest (← f.apply on o)
          else if rest.isEmpty then .ok (.await f (.missingShort b [b]) o)
          else return .set (← f.apply rest o)

/-- Reads arguments: the options, and the arguments that are no flags. -/
def read (flags : List Flag) (waiting : Option (Flag × FlagError)) (o : Options) :
    List Text → Except FlagError (Options × List Text)
  | [] =>
    match waiting with
    | some (_, missing) => .error missing
    | none => .ok (o, [])
  | s :: rest =>
    match waiting with
    | some (f, _) => do read flags none (← f.apply s o) rest
    | none =>
      let go : Step → Except FlagError (Options × List Text)
        | .set o => read flags none o rest
        | .await f missing o => read flags (some (f, missing)) o rest
      match s with
      | 45 :: 45 :: [] => .ok (o, rest)
      | 45 :: 45 :: body => do go (← long flags body o)
      | 45 :: b :: body => do go (← cluster flags (b :: body) o)
      | s => do
        let (o, others) ← read flags none o rest
        .ok (o, s :: others)

end Flag

end Sequitur
