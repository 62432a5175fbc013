import Sequitur.Command.Flag
import Sequitur.Text.Distance

/-!
# Commands

The first argument that is neither a flag nor the value of one names the command. A word that names
none is answered with the names that are similar to it.
-/

namespace Sequitur

/-- What the program can be asked to do. -/
inductive Command where
  | init
  | check
  | deduce
  | watch
  | instantiate
  deriving DecidableEq, Repr

namespace Command

/-- The name of the program. -/
def program : Text := "hilbert"

/-- The commands, in the order they are offered in. -/
def all : List Command := [.init, .check, .deduce, .watch, .instantiate]

/-- The name of a command. -/
def name : Command → Text
  | .init => "init"
  | .check => "check"
  | .deduce => "deduce"
  | .watch => "watch"
  | .instantiate => "instantiate"

/-- The flags of every command. -/
def globalFlags : List Flag :=
  [⟨"config", none, .text fun t o => { o with config := t }⟩,
    ⟨"timeout", none, .duration fun n o => { o with timeout := n }⟩,
    ⟨"verbose", some 118, .switch fun b o => { o with verbose := b }⟩,
    ⟨"metrics-file", none, .text fun t o => { o with metricsFile := t }⟩]

/-- The flag that asks for help. -/
def helpFlag : Flag := ⟨"help", some 104, .switch fun b o => { o with help := b }⟩

/-- The flag for the file that output goes to. -/
def outputFlag : Flag := ⟨"output", some 111, .text fun t o => { o with output := t }⟩

/-- The flags of one command. -/
def ownFlags : Command → List Flag
  | .init => [⟨"force", none, .switch fun b o => { o with force := b }⟩]
  | .check =>
    [⟨"json", none, .switch fun b o => { o with json := b }⟩, outputFlag,
      ⟨"discharge-safety", none, .switch fun b o => { o with dischargeSafety := some b }⟩]
  | .deduce => [outputFlag, ⟨"no-verify", none, .switch fun b o => { o with noVerify := b }⟩]
  | .watch => []
  | .instantiate =>
    [⟨"var", none, .text fun t o => { o with name := t }⟩,
      ⟨"n", none, .integer fun n o => { o with number := n }⟩,
      ⟨"file", some 102, .text fun t o => { o with file := t }⟩,
      ⟨"specialize", none, .switch fun b o => { o with specialize := b }⟩]

/-- All flags that can stand with a command. -/
def flags (c : Command) : List Flag := c.ownFlags ++ globalFlags ++ [helpFlag]

/-- The number of arguments is not what the command takes. -/
inductive CountError where
  | tooFew (least found : Nat)
  | notExactly (expected found : Nat)
  deriving DecidableEq, Repr

/-- The wording of the error. -/
def CountError.message : CountError → Text
  | tooFew least found =>
    "requires at least " ++ Text.ofNat least ++ " arg(s), only received " ++ Text.ofNat found
  | notExactly expected found =>
    "accepts " ++ Text.ofNat expected ++ " arg(s), received " ++ Text.ofNat found

/-- What is wrong with the number of arguments of a command. -/
def countError? (c : Command) (n : Nat) : Option CountError :=
  match c with
  | .check => if n = 0 then some (.tooFew 1 0) else none
  | .deduce | .watch => if n = 1 then none else some (.notExactly 1 n)
  | .init | .instantiate => none

/-- What the arguments ask for. -/
inductive Request where
  /-- The flags of the program alone. -/
  | none
  | command (c : Command)
  /-- Help, or a script for a shell. -/
  | assistance
  deriving DecidableEq, Repr

/-- The command that explains the others. -/
def helpName : Text := "help"

/-- The command that writes scripts for shells. -/
def completionName : Text := "completion"

/-- What a word asks for. -/
def ofWord (word : Text) : Option Request :=
  match all.find? (·.name == word) with
  | some c => some (.command c)
  | none => if word = helpName || word = completionName then some .assistance else none

/-- Whether an argument is a flag whose value is the next argument, as far as can be told before the
command is known. -/
def takesNext (s : Text) : Bool :=
  !s.contains 61 &&
    match s with
    | 45 :: 45 :: body => !((Flag.find? globalFlags body).any Flag.isSwitch)
    | [45, b] => !((Flag.findShort? globalFlags b).any Flag.isSwitch)
    | _ => false

/-- The end of the flags. -/
def dashes : Text := "--"

/-- The arguments that are neither flags nor their values. A flag with at most one argument after it
ends the search. -/
def words (passing : Bool) : List Text → List Text
  | [] => []
  | s :: rest =>
    if passing then words false rest
    else if s = dashes then []
    else if takesNext s then if rest.length ≤ 1 then [] else words true rest
    else if s.isEmpty || s.head? == some 45 then words false rest
    else s :: words false rest

/-- The arguments without the first that is a given word and no value of a flag. -/
def dropWord (word : Text) (passing : Bool) : List Text → List Text
  | [] => []
  | s :: rest =>
    if passing then s :: dropWord word false rest
    else if s = dashes then s :: rest
    else if takesNext s then s :: dropWord word true rest
    else if s.head? != some 45 && s = word then rest
    else s :: dropWord word false rest

/-- A word is similar to a name if it is the beginning of it or at most this far from it. -/
def similarity : Nat := 2

/-- The names that are similar to a word. -/
def suggestions (word : Text) : List Text :=
  (all.map name ++ [completionName]).filter fun n =>
    Text.distance word.lower n ≤ similarity || word.lower.isPrefixOf n

/-- What is asked for, with the remaining arguments; or the word that names no command. -/
def find (args : List Text) : Except Text (Request × List Text) :=
  match words false args with
  | [] => .ok (.none, args)
  | word :: _ =>
    match ofWord word with
    | some request => .ok (request, dropWord word false args)
    | none => .error word

/-- The wording of the answer to a word that names no command. -/
def unknownMessage (word : Text) : Text :=
  let similar := suggestions word
  let line (n : Text) : Text := "\t" ++ n ++ "\n"
  let lines : Text := similar.flatMap line
  let hint : Text := if similar.isEmpty then [] else "\n\nDid you mean this?\n" ++ lines
  "unknown command " ++ word.quoted ++ " for " ++ program.quoted ++ hint

end Command

end Sequitur
