import Sequitur.Text.Integer
import Sequitur.Text.Quoted

/-!
# Durations

A duration is a sequence of numbers with units, such as `1h30m` or `1.5s`, after an optional sign.
Its value is a number of nanoseconds with at most 63 binary digits.
-/

namespace Sequitur

/-- Why a text is no duration. -/
inductive DurationError where
  | invalid
  | missingUnit
  | unknownUnit (u : Text)
  deriving DecidableEq, Repr

namespace Duration

/-- A byte of a quoted duration; only visible ASCII is shown as it is. -/
def shownByte (b : Byte) : Text :=
  if b < 32 || 128 ≤ b then "\\x" ++ Quoted.hex 2 b.toNat
  else if b = 34 || b = 92 then [92, b]
  else [b]

/-- A duration as messages quote it. -/
def shown (t : Text) : Text := "\"" ++ t.flatMap shownByte ++ "\""

/-- The nanoseconds of a unit. -/
def unit? (u : Text) : Option Nat :=
  if u = "ns" then some 1
  else if u = "us" || u = "µs" || u = "μs" then some 1000
  else if u = "ms" then some 1000000
  else if u = "s" then some 1000000000
  else if u = "m" then some 60000000000
  else if u = "h" then some 3600000000000
  else none

/-- The value of decimal digits. -/
def decimal (digits : Text) : Nat := digits.foldl (fun n d => 10 * n + (d.toNat - 48)) 0

/-- A number with its unit at the head of a text: the nanoseconds and the rest. -/
def part (t : Text) : Except DurationError (Nat × Text) :=
  let whole := t.takeWhile Byte.isDigit
  let afterWhole := t.drop whole.length
  let (fraction, rest) : Text × Text := match afterWhole with
    | 46 :: more => (more.takeWhile Byte.isDigit, more.dropWhile Byte.isDigit)
    | more => ([], more)
  let u := rest.takeWhile fun b => b != 46 && !Byte.isDigit b
  if whole.isEmpty && fraction.isEmpty || Integer.signedLimit < decimal whole then .error .invalid
  else if u.isEmpty then .error .missingUnit
  else
    match unit? u with
    | none => .error (.unknownUnit u)
    | some ns =>
      let n := decimal whole * ns
      if Integer.signedLimit < n then .error .invalid
      else .ok (n + decimal fraction * ns / Nat.pow 10 fraction.length, rest.drop u.length)

/-- The sum of the parts of a text; the number of parts is at most the first argument. -/
def parts : Nat → Nat → Text → Except DurationError Nat
  | _, acc, [] => .ok acc
  | 0, _, _ => .error .invalid
  | n + 1, acc, t => do
    let (value, rest) ← part t
    if Integer.signedLimit < acc + value then .error .invalid else parts n (acc + value) rest

/-- The nanoseconds of a duration. -/
def parse (text : Text) : Except DurationError Int :=
  let (negative, body) : Bool × Text := match text with
    | 45 :: rest => (true, rest)
    | 43 :: rest => (false, rest)
    | rest => (false, rest)
  if body = "0" then .ok 0
  else if body.isEmpty then .error .invalid
  else
    match parts body.length 0 body with
    | .error e => .error e
    | .ok n =>
      if negative then .ok (-n) else if n = Integer.signedLimit then .error .invalid else .ok n

end Duration

/-- The wording of the error for a text. -/
def DurationError.message (text : Text) : DurationError → Text
  | invalid => "time: invalid duration " ++ Duration.shown text
  | missingUnit => "time: missing unit in duration " ++ Duration.shown text
  | unknownUnit u =>
    "time: unknown unit " ++ Duration.shown u ++ " in duration " ++ Duration.shown text

end Sequitur
