import Sequitur.Text.Basic

/-!
# Integers as texts

An integer may have a sign and one of the prefixes `0x`, `0o`, `0b`; a leading zero alone means
octal. Underscores may stand between digits and after a prefix. The value has to fit in 64 bits.
-/

namespace Sequitur

/-- Why a text is no integer. -/
inductive IntegerError where
  | invalid
  | outOfRange
  deriving DecidableEq, Repr

namespace Integer

/-- The lower-case form of a letter. -/
def lower (b : Byte) : Byte := if Byte.isUpper b then b + 32 else b

/-- The value of a digit or letter. -/
def digit? (b : Byte) : Option Nat :=
  if Byte.isDigit b then some (b.toNat - 48)
  else if Byte.isLetter b then some ((lower b).toNat - 87)
  else none

/-- The base a text is written in, and its digits. -/
def splitBase : Text → Nat × Text
  | 48 :: p :: d :: rest =>
    if lower p = 98 then (2, d :: rest)
    else if lower p = 111 then (8, d :: rest)
    else if lower p = 120 then (16, d :: rest)
    else (8, p :: d :: rest)
  | 48 :: rest => (8, rest)
  | text => (10, text)

/-- The value of digits with underscores among them, from left to right. -/
def valueFrom (base limit acc : Nat) : Text → Except IntegerError Nat
  | [] => .ok acc
  | b :: rest =>
    if b = 95 then valueFrom base limit acc rest
    else
      match digit? b with
      | none => .error .invalid
      | some d =>
        if base ≤ d then .error .invalid
        else if limit ≤ acc * base + d then .error .outOfRange
        else valueFrom base limit (acc * base + d) rest

/-- What stands before a character of a number. -/
inductive Before where
  | start
  | digit
  | underscore
  | other
  deriving DecidableEq

/-- Whether every underscore stands between digits. -/
def underscoresFrom (hex : Bool) (before : Before) : Text → Bool
  | [] => before != .underscore
  | b :: rest =>
    if Byte.isDigit b || (hex && 97 ≤ lower b && lower b ≤ 102) then underscoresFrom hex .digit rest
    else if b = 95 then before == .digit && underscoresFrom hex .underscore rest
    else before != .underscore && underscoresFrom hex .other rest

/-- Whether the underscores of a number without sign are where they may be. -/
def underscoresOk : Text → Bool
  | 48 :: p :: rest =>
    let p := lower p
    if p = 98 || p = 111 || p = 120 then underscoresFrom (p = 120) .digit rest
    else underscoresFrom false .start (48 :: p :: rest)
  | text => underscoresFrom false .start text

/-- The first number that has more than 64 binary digits. -/
def unsignedLimit : Nat := 18446744073709551616

/-- The first number that has more than 63 binary digits. -/
def signedLimit : Nat := 9223372036854775808

/-- The value of a number without sign that has at most 64 binary digits. -/
def unsigned? (text : Text) : Except IntegerError Nat :=
  if text.isEmpty then .error .invalid
  else
    let (base, digits) := splitBase text
    match valueFrom base unsignedLimit 0 digits with
    | .error e => .error e
    | .ok n => if digits.contains 95 && !underscoresOk text then .error .invalid else .ok n

/-- The value of an integer. -/
def parse (text : Text) : Except IntegerError Int :=
  let (negative, digits) := match text with
    | 45 :: rest => (true, rest)
    | 43 :: rest => (false, rest)
    | rest => (false, rest)
  match unsigned? digits with
  | .error e => .error e
  | .ok n =>
    if negative then if signedLimit < n then .error .outOfRange else .ok (-n)
    else if signedLimit ≤ n then .error .outOfRange else .ok n

end Integer

end Sequitur
