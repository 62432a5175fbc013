import Sequitur.Text.Basic

/-!
# Base 64

Three bytes are written as four digits of base 64; a group that is short of bytes is filled with
equality signs.
-/

namespace Sequitur.Base64

/-- The digit of a value below 64. -/
def digit (n : Nat) : Byte :=
  if n < 26 then UInt8.ofNat (65 + n)
  else if n < 52 then UInt8.ofNat (71 + n)
  else if n < 62 then UInt8.ofNat (n - 4)
  else if n = 62 then 43 else 47

/-- The value of a digit. -/
def value? (b : Byte) : Option Nat :=
  if Byte.isUpper b then some (b.toNat - 65)
  else if Byte.isLower b then some (b.toNat - 71)
  else if Byte.isDigit b then some (b.toNat + 4)
  else if b = 43 then some 62
  else if b = 47 then some 63
  else none

/-- The sign that fills a group. -/
abbrev pad : Byte := 61

/-- The digits of a text. -/
def encode : Text → Text
  | [] => []
  | [a] =>
    let n := a.toNat * 16
    [digit (n / 64), digit (n % 64), pad, pad]
  | [a, b] =>
    let n := (a.toNat * 256 + b.toNat) * 4
    [digit (n / 4096), digit (n / 64 % 64), digit (n % 64), pad]
  | a :: b :: c :: rest =>
    let n := (a.toNat * 256 + b.toNat) * 256 + c.toNat
    digit (n / 262144) :: digit (n / 4096 % 64) :: digit (n / 64 % 64) :: digit (n % 64) ::
      encode rest

/-- The text of groups of digits. -/
def decodeGroups : Text → Option Text
  | [] => some []
  | [a, b, c, d] => do
    let x ← value? a
    let y ← value? b
    if c = pad && d = pad then some [UInt8.ofNat ((x * 64 + y) / 16)]
    else
      let z ← value? c
      if d = pad then
        let n := ((x * 64 + y) * 64 + z) / 4
        some [UInt8.ofNat (n / 256), UInt8.ofNat (n % 256)]
      else
        let w ← value? d
        let n := ((x * 64 + y) * 64 + z) * 64 + w
        some [UInt8.ofNat (n / 65536), UInt8.ofNat (n / 256 % 256), UInt8.ofNat (n % 256)]
  | a :: b :: c :: d :: rest => do
    let n := (((← value? a) * 64 + (← value? b)) * 64 + (← value? c)) * 64 + (← value? d)
    let others ← decodeGroups rest
    some (UInt8.ofNat (n / 65536) :: UInt8.ofNat (n / 256 % 256) :: UInt8.ofNat (n % 256) :: others)
  | _ => none

/-- The text of digits; line breaks among them do not count. -/
def decode (digits : Text) : Option Text := decodeGroups (digits.filter fun b => b != 10 && b != 13)

end Sequitur.Base64
