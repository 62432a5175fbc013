import Sequitur.Expr.Canonical
import Sequitur.Expr.Parser
import Sequitur.Expr.Variables

/-!
# Numerals

The numeral of `n` is `0` followed by `n` primes. Instantiating a text puts a numeral in place of
an identifier, wherever it stands; specialising a formula gives the two proof lines that lead from
`@vF` to `F` with the numeral in place of `v`.
-/

namespace Sequitur

/-- The numeral of a number; negative numbers have that of zero. -/
def Text.numeral (n : Int) : Text := 48 :: List.replicate n.toNat 39

/-- The text with the numeral of `n` in place of the identifier `v`. -/
def Text.instantiate (text v : Text) (n : Int) : Text := text.replaceIdent v (Text.numeral n)

/-- Why a formula cannot be specialised. -/
inductive SpecializeError where
  | malformed (error : SyntaxError)
  | notFree (v formula : Text)
  deriving DecidableEq, Repr

/-- The wording of the error. -/
def SpecializeError.message : SpecializeError → Text
  | .malformed e => e.message
  | .notFree v f => "variable " ++ v ++ " does not occur free in " ++ f

/-- Reads a formula whose faults are faults of the specialisation. -/
def SpecializeError.parse (text : Text) : Except SpecializeError Expr :=
  text.parseFormula.mapError .malformed

/-- The instance of universal instantiation for the formula and the numeral, and its conclusion. -/
def Text.specialize (text v : Text) (n : Int) : Except SpecializeError (List Text) := do
  let f ← SpecializeError.parse text
  if !f.isFree v then .error (.notFree v f.canonical)
  let inst ← SpecializeError.parse (f.canonical.instantiate v n)
  return [(Expr.implies (.forAll v f) inst).canonical, inst.canonical]

end Sequitur
