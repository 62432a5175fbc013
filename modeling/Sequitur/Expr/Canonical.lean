import Sequitur.Expr.Basic

/-!
# Canonical texts

The canonical text of a tree puts every binary connective, every negation and every quantifier in
parentheses and nothing else. Trees are compared by their canonical texts throughout.
-/

namespace Sequitur.Expr

/-- Arguments in parentheses, and nothing where there are none. -/
def argumentList : List Text → Text
  | [] => []
  | args => "(" ++ Text.join "," args ++ ")"

mutual

/-- The canonical text of a tree. -/
def canonical : Expr → Text
  | .binary k l r => "(" ++ l.canonical ++ k.symbol ++ r.canonical ++ ")"
  | .negation a => "(!" ++ a.canonical ++ ")"
  | .successor a => a.canonical ++ "'"
  | .quantified k x b => "(" ++ k.symbol ++ x ++ b.canonical ++ ")"
  | .predicate p args => p ++ argumentList (canonicalAll args)
  | .function f args => f ++ argumentList (canonicalAll args)
  | .var x => x
  | .zero => "0"

/-- The canonical texts of several trees. -/
def canonicalAll : List Expr → List Text
  | [] => []
  | e :: rest => e.canonical :: canonicalAll rest

end

/-- Whether two trees have the same canonical text. -/
def same (a b : Expr) : Bool := a.canonical == b.canonical

end Sequitur.Expr
