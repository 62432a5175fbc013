import Sequitur.Text.Basic

/-!
# Formulas and terms

`Expr` is the tree of a formula or of a term: connectives, quantifiers, predicates, and the terms
of arithmetic. One type holds both sorts, so that matching, substitution and printing are each one
recursion; which trees are well-formed is a separate matter. Every tree has a `kind`, a `name`
(empty where it carries none) and its `children` in order.
-/

namespace Sequitur

/-- What a node of a tree is. Codes outside the known ones are kept as they are. -/
inductive Kind where
  | implication
  | disjunction
  | conjunction
  | negation
  | universal
  | existential
  | equality
  | sum
  | product
  | successor
  | predicate
  | function
  | var
  | zero
  | other (code : Int)
  deriving DecidableEq, Repr

namespace Kind

/-- The kind with a given code. -/
def ofCode : Int → Kind
  | 1 => implication
  | 2 => disjunction
  | 3 => conjunction
  | 4 => negation
  | 5 => universal
  | 6 => existential
  | 7 => equality
  | 8 => sum
  | 9 => product
  | 10 => successor
  | 11 => predicate
  | 12 => function
  | 13 => var
  | 14 => zero
  | code => other code

/-- The name of a kind. -/
def title : Kind → Text
  | implication => "Implication"
  | disjunction => "Or"
  | conjunction => "And"
  | negation => "Not"
  | universal => "ForAll"
  | existential => "Exists"
  | equality => "Equals"
  | sum => "Plus"
  | product => "Times"
  | successor => "Successor"
  | predicate => "Predicate"
  | function => "Function"
  | var => "Variable"
  | zero => "Zero"
  | other _ => "?"

/-- The sign of a kind, empty for kinds that have none. -/
def symbol : Kind → Text
  | implication => "->"
  | disjunction => "|"
  | conjunction => "&"
  | negation => "!"
  | universal => "@"
  | existential => "?"
  | equality => "="
  | sum => "+"
  | product => "*"
  | successor => "'"
  | _ => []

/-- Whether nodes of this kind bind the variable they name. -/
def isQuantifier : Kind → Bool
  | universal | existential => true
  | _ => false

end Kind

/-- A formula or a term. -/
inductive Expr where
  /-- A connective, an equation, a sum or a product. -/
  | binary (kind : Kind) (left right : Expr)
  | negation (operand : Expr)
  | successor (operand : Expr)
  /-- `name` is bound in `body` when `kind` is a quantifier. -/
  | quantified (kind : Kind) (name : Text) (body : Expr)
  /-- A predicate; without arguments it is a propositional letter. -/
  | predicate (name : Text) (args : List Expr)
  | function (name : Text) (args : List Expr)
  | var (name : Text)
  | zero
  deriving Inhabited, Repr

namespace Expr

/-- `left -> right`. -/
@[match_pattern] abbrev implies (left right : Expr) : Expr := .binary .implication left right

/-- `left | right`. -/
@[match_pattern] abbrev or (left right : Expr) : Expr := .binary .disjunction left right

/-- `left & right`. -/
@[match_pattern] abbrev and (left right : Expr) : Expr := .binary .conjunction left right

/-- `left = right`. -/
@[match_pattern] abbrev equals (left right : Expr) : Expr := .binary .equality left right

/-- `left + right`. -/
@[match_pattern] abbrev plus (left right : Expr) : Expr := .binary .sum left right

/-- `left * right`. -/
@[match_pattern] abbrev times (left right : Expr) : Expr := .binary .product left right

/-- `body` for every `name`. -/
@[match_pattern] abbrev forAll (name : Text) (body : Expr) : Expr :=
  .quantified .universal name body

/-- `body` for some `name`. -/
@[match_pattern] abbrev exist (name : Text) (body : Expr) : Expr :=
  .quantified .existential name body

/-- The kind of the root. -/
def kind : Expr → Kind
  | .binary k _ _ => k
  | .negation _ => .negation
  | .successor _ => .successor
  | .quantified k _ _ => k
  | .predicate _ _ => .predicate
  | .function _ _ => .function
  | .var _ => .var
  | .zero => .zero

/-- The name at the root: a bound variable, a predicate, a function or a variable. -/
def name : Expr → Text
  | .quantified _ x _ => x
  | .predicate p _ => p
  | .function f _ => f
  | .var x => x
  | _ => []

/-- The subtrees of the root, in order. -/
def children : Expr → List Expr
  | .binary _ l r => [l, r]
  | .negation a => [a]
  | .successor a => [a]
  | .quantified _ _ b => [b]
  | .predicate _ args => args
  | .function _ args => args
  | .var _ => []
  | .zero => []

mutual

/-- The tree and all its subtrees, each before its own subtrees. -/
def preorder : Expr → List Expr
  | .binary k l r => .binary k l r :: (l.preorder ++ r.preorder)
  | .negation a => .negation a :: a.preorder
  | .successor a => .successor a :: a.preorder
  | .quantified k x b => .quantified k x b :: b.preorder
  | .predicate p args => .predicate p args :: preorderAll args
  | .function f args => .function f args :: preorderAll args
  | .var x => [.var x]
  | .zero => [.zero]

/-- The subtrees of several trees, one tree after the other. -/
def preorderAll : List Expr → List Expr
  | [] => []
  | e :: rest => e.preorder ++ preorderAll rest

end

end Expr

end Sequitur
