import Sequitur.Expr.Canonical

/-!
# Matching against a schema

In a schema a propositional letter stands for any formula and a variable for any term. Matching
goes over the schema and the candidate together: the first occurrence of a letter or variable
binds it to the canonical text of what stands in its place, and later occurrences must agree. All
other names are literal.
-/

namespace Sequitur

/-- What the letters and variables of a schema stand for, as canonical texts. -/
abbrev Bindings := List (Text × Text)

namespace Schema

/-- The outcome of matching: whether it succeeded, and the bindings made so far. -/
abbrev Outcome := Bool × Bindings

/-- Goes on with `next` unless matching has failed. -/
def Outcome.andThen (outcome : Outcome) (next : Bindings → Outcome) : Outcome :=
  if outcome.1 then next outcome.2 else outcome

/-- Matches the letter or variable `x`: binds it, or compares with what it is bound to. -/
def bind (x : Text) (candidate : Expr) (b : Bindings) : Outcome :=
  match b.lookup x with
  | some bound => (bound == candidate.canonical, b)
  | none => (true, (x, candidate.canonical) :: b)

/-- Matches a node that is no letter and no variable: kind and name must agree, and `below`
matches the subtrees. -/
def literal (kind : Kind) (name : Text) (candidate : Expr) (b : Bindings)
    (below : List Expr → Outcome) : Outcome :=
  if candidate.kind = kind ∧ candidate.name = name then below candidate.children else (false, b)

mutual

/-- Matches a candidate against a schema, given the bindings so far. -/
def matchTree : Expr → Expr → Bindings → Outcome
  | .var x, candidate, b => bind x candidate b
  | .predicate p args, candidate, b =>
    if args.isEmpty then bind p candidate b
    else literal .predicate p candidate b fun cs =>
      if cs.length = args.length then matchAll args cs b else (false, b)
  | .function f args, candidate, b =>
    literal .function f candidate b fun cs =>
      if cs.length = args.length then matchAll args cs b else (false, b)
  | .binary k l r, candidate, b =>
    literal k [] candidate b fun
      | [cl, cr] => (matchTree l cl b).andThen (matchTree r cr)
      | _ => (false, b)
  | .negation a, candidate, b =>
    literal .negation [] candidate b fun
      | [c] => matchTree a c b
      | _ => (false, b)
  | .successor a, candidate, b =>
    literal .successor [] candidate b fun
      | [c] => matchTree a c b
      | _ => (false, b)
  | .quantified k x a, candidate, b =>
    literal k x candidate b fun
      | [c] => matchTree a c b
      | _ => (false, b)
  | .zero, candidate, b =>
    literal .zero [] candidate b fun cs => (cs.isEmpty, b)

/-- Matches several candidates in order, up to the first that fails. -/
def matchAll : List Expr → List Expr → Bindings → Outcome
  | s :: ss, c :: cs, b => (matchTree s c b).andThen (matchAll ss cs)
  | _, _, b => (true, b)

end

end Schema

/-- Whether the tree is an instance of the schema. -/
def Expr.isInstanceOf (e schema : Expr) : Bool := (Schema.matchTree schema e []).1

end Sequitur
