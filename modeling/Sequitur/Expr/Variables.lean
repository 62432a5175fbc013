import Sequitur.Expr.Basic

/-!
# Free and bound variables

One walk over a tree collects both sets. It keeps, for every name, the number of quantifiers over
that name that enclose the current place: a variable is recorded as free where its count is zero
and as bound elsewhere. Entering a quantifier raises the count of its name and leaving it lowers
it again, so the counts after a subtree are those before it. A name can be in both sets.
-/

namespace Sequitur

/-- How many quantifiers over each name enclose a place. -/
abbrev Depths := Text → Nat

namespace Depths

/-- No quantifier encloses the place. -/
def zero : Depths := fun _ => 0

/-- One more quantifier over `x`. -/
def enter (d : Depths) (x : Text) : Depths := fun y => if y = x then d y + 1 else d y

/-- One quantifier over `x` less. -/
def leave (d : Depths) (x : Text) : Depths := fun y => if y = x then d y - 1 else d y

end Depths

/-- What a walk has seen so far, and where it is. -/
structure Survey where
  depths : Depths
  free : List Text
  bound : List Text

namespace Survey

/-- The state before the walk. -/
def empty : Survey := ⟨.zero, [], []⟩

/-- Records an occurrence of the variable `x`. -/
def record (x : Text) (s : Survey) : Survey :=
  if s.depths x = 0 then { s with free := s.free.insert x }
  else { s with bound := s.bound.insert x }

/-- Walks over a node, where `inside` walks over its children: a variable is recorded, and a
quantifier counts for its name while its children are walked over. -/
def node (k : Kind) (name : Text) (inside : Survey → Survey) (s : Survey) : Survey :=
  if k = .var then
    s.record name
  else if k.isQuantifier then
    let s := inside { s with depths := s.depths.enter name }
    { s with depths := s.depths.leave name }
  else
    inside s

end Survey

namespace Expr

mutual

/-- The walk over a tree. -/
def survey : Expr → Survey → Survey
  | .binary k l r, s => Survey.node k [] (fun s => r.survey (l.survey s)) s
  | .negation a, s => a.survey s
  | .successor a, s => a.survey s
  | .quantified k x b, s => Survey.node k x b.survey s
  | .predicate _ args, s => surveyAll args s
  | .function _ args, s => surveyAll args s
  | .var x, s => s.record x
  | .zero, s => s

/-- The walk over several trees, one after the other. -/
def surveyAll : List Expr → Survey → Survey
  | [], s => s
  | e :: rest, s => surveyAll rest (e.survey s)

end

/-- The variables with an occurrence outside the scope of every quantifier over them. -/
def freeVariables (e : Expr) : List Text := (e.survey .empty).free

/-- The variables with an occurrence in the scope of a quantifier over them. -/
def boundVariables (e : Expr) : List Text := (e.survey .empty).bound

/-- Whether the variable `x` occurs free. -/
def isFree (e : Expr) (x : Text) : Bool := e.freeVariables.contains x

end Expr

end Sequitur
