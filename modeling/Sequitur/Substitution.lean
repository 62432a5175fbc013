import Sequitur.Expr.Canonical
import Sequitur.Expr.Variables

/-!
# Substitution instances

Whether one formula arises from another by putting a term in place of the free occurrences of a
variable. The first walk finds the term at the first free occurrence and compares it at the
others; a quantifier over the variable shields its scope, which has to be unchanged. The second
walk tells whether a variable of the term is captured by a quantifier.
-/

namespace Sequitur

/-- A term was put in the scope of a quantifier over one of its variables. -/
structure CaptureError where
  term : Text
  formula : Text
  name : Text
  deriving DecidableEq, Repr

/-- The wording of the error. -/
def CaptureError.message (e : CaptureError) : Text :=
  "term " ++ e.term ++ " is not free for substitution into formula " ++ e.formula ++
    " in place of variable " ++ e.name

namespace Substitution

/-- The term in place of the variable, as far as it is known. -/
abbrev Found := Option Expr

/-- Compares a node of the template with the instance. The scope of a quantifier over `x` must be
unchanged, an occurrence of `x` finds the term or is compared with it, and all other nodes agree
in kind and name, with `below` for the subtrees. The result is `none` where they differ. -/
def node (x : Text) (template inst : Expr) (found : Found)
    (below : List Expr → Option Found) : Option Found :=
  if template.kind.isQuantifier ∧ template.name = x then
    if template.same inst then some found else none
  else if template.kind = .var ∧ template.name = x then
    match found with
    | none => some (some inst)
    | some t => if t.same inst then some found else none
  else if template.kind = inst.kind ∧ template.name = inst.name then
    below inst.children
  else
    none

mutual

/-- Walks over a template and an instance of it together. -/
def locate (x : Text) : Expr → Expr → Found → Option Found
  | .binary k l r, inst, found => node x (.binary k l r) inst found fun
    | [il, ir] => (locate x l il found).bind (locate x r ir)
    | _ => none
  | .negation a, inst, found => node x (.negation a) inst found fun
    | [i] => locate x a i found
    | _ => none
  | .successor a, inst, found => node x (.successor a) inst found fun
    | [i] => locate x a i found
    | _ => none
  | .quantified k y b, inst, found => node x (.quantified k y b) inst found fun
    | [i] => locate x b i found
    | _ => none
  | .predicate p args, inst, found => node x (.predicate p args) inst found fun is =>
    locateAll x args is found
  | .function f args, inst, found => node x (.function f args) inst found fun is =>
    locateAll x args is found
  | .var y, inst, found => node x (.var y) inst found fun is =>
    if is.isEmpty then some found else none
  | .zero, inst, found => node x .zero inst found fun is =>
    if is.isEmpty then some found else none

/-- Walks over several pairs in order; their numbers must agree. -/
def locateAll (x : Text) : List Expr → List Expr → Found → Option Found
  | [], [], found => some found
  | t :: ts, i :: is, found => (locate x t i found).bind (locateAll x ts is)
  | _, _, _ => none

end

/-- The state of the second walk at a node of template and instance: nothing below a quantifier
over `x` matters, an occurrence of `x` is captured when one of the variables of the term is in
scope, and a quantifier of the instance adds its variable to the scope of `below`. -/
def capturedNode (x : Text) (names scope : List Text) (template inst : Expr)
    (below : List Text → List Expr → Bool) : Bool :=
  if template.kind.isQuantifier ∧ template.name = x then
    false
  else if template.kind = .var ∧ template.name = x then
    names.any scope.contains
  else
    below (if inst.kind.isQuantifier then inst.name :: scope else scope) inst.children

mutual

/-- Whether one of the `names` is captured where the term stands for `x`, given the quantifiers
in whose scope the two trees stand. -/
def captured (x : Text) (names : List Text) : List Text → Expr → Expr → Bool
  | scope, .binary k l r, inst => capturedNode x names scope (.binary k l r) inst fun
    | scope, [il, ir] => captured x names scope l il || captured x names scope r ir
    | _, _ => false
  | scope, .negation a, inst => capturedNode x names scope (.negation a) inst fun
    | scope, [i] => captured x names scope a i
    | _, _ => false
  | scope, .successor a, inst => capturedNode x names scope (.successor a) inst fun
    | scope, [i] => captured x names scope a i
    | _, _ => false
  | scope, .quantified k y b, inst => capturedNode x names scope (.quantified k y b) inst fun
    | scope, [i] => captured x names scope b i
    | _, _ => false
  | scope, .predicate p args, inst =>
    capturedNode x names scope (.predicate p args) inst fun scope is =>
      capturedAny x names scope args is
  | scope, .function f args, inst =>
    capturedNode x names scope (.function f args) inst fun scope is =>
      capturedAny x names scope args is
  | scope, .var y, inst => capturedNode x names scope (.var y) inst fun _ _ => false
  | _, .zero, _ => false

/-- Whether a variable is captured in one of several pairs. -/
def capturedAny (x : Text) (names : List Text) : List Text → List Expr → List Expr → Bool
  | scope, t :: ts, i :: is => captured x names scope t i || capturedAny x names scope ts is
  | _, _, _ => false

end

/-- The term that stands in `inst` for the free occurrences of `x` in `template`, when `inst` is
such an instance and `x` occurs free. -/
def term? (template inst : Expr) (x : Text) : Option Expr := (locate x template inst none).join

/-- Whether `inst` is `template` with one term in place of every free occurrence of `x`. It is an
error if that term is captured; where `x` does not occur free the two have to be the same. -/
def check (template inst : Expr) (x : Text) : Except CaptureError Bool :=
  match locate x template inst none with
  | none => .ok false
  | some none => .ok true
  | some (some t) =>
    let names := t.freeVariables
    if names.isEmpty then .ok true
    else if captured x names [] template inst then
      .error ⟨t.canonical, inst.canonical, x⟩
    else .ok true

end Substitution

end Sequitur
