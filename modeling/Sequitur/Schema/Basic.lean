import Sequitur.Schema.Match

/-!
# The axiom schemas

Ten schemas of propositional logic and eight of arithmetic. Instances of induction, of universal
instantiation and of existential generalisation are no schemas in this sense; they are recognised
by their shape and have numbers of their own.
-/

namespace Sequitur

/-- Which list a schema is in. Codes outside the known ones are kept as they are. -/
inductive Family where
  | propositional
  | arithmetic
  | other (code : Int)
  deriving DecidableEq, Repr

namespace Family

/-- The family with a given code. -/
def ofCode : Int → Family
  | 0 => propositional
  | 1 => arithmetic
  | code => other code

/-- The name of a family. -/
def title : Family → Text
  | propositional => "Axiom"
  | arithmetic => "ArithAxiom"
  | other _ => "?"

end Family

/-- A numbered schema: its text and its tree. -/
structure Schema where
  family : Family
  number : Nat
  source : Text
  formula : Expr
  deriving Repr

namespace Schema

/-- Numbers the schemas of a family from one. -/
def numbered (family : Family) (schemas : List (Text × Expr)) : List Schema :=
  schemas.mapIdx fun i (source, formula) => ⟨family, i + 1, source, formula⟩

/-- The schemas of propositional logic. -/
def propositional : List Schema :=
  let A := Expr.predicate "A" []
  let B := Expr.predicate "B" []
  let C := Expr.predicate "C" []
  numbered .propositional [
    ("A->B->A", .implies A (.implies B A)),
    ("(A->B)->(A->B->C)->(A->C)",
      .implies (.implies A B) (.implies (.implies A (.implies B C)) (.implies A C))),
    ("A->B->A&B", .implies A (.implies B (.and A B))),
    ("A&B->A", .implies (.and A B) A),
    ("A&B->B", .implies (.and A B) B),
    ("A->A|B", .implies A (.or A B)),
    ("B->A|B", .implies B (.or A B)),
    ("(A->C)->(B->C)->(A|B->C)",
      .implies (.implies A C) (.implies (.implies B C) (.implies (.or A B) C))),
    ("(A->B)->(A->!B)->!A",
      .implies (.implies A B) (.implies (.implies A (.negation B)) (.negation A))),
    ("!!A->A", .implies (.negation (.negation A)) A)]

/-- The schemas of arithmetic. -/
def arithmetic : List Schema :=
  let a := Expr.var "a"
  let b := Expr.var "b"
  let c := Expr.var "c"
  numbered .arithmetic [
    ("a=b->a'=b'", .implies (.equals a b) (.equals (.successor a) (.successor b))),
    ("(a=b)->(a=c)->(b=c)",
      .implies (.equals a b) (.implies (.equals a c) (.equals b c))),
    ("a'=b'->a=b", .implies (.equals (.successor a) (.successor b)) (.equals a b)),
    ("!a'=0", .negation (.equals (.successor a) .zero)),
    ("a+b'=(a+b)'", .equals (.plus a (.successor b)) (.successor (.plus a b))),
    ("a+0=a", .equals (.plus a .zero) a),
    ("a*0=0", .equals (.times a .zero) .zero),
    ("a*b'=a*b+a", .equals (.times a (.successor b)) (.plus (.times a b) a))]

/-- All schemas, in the order in which they are tried. -/
def all : List Schema := propositional ++ arithmetic

/-- The number of induction among the axioms of arithmetic. -/
def induction : Nat := 9

/-- The number of `(@xA)->A[x:=t]` among the axioms of logic. -/
def universalInstantiation : Nat := 11

/-- The number of `A[x:=t]->(?xA)` among the axioms of logic. -/
def existentialGeneralization : Nat := 12

/-- The first schema of which the tree is an instance. -/
def find? (e : Expr) : Option Schema := all.find? fun s => e.isInstanceOf s.formula

end Schema

end Sequitur
