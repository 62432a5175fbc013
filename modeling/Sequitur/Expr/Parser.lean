import Sequitur.Expr.Basic
import Sequitur.Text.Quoted
import Sequitur.Text.Space
import Sequitur.Token

/-!
# Reading formulas and terms

The grammar, loosest binding first:

    Formula     := Disjunction ('->' Disjunction)*      grouped to the right
    Disjunction := Conjunction ('|' Conjunction)*       grouped to the left
    Conjunction := Unary ('&' Unary)*                   grouped to the left
    Unary       := '!' Unary | '(' Formula ')' | ('@' | '?') variable Unary
                 | predicate Arguments? | Term '=' Term
    Term        := Product ('+' Product)*               grouped to the left
    Product     := Increment ('*' Increment)*           grouped to the left
    Increment   := Primary "'"*
    Primary     := variable | function Arguments | '(' Term ')' | '0'
    Arguments   := '(' Term (',' Term)* ')'

where predicates are upper-case identifiers, variables and functions lower-case ones. A `(` where
a `Unary` is expected opens a term when `=`, `+`, `*` or `'` follows the matching `)`, and a
formula otherwise.

Every nonterminal is a function from the tokens ahead to a tree and the tokens left. Recursion is
on a number that bounds the tokens ahead; `Text.parseFormula` and `Text.parseTerm` start with the
number of all tokens, which is always enough.
-/

namespace Sequitur

/-- What is wrong where reading stops. -/
inductive Reason where
  /-- A term was expected; the byte found, if any. -/
  | expectedTerm (found : Option Byte)
  /-- The byte `wanted` was expected; the byte found, if any. -/
  | expectedByte (found : Option Byte) (wanted : Byte)
  /-- A quantifier is not followed by a variable. -/
  | expectedVariable
  /-- An argument is followed by neither a comma nor a closing parenthesis. -/
  | unterminatedArguments
  /-- A closing parenthesis follows a complete formula or term. -/
  | unbalanced
  /-- Another byte follows a complete formula or term. -/
  | unexpected (found : Byte)
  deriving DecidableEq, Repr

/-- The wording of a reason. A zero byte where a term is expected counts as the end. -/
def Reason.message : Reason → Text
  | .expectedTerm none => "unexpected end of input, expected term"
  | .expectedTerm (some b) =>
    if b = 0 then "unexpected end of input, expected term"
    else "unexpected character " ++ b.quoted ++ ", expected term"
  | .expectedByte none wanted => "unexpected end of input, expected " ++ wanted.quoted
  | .expectedByte (some b) wanted =>
    "unexpected character " ++ b.quoted ++ ", expected " ++ wanted.quoted
  | .expectedVariable => "expected bound variable"
  | .unterminatedArguments => "unterminated argument list"
  | .unbalanced => "unbalanced parenthesis"
  | .unexpected b => "unexpected character " ++ b.quoted

/-- A text that is no formula or no term: the text without white space, the place where reading
stopped, and what was wrong there. -/
structure SyntaxError where
  input : Text
  position : Nat
  reason : Reason
  deriving DecidableEq, Repr

namespace SyntaxError

/-- How many bytes a message shows of the text after the error. -/
def nearWidth : Nat := 16

/-- The text at the error. -/
def near (e : SyntaxError) : Text := (e.input.drop e.position).take nearWidth

/-- The wording of the error. -/
def message (e : SyntaxError) : Text :=
  if e.input.length ≤ e.position then
    "syntax error in " ++ e.input.quoted ++ " at end of input: " ++ e.reason.message
  else
    "syntax error in " ++ e.input.quoted ++ " near " ++ e.near.quoted ++ ": " ++ e.reason.message

end SyntaxError

namespace Parser

/-- Where reading stopped: the tokens not yet read, and what is wrong with them. -/
structure Fault where
  reason : Reason
  rest : List Token
  deriving DecidableEq, Repr

/-- Reads a value off the tokens ahead. -/
abbrev Reader (α : Type) := List Token → Except Fault (α × List Token)

/-- A name that starts with a lower-case letter. -/
def isLowerName (name : Text) : Bool := Byte.isLower (name.headD 0)

/-- A name that starts with an upper-case letter. -/
def isUpperName (name : Text) : Bool := Byte.isUpper (name.headD 0)

/-- There is no term ahead. -/
def noTerm : Reader Expr := fun ts => .error ⟨.expectedTerm (ts.head?.map Token.first), ts⟩

/-- Reads the byte `b`. -/
def expect (b : Byte) : Reader Unit
  | .byte c :: rest =>
    if c = b then .ok ((), rest) else .error ⟨.expectedByte (some c) b, .byte c :: rest⟩
  | ts => .error ⟨.expectedByte (ts.head?.map Token.first) b, ts⟩

/-- Reads `separator item` as often as the separator is ahead. -/
def further (separator : Token) (item : Reader Expr) : Nat → Reader (List Expr)
  | 0, ts => .ok ([], ts)
  | _ + 1, [] => .ok ([], [])
  | n + 1, t :: ts =>
    if t = separator then do
      let (e, ts) ← item ts
      let (es, ts) ← further separator item n ts
      .ok (e :: es, ts)
    else
      .ok ([], t :: ts)

/-- Reads items with separators between them and groups them to the left. -/
def leftChain (separator : Token) (combine : Expr → Expr → Expr) (item : Reader Expr) (n : Nat) :
    Reader Expr := fun ts => do
  let (e, ts) ← item ts
  let (es, ts) ← further separator item n ts
  .ok (es.foldl combine e, ts)

/-- The items grouped to the right. -/
def groupRight (combine : Expr → Expr → Expr) (first : Expr) : List Expr → Expr
  | [] => first
  | second :: rest => combine first (groupRight combine second rest)

/-- Reads items with separators between them and groups them to the right. -/
def rightChain (separator : Token) (combine : Expr → Expr → Expr) (item : Reader Expr) (n : Nat) :
    Reader Expr := fun ts => do
  let (e, ts) ← item ts
  let (es, ts) ← further separator item n ts
  .ok (groupRight combine e es, ts)

/-! ## Terms -/

/-- Reads the arguments after their opening parenthesis. -/
def arguments (term : Reader Expr) (n : Nat) : Reader (List Expr) := fun ts => do
  let (e, ts) ← term ts
  let (es, ts) ← further .comma term n ts
  match ts with
  | .rparen :: ts => .ok (e :: es, ts)
  | ts => .error ⟨.unterminatedArguments, ts⟩

/-- Reads a variable, a function with its arguments, a term in parentheses, or zero. -/
def primary (term : Reader Expr) (n : Nat) : Reader Expr
  | .ident x :: ts =>
    if isLowerName x then
      match ts with
      | .lparen :: ts => do
        let (args, ts) ← arguments term n ts
        .ok (.function x args, ts)
      | ts => .ok (.var x, ts)
    else
      noTerm (.ident x :: ts)
  | .lparen :: ts => do
    let (e, ts) ← term ts
    let ((), ts) ← expect 41 ts
    .ok (e, ts)
  | .zero :: ts => .ok (.zero, ts)
  | ts => noTerm ts

/-- Applies a successor for each prime ahead. -/
def primes (e : Expr) : List Token → Expr × List Token
  | .prime :: ts => primes (.successor e) ts
  | ts => (e, ts)

/-- Reads a primary and the primes after it. -/
def increment (term : Reader Expr) (n : Nat) : Reader Expr := fun ts => do
  let (e, ts) ← primary term n ts
  .ok (primes e ts)

/-- Reads a term. -/
def term : Nat → Reader Expr
  | 0 => noTerm
  | n + 1 => leftChain .plus .plus (leftChain .star .times (increment (term n) n) n) n

/-! ## Formulas -/

/-- With `depth` parentheses open, whether the one opened first is closed before one of the signs
`=`, `+`, `*` and `'`. -/
def closesBeforeSign : Nat → List Token → Bool
  | _, [] => false
  | depth, .lparen :: ts => closesBeforeSign (depth + 1) ts
  | depth, .rparen :: ts =>
    if depth ≤ 1 then
      match ts with
      | .equals :: _ | .plus :: _ | .star :: _ | .prime :: _ => true
      | _ => false
    else
      closesBeforeSign (depth - 1) ts
  | depth, _ :: ts => closesBeforeSign depth ts

/-- Whether the parenthesis just read opens a term. -/
def opensTerm (ts : List Token) : Bool := closesBeforeSign 1 ts

/-- Reads two terms with `=` between them. -/
def equation (term : Reader Expr) : Reader Expr := fun ts => do
  let (l, ts) ← term ts
  let ((), ts) ← expect 61 ts
  let (r, ts) ← term ts
  .ok (.equals l r, ts)

/-- Reads the variable and the body of a quantifier. -/
def quantifier (kind : Kind) (unary : Reader Expr) : Reader Expr
  | .ident x :: ts =>
    if isLowerName x then do
      let (body, ts) ← unary ts
      .ok (.quantified kind x body, ts)
    else
      .error ⟨.expectedVariable, .ident x :: ts⟩
  | ts => .error ⟨.expectedVariable, ts⟩

/-- Reads a formula, given how to read a `Unary`. -/
def formulaOf (unary : Reader Expr) (n : Nat) : Reader Expr :=
  rightChain .arrow .implies (leftChain .bar .or (leftChain .ampersand .and unary n) n) n

/-- Reads a negation, a formula in parentheses, a quantified formula, a predicate or an
equation. -/
def unary : Nat → Reader Expr
  | 0, ts => noTerm ts
  | n + 1, .bang :: ts => do
    let (e, ts) ← unary n ts
    .ok (.negation e, ts)
  | n + 1, .lparen :: ts =>
    if opensTerm ts then
      equation (term (n + 1)) (.lparen :: ts)
    else do
      let (e, ts) ← formulaOf (unary n) n ts
      let ((), ts) ← expect 41 ts
      .ok (e, ts)
  | n + 1, .forAll :: ts => quantifier .universal (unary n) ts
  | n + 1, .exist :: ts => quantifier .existential (unary n) ts
  | n + 1, .ident p :: ts =>
    if isUpperName p then
      match ts with
      | .lparen :: ts => do
        let (args, ts) ← arguments (term n) n ts
        .ok (.predicate p args, ts)
      | ts => .ok (.predicate p [], ts)
    else
      equation (term (n + 1)) (.ident p :: ts)
  | n + 1, ts => equation (term (n + 1)) ts

/-- Reads a formula. -/
def formula (n : Nat) : Reader Expr := formulaOf (unary n) n

/-! ## Whole texts -/

/-- The error at a fault in `input`. -/
def Fault.at (f : Fault) (input : Text) : SyntaxError :=
  ⟨input, input.length - (Token.spell f.rest).length, f.reason⟩

/-- What is wrong with tokens left after a complete formula or term. -/
def trailing (t : Token) : Reason := if t = .rparen then .unbalanced else .unexpected t.first

/-- Reads all tokens of a text without white space. -/
def whole (reader : Nat → Reader Expr) (input : Text) : Except SyntaxError Expr :=
  let tokens := Token.scan input
  match reader tokens.length tokens with
  | .error fault => .error (fault.at input)
  | .ok (e, []) => .ok e
  | .ok (_, t :: rest) => .error (Fault.at ⟨trailing t, t :: rest⟩ input)

end Parser

/-- Reads a formula. White space is removed first. -/
def Text.parseFormula (text : Text) : Except SyntaxError Expr :=
  Parser.whole Parser.formula text.stripSpace

/-- Reads a term. White space is removed first. -/
def Text.parseTerm (text : Text) : Except SyntaxError Expr :=
  Parser.whole Parser.term text.stripSpace

end Sequitur
