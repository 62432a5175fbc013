import Sequitur.Sequent

/-!
# Proof files

A proof file has the sequent on its first line and one proof line on each line after it. White
space is removed everywhere and empty lines at the end do not count.
-/

namespace Sequitur

/-- A proof file split into its sequent and its proof lines. -/
structure Source where
  file : Text
  header : Text
  lines : List Text
  deriving DecidableEq, Repr

/-- What is wrong with a proof file. -/
inductive SourceFault where
  | empty
  | sequent (error : SequentError)
  deriving DecidableEq, Repr

/-- A proof file without a sequent that can be read. -/
structure SourceError where
  file : Text
  fault : SourceFault
  deriving DecidableEq, Repr

/-- The wording of the error, after the name of the file. -/
def SourceError.message (e : SourceError) : Text :=
  e.file ++ ": " ++
    match e.fault with
    | .empty => "proof file is empty"
    | .sequent error => error.message

namespace Source

/-- The list without the empty texts at its end. -/
def dropTrailingEmpty (lines : List Text) : List Text :=
  (lines.reverse.dropWhile List.isEmpty).reverse

/-- Splits the content of a file. Its first line has to have a turnstile somewhere. -/
def parse (file content : Text) : Except SourceError Source :=
  match dropTrailingEmpty ((content.splitOn Byte.newline).map Text.stripSpace) with
  | [] => .error ⟨file, .empty⟩
  | header :: lines =>
    if Text.hasInfix Sequent.turnstile header then .ok ⟨file, header, lines⟩
    else .error ⟨file, .sequent .noTurnstile⟩

end Source

end Sequitur
