import Sequitur.Deduction.Fragment

/-!
# Configuration

What can be set: a name, whether checks are discharge-safe, how reports are written, whether
rewritten proofs are verified, and the templates of the fragments. A configuration is valid when it
has a name and a known format, and when every template that is set mentions the hypothesis.
-/

namespace Sequitur

/-- The settings of a checker. -/
structure Config where
  name : Text := "hilbert"
  dischargeSafety : Bool := false
  format : Text := "text"
  verify : Bool := true
  templates : Templates := {}
  deriving DecidableEq, Repr

/-- A setting that is not allowed: where it is, and which requirement it fails. -/
structure Violation where
  place : Text
  field : Text
  requirement : Text
  deriving DecidableEq, Repr

/-- The wording of a violation. -/
def Violation.message (v : Violation) : Text :=
  "Key: '" ++ v.place ++ "." ++ v.field ++ "' Error:Field validation for '" ++ v.field ++
    "' failed on the '" ++ v.requirement ++ "' tag"

namespace Config

/-- The format of reports for people to read. -/
def textFormat : Text := "text"

/-- The format of reports for other programs. -/
def jsonFormat : Text := "json"

/-- The violation of a template that is set and does not mention the hypothesis. -/
def templateViolation (field template : Text) : List Violation :=
  if template.isEmpty || Text.hasInfix Pattern.H.text template then []
  else [⟨"Config.Deduction.Templates", field, "contains"⟩]

/-- What is not allowed, in the order of the settings. -/
def violations (c : Config) : List Violation :=
  (if c.name.isEmpty then [⟨"Config", "Name", "required"⟩] else []) ++
  (if c.format = textFormat ∨ c.format = jsonFormat then []
    else [⟨"Config.Output", "Format", "oneof"⟩]) ++
  templateViolation "Self" c.templates.itself ++
  templateViolation "Axiom" c.templates.given ++
  templateViolation "ModusPonens" c.templates.modusPonens ++
  templateViolation "Any" c.templates.universal ++
  templateViolation "Exists" c.templates.existential

/-- The wording of one or more violations. -/
def violationsMessage (vs : List Violation) : Text :=
  "invalid configuration: " ++ Text.join [Byte.newline] (vs.map Violation.message)

end Config

end Sequitur
