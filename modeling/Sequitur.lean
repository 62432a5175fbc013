import Sequitur.Batch
import Sequitur.Command.Basic
import Sequitur.Command.Duration
import Sequitur.Command.Flag
import Sequitur.Command.Run
import Sequitur.Config.Basic
import Sequitur.Config.File
import Sequitur.Deduction.Discharge
import Sequitur.Deduction.Fragment
import Sequitur.Deduction.Template
import Sequitur.Engine
import Sequitur.Expr.Basic
import Sequitur.Expr.Canonical
import Sequitur.Expr.Parser
import Sequitur.Expr.Variables
import Sequitur.Files.Path
import Sequitur.Files.Tree
import Sequitur.Main
import Sequitur.Numeral
import Sequitur.Proof.Basic
import Sequitur.Proof.Check
import Sequitur.Proof.Verdict
import Sequitur.Report.Json
import Sequitur.Report.Plain
import Sequitur.Schema.Basic
import Sequitur.Schema.Match
import Sequitur.Sequent
import Sequitur.Source
import Sequitur.Substitution
import Sequitur.Tally
import Sequitur.Text.Base64
import Sequitur.Text.Basic
import Sequitur.Text.Distance
import Sequitur.Text.Integer
import Sequitur.Text.Printable
import Sequitur.Text.Quoted
import Sequitur.Text.Space
import Sequitur.Text.Utf8
import Sequitur.Token
import Sequitur.Watch
import Sequitur.Yaml.Node
import Sequitur.Yaml.Reader
import Sequitur.Yaml.Writer
import Sequitur.Proofs.Tokens
import Sequitur.Proofs.Splitting
import Sequitur.Proofs.Whitespace
import Sequitur.Proofs.Grammar
import Sequitur.Proofs.Reading
import Sequitur.Proofs.WellFormed
import Sequitur.Proofs.Readability
import Sequitur.Proofs.FreeVariables
import Sequitur.Proofs.VariableSets
import Sequitur.Proofs.Substitution
import Sequitur.Proofs.Schemas
import Sequitur.Proofs.Replacement
import Sequitur.Proofs.Neighbours
import Sequitur.Proofs.FilledTokens
import Sequitur.Proofs.Instances
import Sequitur.Proofs.Lookup
import Sequitur.Proofs.Steps
import Sequitur.Proofs.Soundness
import Sequitur.Proofs.Acceptance
import Sequitur.Proofs.Certificates
import Sequitur.Proofs.Prefixes
import Sequitur.Proofs.Completeness
import Sequitur.Proofs.Safety
import Sequitur.Proofs.Fragments
import Sequitur.Proofs.Deduction
import Sequitur.Proofs.Verification
import Sequitur.Proofs.Elimination
import Sequitur.Proofs.Weakening
import Sequitur.Proofs.Composition
import Sequitur.Proofs.ClosedTerms
import Sequitur.Proofs.Numerals
import Sequitur.Proofs.Renaming
import Sequitur.Proofs.RenamedTexts
import Sequitur.Proofs.Invariance
import Sequitur.Proofs.InstantiatedTexts
import Sequitur.Proofs.Specialization
import Sequitur.Proofs.Accounting
import Sequitur.Proofs.Detachment
import Sequitur.Proofs.Paths
import Sequitur.Proofs.Arrivals
import Sequitur.Proofs.Cursor
