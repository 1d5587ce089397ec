import ScopedScript.Text.Alphabetic
import ScopedScript.Text.Numeric
import ScopedScript.Text.Extending
import ScopedScript.Text.Hidden
import ScopedScript.Text.CharClass
import ScopedScript.Text.Quoted
import ScopedScript.Number
import ScopedScript.Token
import ScopedScript.Token.Scan
import ScopedScript.Tree
import ScopedScript.Grammar.Cursor
import ScopedScript.Grammar.Annotation
import ScopedScript.Grammar.Program
import ScopedScript.Scope
import ScopedScript.Record
import ScopedScript.Value
import ScopedScript.Heap
import ScopedScript.Value.Text
import ScopedScript.Value.Equality
import ScopedScript.Fault
import ScopedScript.Machine
import ScopedScript.Evaluation
import ScopedScript.Prelude
import ScopedScript.SourceMap
import ScopedScript.Error
import ScopedScript.Session
import ScopedScript.CommandLine
import ScopedScript.Main
import ScopedScript.Proofs.Equality
import ScopedScript.Proofs.Printing
import ScopedScript.Proofs.Scanning
import ScopedScript.Proofs.Lines
import ScopedScript.Proofs.Places
import ScopedScript.Proofs.Frames
import ScopedScript.Proofs.Receivers
import ScopedScript.Proofs.Alike
import ScopedScript.Proofs.Simulation.Values
import ScopedScript.Proofs.Simulation.Rules
import ScopedScript.Proofs.Simulation.Tasks
import ScopedScript.Proofs.Simulation.Visits
import ScopedScript.Proofs.Evaluation.Composition
import ScopedScript.Proofs.Evaluation.Stages
import ScopedScript.Proofs.Scope.Distances
import ScopedScript.Proofs.Scope.Declarations
import ScopedScript.Proofs.Evaluation.Bindings
import ScopedScript.Proofs.Evaluation.Redeclaration
import ScopedScript.Proofs.Evaluation.Returns
import ScopedScript.Proofs.Scope.SideBySide
import ScopedScript.Proofs.Scope.Programs
import ScopedScript.Proofs.Parsing.Rules
import ScopedScript.Proofs.Parsing.Annotations
import ScopedScript.Proofs.Parsing.Trees
import ScopedScript.Proofs.Parsing.Productions
import ScopedScript.Proofs.Parsing.Programs
import ScopedScript.Proofs.Parsing.Identity
import ScopedScript.Proofs.Parsing.Endings
import ScopedScript.Proofs.Parsing.RoundTrip
import ScopedScript.Proofs.Parsing.TypeRoundTrip
import ScopedScript.Proofs.Parsing.Separators
import ScopedScript.Proofs.Parsing.Totality
import ScopedScript.Proofs.Parsing.Unmarked
import ScopedScript.Proofs.Sessions.Histories
import ScopedScript.Proofs.Sessions.Alignment
import ScopedScript.Proofs.Sessions.Fallbacks
import ScopedScript.Proofs.Records
import ScopedScript.Proofs.Evaluation.References
import ScopedScript.Proofs.Evaluation.Intact
import ScopedScript.Proofs.Sessions.Objects
import ScopedScript.Proofs.Sessions.Parts
import ScopedScript.Proofs.Sessions.Batches
import ScopedScript.Proofs.Sessions.Redeclarations
import ScopedScript.Proofs.Sessions.This
import ScopedScript.Proofs.Sessions.CallDepth
import ScopedScript.Proofs.Sessions.Numbers
import ScopedScript.Proofs.Sessions.Termination
import ScopedScript.Proofs.Sessions.Layout
import ScopedScript.Proofs.Sessions.StaticFailures
import ScopedScript.Proofs.Scanning.Coverage
import ScopedScript.Proofs.Scanning.Stops
import ScopedScript.Proofs.Scanning.Spacing
import ScopedScript.Proofs.Scanning.Longest
import ScopedScript.Proofs.Sessions.Joining
import ScopedScript.Proofs.Prelude
import ScopedScript.Proofs.Sessions.Origins
import ScopedScript.Proofs.Sessions.Reports
import ScopedScript.Proofs.Scope.Renaming
import ScopedScript.Proofs.Parsing.Locality
import ScopedScript.Proofs.Sessions.Seams
import ScopedScript.Proofs.Sessions.Erasure
import ScopedScript.Proofs.Sessions.Preludes
import ScopedScript.Proofs.Printing.Occurrences
import ScopedScript.Proofs.Parsing.Expressions
import ScopedScript.Proofs.Parsing.IndexAssignments
import ScopedScript.Proofs.Parsing.Types
import ScopedScript.Proofs.Parsing.WellFormed
import ScopedScript.Proofs.Scope.Acceptance
import ScopedScript.Proofs.Sessions.Renamings
import ScopedScript.Proofs.Paraphrases.Groupings
import ScopedScript.Proofs.Paraphrases.Scope
import ScopedScript.Proofs.Parsing.CompoundAssignments
import ScopedScript.Proofs.Sessions.Paraphrases
import ScopedScript.Proofs.Sessions.CompoundAssignments
