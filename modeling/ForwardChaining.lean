import ForwardChaining.Engine.Program
import ForwardChaining.Proofs.Matching.Product
import ForwardChaining.Proofs.Matching.Enumeration
import ForwardChaining.Proofs.Matching.Compatibility
import ForwardChaining.Proofs.Matching.Acyclic
import ForwardChaining.Proofs.Matching.GroundMatch
import ForwardChaining.Proofs.Matching.IndexContents
import ForwardChaining.Proofs.Matching.Lookup
import ForwardChaining.Proofs.System.History
import ForwardChaining.Proofs.System.Simulation
import ForwardChaining.Proofs.Engine.Matches
import ForwardChaining.Proofs.Engine.WellFormed
import ForwardChaining.Proofs.Engine.Additions
import ForwardChaining.Proofs.Engine.Naive
import ForwardChaining.Proofs.Engine.Ledger
import ForwardChaining.Proofs.Engine.Saturation
import ForwardChaining.Proofs.Engine.LeastModel
import ForwardChaining.Proofs.Engine.StackDiscipline
import ForwardChaining.Proofs.Engine.Representation
import ForwardChaining.Proofs.Engine.Multiplicity
import ForwardChaining.Proofs.Matching.Renaming
import ForwardChaining.Proofs.System.Renaming
import ForwardChaining.Proofs.Engine.Hygiene
import ForwardChaining.Proofs.Engine.Growth
import ForwardChaining.Proofs.Text.Lexing
import ForwardChaining.Proofs.Text.Nesting
import ForwardChaining.Proofs.Text.Steps
import ForwardChaining.Proofs.Text.Reading
import ForwardChaining.Proofs.Engine.Programs
import ForwardChaining.Proofs.Number.Rounding
import ForwardChaining.Proofs.Number.DecimalText
import ForwardChaining.Proofs.Text.Readable
import ForwardChaining.Proofs.Text.Failures
import ForwardChaining.Proofs.Matching.LoopFree
import ForwardChaining.Proofs.Matching.Search
import ForwardChaining.Proofs.Matching.SearchDepth
import ForwardChaining.Proofs.Matching.SearchBound
import ForwardChaining.Proofs.Matching.Succession
import ForwardChaining.Proofs.Matching.Solutions
import ForwardChaining.Proofs.Matching.Symmetry
import ForwardChaining.Proofs.Matching.Capture
import ForwardChaining.Proofs.Matching.Weakening
import ForwardChaining.Proofs.Engine.Termination
import ForwardChaining.Proofs.Engine.Conclusions
import ForwardChaining.Proofs.Engine.Queries
import ForwardChaining.Proofs.Engine.Capture
import ForwardChaining.Proofs.Text.Triggers
import ForwardChaining.Proofs.Number.Comparison
import ForwardChaining.Proofs.Engine.Equality
import ForwardChaining.Proofs.Engine.IntegerForms
