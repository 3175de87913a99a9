import BuildFix.CommandLine
import BuildFix.Conventions
import BuildFix.Fixer
import BuildFix.Instant
import BuildFix.Json.Basic
import BuildFix.Json.Draft
import BuildFix.Json.Numeral
import BuildFix.Json.Printer
import BuildFix.Json.Token
import BuildFix.Legacy
import BuildFix.Loads.Reconcile
import BuildFix.Loads.SymbolIndex
import BuildFix.Loads.SymbolSet
import BuildFix.Loads.SymbolTable
import BuildFix.Main
import BuildFix.Manual
import BuildFix.Path
import BuildFix.Program
import BuildFix.Proofs.Attempts
import BuildFix.Proofs.AttributeEdits
import BuildFix.Proofs.AttributeUpdates
import BuildFix.Proofs.Attributes
import BuildFix.Proofs.Changes
import BuildFix.Proofs.Convergence
import BuildFix.Proofs.Frame
import BuildFix.Proofs.Growth
import BuildFix.Proofs.InPlace
import BuildFix.Proofs.Json.Reading
import BuildFix.Proofs.Json.Scanning
import BuildFix.Proofs.Json.Spelling
import BuildFix.Proofs.KeptInputs
import BuildFix.Proofs.Legacy.Arguments
import BuildFix.Proofs.Legacy.Kept
import BuildFix.Proofs.Legacy.Library
import BuildFix.Proofs.Legacy.Passes
import BuildFix.Proofs.Legacy.Rules
import BuildFix.Proofs.Loads.Agreement
import BuildFix.Proofs.Loads.Allotment
import BuildFix.Proofs.Loads.Bindings
import BuildFix.Proofs.Loads.FixedPoint
import BuildFix.Proofs.Loads.Indexing
import BuildFix.Proofs.Loads.Places
import BuildFix.Proofs.Loads.Replacement
import BuildFix.Proofs.Loads.Revision
import BuildFix.Proofs.Loads.Statements
import BuildFix.Proofs.Loads.Tables
import BuildFix.Proofs.PathOrder
import BuildFix.Proofs.Plans
import BuildFix.Proofs.Squash.Associativity
import BuildFix.Proofs.Squash.ByKey
import BuildFix.Proofs.Squash.Closure
import BuildFix.Proofs.Squash.Conservation
import BuildFix.Proofs.Squash.Contents
import BuildFix.Proofs.Squash.Insertion
import BuildFix.Proofs.Squash.Measure
import BuildFix.Proofs.Squash.Outcomes
import BuildFix.Proofs.Squash.Room
import BuildFix.Proofs.Squash.Shapes
import BuildFix.Proofs.Squash.Steps
import BuildFix.Proofs.Store.Artifacts
import BuildFix.Proofs.Store.Exclusion
import BuildFix.Proofs.Store.Files
import BuildFix.Proofs.Store.Finding
import BuildFix.Proofs.Store.Paths
import BuildFix.Proofs.Store.Spellings
import BuildFix.Proofs.Store.Walks
import BuildFix.Proofs.Store.Writing
import BuildFix.Proofs.Tree.Members
import BuildFix.Proofs.Tree.Nesting
import BuildFix.Proofs.Tree.Rearranging
import BuildFix.Proofs.Tree.Rereading
import BuildFix.Proofs.TreeOrder
import BuildFix.Proofs.Verdicts
import BuildFix.Report
import BuildFix.Run
import BuildFix.Squash.Basic
import BuildFix.Squash.Shape
import BuildFix.Store.Basic
import BuildFix.Store.Settings
import BuildFix.Store.Trees
import BuildFix.Store.Write
import BuildFix.Text.Blank
import BuildFix.Text.Quoted
import BuildFix.Text.Ranges
import BuildFix.Text.Unprintable
import BuildFix.Toml.Basic
import BuildFix.Toml.Number
import BuildFix.Toml.Reader
import BuildFix.Toml.Scalar
import BuildFix.Tree.Comment
import BuildFix.Tree.Decode
import BuildFix.Tree.Encode
import BuildFix.Tree.Expr
import BuildFix.Tree.File
import BuildFix.Tree.Rule
import BuildFix.WorkspaceFile
