import Stylesheet.Bindings
import Stylesheet.Builtin.Basic
import Stylesheet.Builtin.Color
import Stylesheet.Builtin.Table
import Stylesheet.Builtin.Value
import Stylesheet.Cache.Artifact
import Stylesheet.Cache.Store
import Stylesheet.Cli.Config
import Stylesheet.Cli.Invocation
import Stylesheet.Cli.Report
import Stylesheet.Cli.Run
import Stylesheet.Compilation
import Stylesheet.Compiler
import Stylesheet.Css.Basic
import Stylesheet.Css.Extensions
import Stylesheet.Css.Flatten
import Stylesheet.Css.Printer
import Stylesheet.Css.Source
import Stylesheet.Diagnostic.Basic
import Stylesheet.Diagnostic.Code
import Stylesheet.Digest
import Stylesheet.Document
import Stylesheet.Double.Basic
import Stylesheet.Double.Dyadic
import Stylesheet.Double.Shortest
import Stylesheet.Double.Text
import Stylesheet.Evaluation.Basic
import Stylesheet.Evaluation.Call
import Stylesheet.Evaluation.Expr
import Stylesheet.Evaluation.Import
import Stylesheet.Evaluation.Loop
import Stylesheet.Evaluation.Statement
import Stylesheet.Expr.Basic
import Stylesheet.Expr.Parser
import Stylesheet.Expr.Printer
import Stylesheet.Files.Path
import Stylesheet.Files.Tree
import Stylesheet.Import.Importer
import Stylesheet.Import.Staleness
import Stylesheet.Log
import Stylesheet.Main
import Stylesheet.Nesting
import Stylesheet.Options
import Stylesheet.Proofs.Bindings
import Stylesheet.Proofs.Cache.Artifact
import Stylesheet.Proofs.Cache.Chain
import Stylesheet.Proofs.Cache.Directory
import Stylesheet.Proofs.Cache.Store
import Stylesheet.Proofs.Cli.Conversion
import Stylesheet.Proofs.Compiler.Blocks
import Stylesheet.Proofs.Compiler.Caching
import Stylesheet.Proofs.Compiler.Flat
import Stylesheet.Proofs.Compiler.Identity
import Stylesheet.Proofs.Compiler.RoundTrip
import Stylesheet.Proofs.Css.Declarations
import Stylesheet.Proofs.Css.Flattening
import Stylesheet.Proofs.Css.Independence
import Stylesheet.Proofs.Css.Legible
import Stylesheet.Proofs.Css.LegibleCheck
import Stylesheet.Proofs.Css.Outermost
import Stylesheet.Proofs.Css.Plain
import Stylesheet.Proofs.Css.Queries
import Stylesheet.Proofs.Css.Settled
import Stylesheet.Proofs.Css.Shape
import Stylesheet.Proofs.Css.SourceReading
import Stylesheet.Proofs.Css.Styles
import Stylesheet.Proofs.Double.Exact
import Stylesheet.Proofs.Evaluation.Agreement
import Stylesheet.Proofs.Evaluation.Binding
import Stylesheet.Proofs.Evaluation.Blame
import Stylesheet.Proofs.Evaluation.Calls
import Stylesheet.Proofs.Evaluation.Checked
import Stylesheet.Proofs.Evaluation.Constants
import Stylesheet.Proofs.Evaluation.Counting
import Stylesheet.Proofs.Evaluation.Course
import Stylesheet.Proofs.Evaluation.Coverage
import Stylesheet.Proofs.Evaluation.Discipline
import Stylesheet.Proofs.Evaluation.Effects
import Stylesheet.Proofs.Evaluation.Failure
import Stylesheet.Proofs.Evaluation.Frame
import Stylesheet.Proofs.Evaluation.Given
import Stylesheet.Proofs.Evaluation.Iteration
import Stylesheet.Proofs.Evaluation.Keeps
import Stylesheet.Proofs.Evaluation.Lexical
import Stylesheet.Proofs.Evaluation.Outside
import Stylesheet.Proofs.Evaluation.Parts
import Stylesheet.Proofs.Evaluation.ReadBack
import Stylesheet.Proofs.Evaluation.Restoration
import Stylesheet.Proofs.Evaluation.Returning
import Stylesheet.Proofs.Evaluation.Termination
import Stylesheet.Proofs.Except
import Stylesheet.Proofs.Expr.Errors
import Stylesheet.Proofs.Expr.Places
import Stylesheet.Proofs.Expr.Precedence
import Stylesheet.Proofs.Expr.Reading
import Stylesheet.Proofs.Expr.Taking
import Stylesheet.Proofs.Import.Canonical
import Stylesheet.Proofs.Import.Listing
import Stylesheet.Proofs.Import.Names
import Stylesheet.Proofs.Import.Staleness
import Stylesheet.Proofs.Selector.Choices
import Stylesheet.Proofs.Selector.Depth
import Stylesheet.Proofs.Selector.Endings
import Stylesheet.Proofs.Selector.Equality
import Stylesheet.Proofs.Selector.Extension
import Stylesheet.Proofs.Selector.Groups
import Stylesheet.Proofs.Selector.Matching
import Stylesheet.Proofs.Selector.Occurrence
import Stylesheet.Proofs.Selector.Parent
import Stylesheet.Proofs.Selector.ReadBack
import Stylesheet.Proofs.Selector.Reading
import Stylesheet.Proofs.Selector.Recursion
import Stylesheet.Proofs.Selector.RoundTrip
import Stylesheet.Proofs.Selector.Spacing
import Stylesheet.Proofs.Selector.Spelling
import Stylesheet.Proofs.Selector.Steadiness
import Stylesheet.Proofs.Selector.SteadyReaders
import Stylesheet.Proofs.Selector.Surroundings
import Stylesheet.Proofs.Selector.Transitivity
import Stylesheet.Proofs.Selector.Unification
import Stylesheet.Proofs.Selector.Weaving
import Stylesheet.Proofs.Source.Cursor
import Stylesheet.Proofs.Source.Spelling
import Stylesheet.Proofs.Statement.BracesReading
import Stylesheet.Proofs.Statement.Cuts
import Stylesheet.Proofs.Statement.Depths
import Stylesheet.Proofs.Statement.Dialects
import Stylesheet.Proofs.Statement.Errors
import Stylesheet.Proofs.Statement.Headers
import Stylesheet.Proofs.Statement.IndentedReading
import Stylesheet.Proofs.Statement.Openings
import Stylesheet.Proofs.Statement.Parsed
import Stylesheet.Proofs.Statement.Places
import Stylesheet.Proofs.Statement.Rows
import Stylesheet.Proofs.Statement.Taking
import Stylesheet.Proofs.Statement.Unplaced
import Stylesheet.Proofs.Statement.Written
import Stylesheet.Proofs.SubsetMap
import Stylesheet.Proofs.Text.Essence
import Stylesheet.Proofs.Text.Json
import Stylesheet.Proofs.Token.Literals
import Stylesheet.Proofs.Token.Lookahead
import Stylesheet.Proofs.Token.Nesting
import Stylesheet.Proofs.Token.Quoting
import Stylesheet.Proofs.Token.Sequence
import Stylesheet.Proofs.Value.Dimension
import Stylesheet.Scope.Environment
import Stylesheet.Selector.Basic
import Stylesheet.Selector.Choices
import Stylesheet.Selector.Extend
import Stylesheet.Selector.Parent
import Stylesheet.Selector.Parser
import Stylesheet.Selector.Printer
import Stylesheet.Selector.Unify
import Stylesheet.Selector.Weave
import Stylesheet.Source.Cursor
import Stylesheet.Source.Scan
import Stylesheet.Source.Span
import Stylesheet.Statement.Basic
import Stylesheet.Statement.Braces
import Stylesheet.Statement.Header
import Stylesheet.Statement.Indented
import Stylesheet.Statement.Outline
import Stylesheet.Statement.Parser
import Stylesheet.Style
import Stylesheet.SubsetMap
import Stylesheet.Text.Blank
import Stylesheet.Text.Hex
import Stylesheet.Text.Json
import Stylesheet.Text.Quoted
import Stylesheet.Text.Toml
import Stylesheet.Text.Utf8
import Stylesheet.Token.Basic
import Stylesheet.Token.Lexer
import Stylesheet.Value.Arithmetic
import Stylesheet.Value.Basic
import Stylesheet.Value.Color
import Stylesheet.Value.Error
import Stylesheet.Value.Number
import Stylesheet.Value.Unit
