import HeaderBinding.BindingModule
import HeaderBinding.CType
import HeaderBinding.Command.EnvFile
import HeaderBinding.Command.Flag
import HeaderBinding.Command.FlagValue
import HeaderBinding.Command.Run
import HeaderBinding.Command.Table
import HeaderBinding.Declaration.Basic
import HeaderBinding.Declaration.Construction
import HeaderBinding.Declaration.Json
import HeaderBinding.Declaration.Layout
import HeaderBinding.Diagnostic
import HeaderBinding.Directive
import HeaderBinding.Expansion.Basic
import HeaderBinding.Expansion.Cache
import HeaderBinding.FileSystem.Basic
import HeaderBinding.FileSystem.Edit
import HeaderBinding.FileSystem.Path
import HeaderBinding.Golden.Case
import HeaderBinding.Golden.Run
import HeaderBinding.Json
import HeaderBinding.Main
import HeaderBinding.Proofs.Reading.Grammar
import HeaderBinding.Proofs.Token.Lossless
import HeaderBinding.Reading.Construct
import HeaderBinding.Reading.Member
import HeaderBinding.Reading.Outcome
import HeaderBinding.Reading.Session
import HeaderBinding.Reading.Single
import HeaderBinding.Reading.Suffix
import HeaderBinding.SyntaxError
import HeaderBinding.Text.Basic
import HeaderBinding.Text.Blank
import HeaderBinding.Text.CodeRange
import HeaderBinding.Text.Grapheme
import HeaderBinding.Text.Lines
import HeaderBinding.Text.Numeral
import HeaderBinding.Text.Printable
import HeaderBinding.Text.Quoted
import HeaderBinding.Text.Utf8
import HeaderBinding.Text.Width
import HeaderBinding.Token.Basic
import HeaderBinding.Token.Lexer
import HeaderBinding.Token.Pattern
import HeaderBinding.Token.Rule
import HeaderBinding.Proofs.Reading.Arguments
import HeaderBinding.Proofs.Reading.Enumerators
import HeaderBinding.Proofs.Reading.Constructs
import HeaderBinding.Proofs.Reading.Acceptance
import HeaderBinding.Proofs.Reading.Steps
import HeaderBinding.Proofs.Reading.Collecting
import HeaderBinding.Proofs.Reading.Closing
import HeaderBinding.Proofs.Reading.Placement
import HeaderBinding.Proofs.Reading.Recovery
import HeaderBinding.Proofs.Token.Derivative
import HeaderBinding.Proofs.Token.Lexicon
import HeaderBinding.Proofs.Token.MaximalMunch
import HeaderBinding.Proofs.FileSystem.Canonical
import HeaderBinding.Proofs.Expansion.Runs
import HeaderBinding.Proofs.Expansion.CacheAgreement
import HeaderBinding.Proofs.Expansion.Includes
import HeaderBinding.Proofs.Expansion.Reachable
import HeaderBinding.Proofs.Expansion.Splicing
import HeaderBinding.Proofs.Expansion.CacheHistory
import HeaderBinding.Proofs.Token.Cutting
import HeaderBinding.Proofs.Token.LineFeeds
import HeaderBinding.Proofs.Reading.DirectiveLines
import HeaderBinding.Proofs.Reading.FunctionBodies
import HeaderBinding.Proofs.Reading.LinkageBlocks
import HeaderBinding.Proofs.Reading.Truncation
import HeaderBinding.Proofs.Expansion.Modes
import HeaderBinding.Proofs.Expansion.MixedHistory
import HeaderBinding.Proofs.Reading.WellBuilt
import HeaderBinding.Proofs.Reading.ErrorDiscipline
import HeaderBinding.Proofs.Token.Delimiters
import HeaderBinding.Proofs.Token.Joining
import HeaderBinding.Proofs.Reading.EnumeratorTexts
import HeaderBinding.Proofs.Reading.Printing
import HeaderBinding.Proofs.Reading.RepeatedRuns
import HeaderBinding.Proofs.Reading.LayoutIndependence
import HeaderBinding.Proofs.Reading.SingleConstructs
import HeaderBinding.Proofs.Reading.DataModel
import HeaderBinding.Proofs.Reading.DirectiveForms
import HeaderBinding.Proofs.Rendering.Lines
import HeaderBinding.Proofs.Rendering.DirectiveComments
import HeaderBinding.Proofs.Rendering.ExternBlocks
import HeaderBinding.Proofs.Token.Touching
import HeaderBinding.Proofs.Reading.EnumeratorTokens
import HeaderBinding.Proofs.Rendering.DirectiveRoundTrip
import HeaderBinding.Proofs.Rendering.Indentation
import HeaderBinding.Proofs.Reading.FaultPlaces
import HeaderBinding.Proofs.Reading.FaultOrder
import HeaderBinding.Proofs.Token.Rows
import HeaderBinding.Proofs.Reading.QuotedLines
import HeaderBinding.Proofs.Token.ClosingMarks
import HeaderBinding.Proofs.Golden.Parts
import HeaderBinding.Proofs.Golden.Verdicts
import HeaderBinding.Proofs.FileSystem.Directories
import HeaderBinding.Proofs.Command.Outputs
import HeaderBinding.Proofs.Command.Independence
import HeaderBinding.Proofs.Expansion.SearchPaths
import HeaderBinding.Proofs.Rendering.Injectivity
import HeaderBinding.Proofs.Token.Characters
import HeaderBinding.Proofs.Json.Texts
import HeaderBinding.Proofs.Json.Declarations
