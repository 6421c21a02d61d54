import ClassTags.Action
import ClassTags.ClassRecord.Basic
import ClassTags.ClassRecord.Extraction
import ClassTags.ClassRecord.Section
import ClassTags.CommandLine
import ClassTags.FileSystem.Basic
import ClassTags.FileSystem.Edit
import ClassTags.Grammar.Declaration
import ClassTags.Grammar.Function
import ClassTags.Grammar.Lexeme
import ClassTags.Grammar.Operand
import ClassTags.Grammar.Operation
import ClassTags.Grammar.Parser
import ClassTags.Grammar.Pattern
import ClassTags.Grammar.Program
import ClassTags.Grammar.Rules
import ClassTags.Grammar.Semicolon
import ClassTags.Grammar.Statement
import ClassTags.Index.Indexer
import ClassTags.Index.Registry
import ClassTags.Literal.Escape
import ClassTags.Literal.Failure
import ClassTags.Literal.Number
import ClassTags.Main
import ClassTags.Node.Basic
import ClassTags.Node.Reading
import ClassTags.Node.Select
import ClassTags.Notice
import ClassTags.Number.Binary64
import ClassTags.Number.Integer
import ClassTags.Number.Quantity
import ClassTags.Number.Shortest
import ClassTags.Path
import ClassTags.Proofs.Action
import ClassTags.Proofs.Holdings
import ClassTags.Proofs.Table
import ClassTags.Settings
import ClassTags.Syntax.Kind
import ClassTags.Syntax.Tree
import ClassTags.Table
import ClassTags.Tag
import ClassTags.Text.Basic
import ClassTags.Text.CodeUnits
import ClassTags.Text.Digit
import ClassTags.Text.Plain
import ClassTags.Text.Printable
import ClassTags.Text.Quoted
import ClassTags.Text.UpperCase
import ClassTags.Text.Utf8
import ClassTags.Proofs.Coherence
import ClassTags.Proofs.FileTree
import ClassTags.Proofs.Route
import ClassTags.Proofs.Renewal
import ClassTags.Proofs.Histories
import ClassTags.Proofs.Passage
import ClassTags.Proofs.Rescan
import ClassTags.Proofs.Duplicate
import ClassTags.Proofs.Leftover
import ClassTags.Proofs.Check
import ClassTags.Proofs.LiveFile
import ClassTags.Proofs.Stale
import ClassTags.Proofs.Gathering
import ClassTags.Proofs.PlainText
import ClassTags.Proofs.ArgumentOrder
import ClassTags.Proofs.TagText
import ClassTags.Proofs.Reading
import ClassTags.Proofs.Mirror
import ClassTags.Proofs.Slice
import ClassTags.Proofs.Lexeme
import ClassTags.Proofs.Parsing
import ClassTags.Proofs.Productions
import ClassTags.Proofs.Statements
import ClassTags.Proofs.LiteralFailure
import ClassTags.Proofs.LiteralText
import ClassTags.Proofs.Breakdown
import ClassTags.Proofs.TagLayout
import ClassTags.Proofs.Removal
import ClassTags.Proofs.FirstScan
import ClassTags.Proofs.Frame
import ClassTags.Proofs.Difference
import ClassTags.Proofs.ClosedForm
import ClassTags.Proofs.LineOrder
import ClassTags.Proofs.Replacement
import ClassTags.Proofs.LostDirectory
import ClassTags.Proofs.StringUnits
import ClassTags.Proofs.StringElements
import ClassTags.Proofs.OneLine
import ClassTags.Proofs.NoTrace
import ClassTags.Proofs.Recheck
import ClassTags.Proofs.MemberOrder
import ClassTags.Proofs.LineEnds
import ClassTags.Proofs.IntegerSpelling
import ClassTags.Proofs.PathOrder
import ClassTags.Proofs.ErrorLine
import ClassTags.Proofs.QueueLoop
import ClassTags.Proofs.Selection
