import TemplateReader.Text.Blank
import TemplateReader.Text.Position
import TemplateReader.Delimiter.Boundary
import TemplateReader.Number.Notation
import TemplateReader.Token.Outline
import TemplateReader.Data.Notation
import TemplateReader.Diagnostic.Render
import TemplateReader.Template.ElementClass
import TemplateReader.Template.Error
import TemplateReader.Template.Attribute
import TemplateReader.Script.Imports
import TemplateReader.Template.Document
import TemplateReader.Template.Programs
import TemplateReader.Template.Record
import TemplateReader.Grammar.Lexer
import TemplateReader.Grammar.Session
import TemplateReader.Grammar.Counter
import TemplateReader.Data.Literal
import TemplateReader.Data.Reader
import TemplateReader.Text.Quoted
import TemplateReader.Command.Run
import TemplateReader.Grammar.Combinator
import TemplateReader.Main
import TemplateReader.Proofs.Offset.Move
import TemplateReader.Proofs.Offset.Reading
import TemplateReader.Proofs.Offset.Passes
import TemplateReader.Proofs.Delimiter.Extent
import TemplateReader.Proofs.Template.Construct
import TemplateReader.Proofs.Template.Nesting
import TemplateReader.Proofs.Template.Stretch
import TemplateReader.Proofs.Template.Entries
import TemplateReader.Proofs.Template.SelfContained
import TemplateReader.Proofs.Template.Concatenation
import TemplateReader.Proofs.Template.Tiling
import TemplateReader.Proofs.Template.Lossless
import TemplateReader.Proofs.Markup.Printing
import TemplateReader.Proofs.Markup.Tags
import TemplateReader.Proofs.Markup.Attributes
import TemplateReader.Proofs.Markup.RoundTrip
import TemplateReader.Proofs.Literal.Quoted
import TemplateReader.Proofs.Literal.Leaf
import TemplateReader.Proofs.Literal.Member
import TemplateReader.Proofs.Literal.Datum
import TemplateReader.Proofs.Literal.Whole
import TemplateReader.Proofs.Literal.Evaluation
import TemplateReader.Proofs.Literal.Failure
import TemplateReader.Proofs.Literal.Printing
import TemplateReader.Proofs.Literal.RoundTrip
import TemplateReader.Proofs.Literal.Balance
import TemplateReader.Proofs.Literal.Embedding
import TemplateReader.Bytes.Run
import TemplateReader.Bytes.Delimiter
import TemplateReader.Bytes.Tag
import TemplateReader.Bytes.Tree
import TemplateReader.Bytes.Script
import TemplateReader.Bytes.Document
import TemplateReader.Bytes.Lexer
import TemplateReader.Proofs.Bytes.Place
import TemplateReader.Proofs.Bytes.Loop
import TemplateReader.Proofs.Bytes.Delimiter
import TemplateReader.Proofs.Bytes.Tag
import TemplateReader.Proofs.Bytes.Attribute
import TemplateReader.Proofs.Bytes.Statement
import TemplateReader.Proofs.Bytes.Scan
import TemplateReader.Proofs.Bytes.Tree
import TemplateReader.Proofs.Bytes.Document
import TemplateReader.Proofs.Grammar.Boundary
import TemplateReader.Proofs.Grammar.Matching
import TemplateReader.Proofs.Bytes.Lexer
import TemplateReader.Proofs.Grammar.Session
import TemplateReader.Proofs.Script.Reader
import TemplateReader.Proofs.Script.Printing
import TemplateReader.Proofs.Script.Statement
import TemplateReader.Proofs.Script.Segment
import TemplateReader.Proofs.Script.Places
import TemplateReader.Proofs.Script.StrayQuote
import TemplateReader.Proofs.Template.Imports
import TemplateReader.Proofs.Template.Shift
import TemplateReader.Proofs.Template.Replacement
import TemplateReader.Proofs.Template.Opaque
import TemplateReader.Proofs.Template.History
import TemplateReader.Proofs.Template.Unterminated
import TemplateReader.Proofs.Template.ErrorPlace
import TemplateReader.Proofs.Template.Extension
import TemplateReader.Proofs.Template.Completion
import TemplateReader.Proofs.Template.Ancestors
import TemplateReader.Proofs.Template.Limit
import TemplateReader.Proofs.Bytes.Automaton
import TemplateReader.Proofs.Template.Attributes
import TemplateReader.Proofs.Template.AttributeSpans
import TemplateReader.Proofs.Template.OutOfStep
import TemplateReader.Proofs.Bytes.OutOfStep
import TemplateReader.Proofs.Bytes.RawText
import TemplateReader.Bytes.Grammar
import TemplateReader.Proofs.Bytes.Scalar
import TemplateReader.Proofs.Bytes.Quotes
import TemplateReader.Proofs.Literal.Escapes
import TemplateReader.Proofs.Bytes.Grammar
import TemplateReader.Proofs.Literal.Exactness
import TemplateReader.Proofs.Literal.Program
import TemplateReader.Proofs.Literal.Height
import TemplateReader.Proofs.Literal.Alone
import TemplateReader.Proofs.Literal.Padding
import TemplateReader.Proofs.Literal.Limit
import TemplateReader.Proofs.Literal.Counter
import TemplateReader.Proofs.Grammar.Alternatives
import TemplateReader.Proofs.Literal.Walk
import TemplateReader.Proofs.Text.Position
import TemplateReader.Bytes.Position
import TemplateReader.Proofs.Bytes.Position
import TemplateReader.Proofs.Grammar.Leftmost
import TemplateReader.Proofs.Text.Lines
import TemplateReader.Proofs.Diagnostic.Colour
import TemplateReader.Proofs.Diagnostic.Underline
import TemplateReader.Proofs.Command.Path
import TemplateReader.Proofs.Command.FileTree
import TemplateReader.Proofs.Command.Directory
import TemplateReader.Proofs.Command.DirectoryRun
import TemplateReader.Proofs.Bytes.TagStop
import TemplateReader.Proofs.Bytes.Regex
import TemplateReader.Proofs.Script.Slash
import TemplateReader.Grammar.Table
import TemplateReader.Proofs.Grammar.Definitions
