import TemplateReader.Text.Cursor

/-!
# Diagnostics

A diagnostic tells what is wrong with a template, where, and what may help. It
may point at a second place, such as the opening tag that a close tag should
have closed.
-/

namespace TemplateReader

/-- The kinds of trouble a template can be in. -/
inductive DiagnosticKind where
  /-- An element without its close tag. -/
  | unclosedElement
  /-- A close tag of another name than the open element's. -/
  | mismatchedCloseTag
  /-- A close tag outside every element. -/
  | unexpectedCloseTag
  /-- A tag without its `>`. -/
  | unterminatedTag
  /-- A quoted value without its closing quote. -/
  | unterminatedQuote
  /-- An embedded expression without its closing brace. -/
  | unterminatedProgram
  /-- A comment without its closing. -/
  | unterminatedComment
  /-- A raw-text element without its close tag. -/
  | unterminatedRawText
  /-- An element below the deepest level allowed. -/
  | nestingTooDeep
deriving DecidableEq, Repr

namespace DiagnosticKind

/-- A short title. -/
def title : DiagnosticKind → String
  | unclosedElement => "Unclosed element"
  | mismatchedCloseTag => "Mismatched close tag"
  | unexpectedCloseTag => "Unexpected close tag"
  | unterminatedTag => "Unterminated tag"
  | unterminatedQuote => "Unterminated quote"
  | unterminatedProgram => "Unterminated expression"
  | unterminatedComment => "Unterminated comment"
  | unterminatedRawText => "Unterminated raw text element"
  | nestingTooDeep => "Nesting too deep"

end DiagnosticKind

/-- A second place that explains a diagnostic. -/
structure RelatedPlace where
  /-- Its byte offset. -/
  offset : Nat
  /-- What is said of it; a general phrase is used where nothing is. -/
  label : Option String
deriving DecidableEq, Repr

/-- A report about a place in a template. -/
structure Diagnostic where
  /-- What kind of trouble it is. -/
  kind : DiagnosticKind
  /-- What is wrong, in a sentence. -/
  message : String
  /-- The text at fault. -/
  span : Span
  /-- A second place that matters. -/
  related : Option RelatedPlace
  /-- What may put it right. -/
  help : Option String
deriving DecidableEq, Repr

end TemplateReader
