import TemplateReader.Diagnostic.Basic
import TemplateReader.Number.Notation

/-!
# Template errors

The causes for which a template has no document. Each has one wording, and
where an edit would mend the template, one piece of advice.
-/

namespace TemplateReader

/-- Why a template cannot be read. -/
inductive TemplateFault where
  /-- The text ends inside an element. -/
  | unclosedElement (name : String)
  /-- A close tag names another element than the innermost open one. -/
  | mismatchedCloseTag (openName closeName : String) (openedAt : Nat)
  /-- A close tag stands outside every element. -/
  | unexpectedCloseTag (name : String)
  /-- A tag, possibly without a name, has no `>`. -/
  | unterminatedTag (name : String)
  /-- A quote in a tag never closes. -/
  | unterminatedQuote
  /-- A quoted value extends past the `>` of its tag. -/
  | overlongQuote
  /-- A brace never closes, or only past the `>` of its tag. -/
  | unterminatedProgram
  /-- A comment has no closing. -/
  | unterminatedComment
  /-- A raw-text element has no close tag. -/
  | unterminatedRawText (name : String)
  /-- An element stands inside as many others as are allowed. -/
  | nestingTooDeep (limit : Nat)
deriving DecidableEq, Repr

namespace TemplateFault

/-- The kind under which a fault is reported. -/
def kind : TemplateFault → DiagnosticKind
  | unclosedElement _ => .unclosedElement
  | mismatchedCloseTag .. => .mismatchedCloseTag
  | unexpectedCloseTag _ => .unexpectedCloseTag
  | unterminatedTag _ => .unterminatedTag
  | unterminatedQuote => .unterminatedQuote
  | overlongQuote => .unterminatedQuote
  | unterminatedProgram => .unterminatedProgram
  | unterminatedComment => .unterminatedComment
  | unterminatedRawText _ => .unterminatedRawText
  | nestingTooDeep _ => .nestingTooDeep

/-- What is wrong, in a sentence. -/
def message : TemplateFault → String
  | unclosedElement name => "Unclosed element <" ++ name ++ ">."
  | mismatchedCloseTag openName closeName _ =>
    "Expected </" ++ openName ++ "> to close <" ++ openName ++ ">, found </" ++ closeName ++ ">."
  | unexpectedCloseTag name => "Unexpected </" ++ name ++ "> with no open element."
  | unterminatedTag _ => "Unterminated tag."
  | unterminatedQuote => "Unterminated attribute value."
  | overlongQuote => "Unterminated attribute value."
  | unterminatedProgram => "Unterminated expression."
  | unterminatedComment => "Unterminated comment."
  | unterminatedRawText name => "Unterminated <" ++ name ++ "> element."
  | nestingTooDeep limit =>
    "Elements nested deeper than " ++ String.ofList (digitsOf limit) ++ " levels."

/-- The opening tag that a mismatched close tag should have closed. -/
def related : TemplateFault → Option RelatedPlace
  | mismatchedCloseTag openName _ openedAt =>
    some ⟨openedAt, some ("<" ++ openName ++ "> opened here")⟩
  | _ => none

/-- The edit that is suggested. -/
def help : TemplateFault → Option String
  | unclosedElement name => some ("Add </" ++ name ++ "> to close it.")
  | mismatchedCloseTag openName closeName _ =>
    some ("Close <" ++ openName ++ "> before </" ++ closeName ++ ">.")
  | unterminatedTag name =>
    if name.isEmpty then none else some ("Close the <" ++ name ++ "> tag with >.")
  | unterminatedQuote => some "Close the quoted value with a matching quote."
  | unterminatedProgram => some "Close the expression with a matching \x7d."
  | unterminatedComment => some "Close the comment with -->."
  | unterminatedRawText name => some ("Add </" ++ name ++ "> after its content.")
  | unexpectedCloseTag _ | overlongQuote | nestingTooDeep _ => none

end TemplateFault

/-- A fault and the text it was found at. -/
structure TemplateError where
  /-- Why the template cannot be read. -/
  fault : TemplateFault
  /-- The text at fault. -/
  span : Span
deriving DecidableEq, Repr

namespace TemplateError

/-- The report of an error. -/
def diagnostic (e : TemplateError) : Diagnostic where
  kind := e.fault.kind
  message := e.fault.message
  span := e.span
  related := e.fault.related
  help := e.fault.help

end TemplateError

end TemplateReader
