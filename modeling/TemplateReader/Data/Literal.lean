import TemplateReader.Data.Evaluate
import TemplateReader.Diagnostic.Render
import TemplateReader.Grammar.Lexer
import TemplateReader.Template.Error

/-!
# Data literals

A text that is one data literal, blanks around it apart, has the value of that
literal. `Failure` gathers everything that reading a template or a literal may
fail with, each shown in its own way.
-/

namespace TemplateReader

/-- Anything that reading may fail with. -/
inductive Failure where
  /-- The text could not be matched. -/
  | grammar (error : LexError)
  /-- The literal has no value. -/
  | data (error : DataError)
  /-- The template has no document. -/
  | template (error : TemplateError)
deriving DecidableEq, Repr

namespace Failure

/-- The wording of a failure. -/
def message : Failure → String
  | grammar e => e.message
  | data e => e.message
  | template e => e.fault.message

/-- A failure without colours. Only those of templates show their source. -/
def render (f : Failure) (source file : String) : String :=
  match f with
  | template e => e.diagnostic.render source file
  | f => "error: " ++ f.message ++ "\n"

/-- A failure in the colours of a terminal. -/
def renderColour (f : Failure) (source file : String) : String :=
  match f with
  | template e => e.diagnostic.renderColour source file
  | f => "\x1b[1;31merror\x1b[0m: \x1b[1m" ++ f.message ++ "\x1b[0m\n"

end Failure

/-- The token of a text that is one data literal. Offsets count from its first character that is not
blank. -/
def literalToken (source : List Char) : Except LexError Token := do
  let (token, after) ← (Lexer.standard.load (trimStart source)).expect dataNames
  after.expectEnd
  return token

/-- The value of a text that is one data literal. -/
def evaluateText (source : List Char) (references : Option Fields) : Except Failure Value :=
  match literalToken source with
  | .error e => .error (.grammar e)
  | .ok token => (token.evaluate references).mapError .data

end TemplateReader
