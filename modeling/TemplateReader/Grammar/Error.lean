import TemplateReader.Text.Blank

/-!
# Grammar errors

What can go wrong when a text is matched against named rules: a name without a
rule, no names at all, or a text that none of them matches.
-/

namespace TemplateReader

/-- Why a text could not be matched. -/
inductive LexError where
  /-- No rule has this name. -/
  | unknownDefinition (name : String)
  /-- A match was required of no rules at all. -/
  | unknownDefinitions
  /-- None of the expected rules matched at an offset, where the text begins as previewed. -/
  | unexpectedToken (preview : String) (expected : List String) (offset : Nat)
deriving DecidableEq, Repr

namespace LexError

/-- The wording of an error. -/
def message : LexError → String
  | unknownDefinition name => "Unknown definition " ++ name
  | unknownDefinitions => "Unknown definitions"
  | unexpectedToken preview [] _ => "Unexpected " ++ preview
  | unexpectedToken preview expected _ =>
    "Unexpected " ++ preview ++ " expecting " ++ ", ".intercalate expected

/-- Longest preview, in characters. -/
def previewLength : Nat := 10

/-- How a text that was not expected is shown: by the beginning of its first word. -/
def preview (text : List Char) : String :=
  match firstWord text with
  | [] => "end of input"
  | word => String.ofList (word.take previewLength)

end LexError

end TemplateReader
