import TemplateReader.Delimiter.Tag
import TemplateReader.Delimiter.Pattern

/-!
# Boundaries of constructs

Each delimited construct of a template begins with a delimiter of its own and
extends to a place determined by the text that follows. `Boundary.stop?` gives
the offset just past a construct, or nothing when the cursor is not at its
opening or it never closes.
-/

namespace TemplateReader

/-- The delimited constructs of a template. -/
inductive Boundary where
  /-- A tag, from `<` to the first `>` outside its values. -/
  | tag
  /-- A quoted run, from a quote to the next unescaped one of the same kind. -/
  | quote
  /-- An embedded program, from a brace to the one that balances it. -/
  | program
  /-- A comment, from `<!--` to the first `-->`. -/
  | comment
  /-- A raw-text element, from its opening tag to the first close tag of its name. -/
  | rawText (name : List Char)
deriving DecidableEq, Repr

namespace Boundary

/-- What follows the construct that the text begins with. -/
def rest? : Boundary → List Char → Option (List Char)
  | tag, '<' :: text => ((splitTag text).toOption).map Prod.snd
  | quote, c :: text => if isScriptQuote c then (splitQuote c text).map Prod.snd else none
  | program, '{' :: text => (splitBraces 0 text).map Prod.snd
  | comment, text => do
    let inside ← dropWord? commentOpening text
    let (_, rest) ← splitPattern commentClosing inside
    some rest
  | rawText name, '<' :: text => do
    let (_, content) ← (splitTag text).toOption
    let (_, rest) ← splitRawText name content
    some rest
  | _, _ => none

/-- The offset just past the construct at the cursor. -/
def stop? (b : Boundary) (c : Cursor) : Option Nat :=
  (b.rest? c.rest).map fun rest => (c.seek rest).offset

end Boundary

end TemplateReader
