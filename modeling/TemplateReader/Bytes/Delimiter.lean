import TemplateReader.Bytes.Run
import TemplateReader.Delimiter.Pattern
import TemplateReader.Delimiter.Tag

/-!
# Boundaries of constructs, found by bytes

The searches for the end of a construct, at offsets of the whole text. A
backslash passes over the byte behind it, which may be the first of a
character, and the search then goes on from the middle of that character.
-/

namespace TemplateReader.Bytes

/-- The end of the whitespace from an offset on. -/
def skipSpaceAt (s : List Char) (i : Nat) : Run Nat := runEnd s isSpace (byteSize s) i

/-- The offset at which a pattern first occurs in a text. -/
def find? (pattern text : List Char) : Option Nat :=
  (splitPattern pattern text).map fun (before, _) => byteSize before

/-- One turn of the search for a closing quote. -/
def quoteTurn (s : List Char) (quote : Char) (i : Nat) (_ : Unit) :
    Run (Turn Unit (Option Nat)) :=
  if i < byteSize s then do
    let b ← byteAt s i
    return if b = '\\' then .next (i + 2) ()
      else if b = quote then .done (some (i + 1))
      else .next (i + 1) ()
  else return .done none

/-- The offset just past the quoted run that begins at an offset. -/
def findQuote (s : List Char) (start : Nat) : Run (Option Nat) :=
  match byte? s start with
  | none => return none
  | some quote =>
    if isScriptQuote quote then loop (byteSize s) (quoteTurn s quote) (start + 1) ()
    else return none

/-- One turn of the search for the brace that closes the last of `depth` open ones. -/
def programTurn (s : List Char) (i depth : Nat) : Run (Turn Nat (Option Nat)) :=
  if i < byteSize s then do
    let b ← byteAt s i
    if isScriptQuote b then
      match ← findQuote s i with
      | none => return .done none
      | some j => return .next j depth
    else if b = '{' then return .next (i + 1) (depth + 1)
    else if b = '}' then
      let depth ← minus depth 1
      return if depth = 0 then .done (some (i + 1)) else .next (i + 1) depth
    else return .next (i + 1) depth
  else return .done none

/-- The offset just past the braced run that begins at an offset. -/
def findProgram (s : List Char) (start : Nat) : Run (Option Nat) :=
  if byte? s start = some '{' then loop (byteSize s) (programTurn s) start 0 else return none

/-- One turn of the search for the end of a tag. -/
def markupTurn (s : List Char) (i : Nat) (_ : Unit) : Run (Turn Unit (Option Nat)) :=
  if i < byteSize s then do
    let b ← byteAt s i
    if isTagQuote b then
      match ← findQuote s i with
      | none => return .done none
      | some j => return .next j ()
    else if b = '{' then
      match ← findProgram s i with
      | none => return .done none
      | some j => return .next j ()
    else if b = '>' then return .done (some (i + 1))
    else return .next (i + 1) ()
  else return .done none

/-- The offset just past the tag that begins at an offset. -/
def findMarkup (s : List Char) (start : Nat) : Run (Option Nat) :=
  if byte? s start = some '<' then loop (byteSize s) (markupTurn s) (start + 1) ()
  else return none

/-- The offset just past the comment that begins at an offset. -/
def findComment (s : List Char) (start : Nat) : Run (Option Nat) :=
  match slice? s start (byteSize s) with
  | none => return none
  | some text =>
    if commentOpening.isPrefixOf text then do
      let inside ← sliceAt s (start + 4) (byteSize s)
      return (find? commentClosing inside).map fun found => start + 4 + found + 3
    else return none

/-- One turn of the search for a close tag, from an offset behind the last candidate. -/
def closeTagTurn (s name : List Char) (search : Nat) (_ : Unit) :
    Run (Turn Unit (Option (Nat × Nat))) :=
  match (slice? s search (byteSize s)).bind (find? ['<', '/']) with
  | none => return .done none
  | some found =>
    let tagStart := search + found
    let nameStart := tagStart + 2
    let nameEnd := nameStart + byteSize name
    if (slice? s nameStart nameEnd).any fun candidate => eqIgnoreCase candidate name then do
      let i ← runEnd s isSpace (byteSize s) nameEnd
      return if byte? s i = some '>' then .done (some (tagStart, i + 1)) else .next nameStart ()
    else return .next nameStart ()

/-- Where the first close tag of a name from an offset on begins and ends. -/
def findCloseTag (s : List Char) (start : Nat) (name : List Char) : Run (Option (Nat × Nat)) :=
  loop (byteSize s) (closeTagTurn s name) start ()

end TemplateReader.Bytes
