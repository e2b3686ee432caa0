import TemplateReader.Bytes.Delimiter
import TemplateReader.Template.Piece

/-!
# Tags, read by bytes

The name and the attributes of a tag are read between offsets of the whole
text. A quoted or braced value may reach past the end of its tag, which is then
an error of that value; what is wrong with a tag that has no end is found by a
second search from its beginning.
-/

namespace TemplateReader.Bytes

/-- The tag name that begins at an offset. -/
def tagNameAt (s : List Char) (start : Nat) : Run (List Char) := do
  let stop ← runEnd s isTagNameChar (byteSize s) start
  sliceAt s start stop

/-- One turn of the search for what keeps a tag from ending. -/
def faultTurn (s : List Char) (i : Nat) (_ : Unit) : Run (Turn Unit (Option TemplateError)) :=
  if i < byteSize s then do
    let b ← byteAt s i
    if isTagQuote b then
      match ← findQuote s i with
      | none => return .done (some ⟨.unterminatedQuote, ⟨i, i + 1⟩⟩)
      | some j => return .next j ()
    else if b = '{' then
      match ← findProgram s i with
      | none => return .done (some (openProgramError i))
      | some j => return .next j ()
    else return .next (i + 1) ()
  else return .done none

/-- The error of the tag that begins at an offset and has no end. -/
def unterminatedTag (s : List Char) (start : Nat) : Run TemplateError := do
  match ← loop (byteSize s) (faultTurn s) (start + 1) () with
  | some error => return error
  | none =>
    let nameStart := if byte? s (start + 1) = some '/' then start + 2 else start + 1
    let name ← tagNameAt s nameStart
    return ⟨.unterminatedTag (String.ofList name), ⟨start, nameStart + byteSize name⟩⟩

/-- The offset just past the tag that begins at an offset and has to end. -/
def tagEnd (s : List Char) (start : Nat) : Run Nat := do
  match ← findMarkup s start with
  | some stop => return stop
  | none => .refuse (← unterminatedTag s start)

/-- The braced attribute that begins at an offset and has to end at `stop` at the latest. -/
def braceAttribute (s : List Char) (start stop : Nat) : Run Property := do
  match (← findProgram s start).filter (· ≤ stop) with
  | none => .refuse (openProgramError start)
  | some last =>
    let inner ← sliceAt s (start + 1) (← minus last 1)
    return bracedAttribute ⟨start, last⟩ inner

/-- The value that begins at an offset and has to end at `stop` at the latest. -/
def attributeValue (s : List Char) (start stop : Nat) : Run Token := do
  if start < stop ∧ (byte? s start).any isTagQuote then
    match (← findQuote s start).filter (· ≤ stop) with
    | none => .refuse ⟨.overlongQuote, ⟨start, start + 1⟩⟩
    | some last =>
      let inner ← sliceAt s (start + 1) (← minus last 1)
      let raw ← sliceAt s start last
      return .literal ⟨.string (String.ofList inner), String.ofList raw, false, ⟨start, last⟩⟩
  else if start < stop ∧ byte? s start = some '{' then
    match (← findProgram s start).filter (· ≤ stop) with
    | none => .refuse (openProgramError start)
    | some last =>
      let inner ← sliceAt s (start + 1) (← minus last 1)
      return .program ⟨String.ofList (trim inner), ⟨start, last⟩⟩
  else
    let last ← runEnd s (fun c => !isSpace c) stop start
    return .literal (.ofText start (← sliceAt s start last))

/-- The attribute whose name begins at an offset, in a tag that ends at `stop`. -/
def namedAttribute (s : List Char) (start stop : Nat) : Run Property := do
  let nameEnd ← runEnd s isAttributeNameChar stop start
  let name := String.ofList (← sliceAt s start nameEnd)
  let key : Identifier := ⟨name, ⟨start, nameEnd⟩⟩
  let i ← runEnd s isSpace stop nameEnd
  let hasValue ← if i < stop then (· == '=') <$> byteAt s i else pure false
  if hasValue then
    let valueStart ← runEnd s isSpace stop (i + 1)
    return .plain key (← attributeValue s valueStart stop)
  else return .plain key (.literal ⟨.boolean true, name, false, ⟨start, nameEnd⟩⟩)

/-- One turn of the reading of attributes: over one of them, or over a byte that belongs to none.
The state holds the attributes so far and whether the last such byte closes the tag. -/
def attributesTurn (s : List Char) (stop i : Nat) (state : List Property × Bool) :
    Run (Turn (List Property × Bool) (List Property × Bool)) := do
  let i ← runEnd s isSpace stop i
  if stop ≤ i then return .done state
  else
    let b ← byteAt s i
    if b = '{' then
      let property ← braceAttribute s i stop
      return .next property.span.stop (state.1 ++ [property], state.2)
    else if isAttributeNameChar b then
      let property ← namedAttribute s i stop
      return .next property.span.stop (state.1 ++ [property], state.2)
    else return .next (i + 1) (state.1, b = '/' && i + 1 = stop)

/-- The attributes between two offsets of a tag, and whether the tag closes itself. -/
def attributes (s : List Char) (start stop : Nat) : Run (Object × Bool) := do
  let (properties, closesItself) ← loop (byteSize s) (attributesTurn s stop) start ([], false)
  return (attributeObject start properties, closesItself)

end TemplateReader.Bytes
