import TemplateReader.Bytes.Tag
import TemplateReader.Template.Tree

/-!
# Trees of a template, read by bytes

One pass over the text from its first byte. At each offset a construct begins
or the byte is text. The children of an element are read by a recursion that
returns behind its close tag; the recursion and the loop over the nodes both go
on only further into the text.
-/

namespace TemplateReader.Bytes

/-- The construct that begins at an offset in range, if one does. -/
def openingAt (s : List Char) (i : Nat) : Run (Option Opening) := do
  let b ← byteAt s i
  if b = '<' then
    let rest ← sliceAt s i (byteSize s)
    if commentOpening.isPrefixOf rest then return some .comment
    else if ['<', '/'].isPrefixOf rest && (byte? s (i + 2)).any Char.isAlpha then
      return some .closeTag
    else if ['<', '!'].isPrefixOf rest then return some .declaration
    else if (byte? s (i + 1)).any Char.isAlpha then return some .element
    else return none
  else if b = '{' then return some .program
  else return none

/-- The nodes with the text from an offset up to the construct that begins at another, if there is
any. -/
def flush (s : List Char) (nodes : List Token) (textStart i : Nat) : Run (List Token) := do
  if textStart < i then
    return nodes ++ [.literal (.ofText textStart (← sliceAt s textStart i))]
  else return nodes

/-- The comment that begins at an offset, and where it ends. -/
def comment (s : List Char) (start : Nat) : Run (Token × Nat) := do
  match ← findComment s start with
  | none => .refuse ⟨.unterminatedComment, ⟨start, start + 4⟩⟩
  | some stop => return (.literal (.ofText start (← sliceAt s start stop)), stop)

/-- The declaration that begins at an offset, and where it ends. -/
def declaration (s : List Char) (start : Nat) : Run (Token × Nat) := do
  let stop ← tagEnd s start
  return (.literal (.ofText start (← sliceAt s start stop)), stop)

/-- The embedded expression that begins at an offset, and where it ends. -/
def program (s : List Char) (start : Nat) : Run (Token × Nat) := do
  match ← findProgram s start with
  | none => .refuse (openProgramError start)
  | some stop =>
    let inner ← sliceAt s (start + 1) (← minus stop 1)
    return (.program ⟨String.ofList (trim inner), ⟨start, stop⟩⟩, stop)

/-- The innermost open element. -/
structure Parent where
  /-- The tag name as written. -/
  name : List Char
  /-- Where its opening tag begins. -/
  start : Nat

namespace Parent

/-- The error of an element that is open at the end of the text. -/
def unclosedError (p : Parent) : TemplateError :=
  ⟨.unclosedElement (String.ofList p.name), ⟨p.start, p.start + byteSize p.name + 1⟩⟩

end Parent

/-- The end of the close tag that begins at an offset and has to close the innermost element. -/
def closeTag (s : List Char) (parent : Option Parent) (start : Nat) : Run Nat := do
  let stop ← tagEnd s start
  let name ← tagNameAt s (start + 2)
  match parent with
  | some p =>
    if eqIgnoreCase p.name name then return stop
    else
      .refuse ⟨.mismatchedCloseTag (String.ofList p.name) (String.ofList name) p.start,
        ⟨start, stop⟩⟩
  | none => .refuse ⟨.unexpectedCloseTag (String.ofList name), ⟨start, stop⟩⟩

/-- The content of the raw-text element that an opening tag begins, and where the element ends. -/
def rawContent (s : List Char) (tag : OpenTag) : Run (List Token × Nat) := do
  let start := tag.span.stop
  match ← findCloseTag s start tag.name with
  | none => .refuse ⟨.unterminatedRawText (String.ofList tag.name), tag.span⟩
  | some (closeStart, stop) =>
    if start < closeStart then
      return ([.literal (.ofText start (← sliceAt s start closeStart))], stop)
    else return ([], stop)

/-- The element of an opening tag, with its children, up to where it ends. -/
def completed (tag : OpenTag) (children : List Token) (stop : Nat) : Token × Nat :=
  (.element ⟨String.ofList tag.name, tag.attributes, children, ⟨tag.span.start, stop⟩⟩, stop)

mutual

/-- The element that an opening tag begins inside `depth` others, and where it ends. -/
def finishElement (s : List Char) (limit depth : Nat) (tag : OpenTag) (closesItself : Bool) :
    Run (Token × Nat) := do
  if closesItself || isVoidElement tag.name then return completed tag [] tag.span.stop
  else if isRawTextElement tag.name then
    let (children, stop) ← rawContent s tag
    return completed tag children stop
  else if limit ≤ depth then .refuse ⟨.nestingTooDeep limit, tag.span⟩
  else if tag.span.start < tag.span.stop ∧ tag.span.stop ≤ byteSize s then
    let (children, stop) ← nodes s limit (some ⟨tag.name, tag.span.start⟩) (depth + 1) []
      tag.span.stop tag.span.stop
    return completed tag children stop
  else .fail .stuck
termination_by (byteSize s - tag.span.start, 0)

/-- The element that begins at an offset inside `depth` others, and where it ends. -/
def element (s : List Char) (limit depth start : Nat) : Run (Token × Nat) := do
  let tagStop ← tagEnd s start
  let name ← tagNameAt s (start + 1)
  let (attributes, closesItself) ← attributes s (start + 1 + byteSize name) (← minus tagStop 1)
  finishElement s limit depth ⟨name, attributes, ⟨start, tagStop⟩⟩ closesItself
termination_by (byteSize s - start, 1)

/-- The nodes from an offset on, up to the close tag of the innermost open element or, outside
every element, to the end of the text, and where they end. `before` holds the nodes read so far;
the text from `textStart` on is still to become one. -/
def nodes (s : List Char) (limit : Nat) (parent : Option Parent) (depth : Nat)
    (before : List Token) (textStart i : Nat) : Run (List Token × Nat) :=
  if i < byteSize s then do
    match ← openingAt s i with
    | none => nodes s limit parent depth before textStart (i + 1)
    | some .closeTag =>
      let before ← flush s before textStart i
      let stop ← closeTag s parent i
      return (dropLayout before, stop)
    | some opening =>
      let before ← flush s before textStart i
      let (token, stop) ← match opening with
        | .comment => comment s i
        | .declaration => declaration s i
        | .program => program s i
        | _ => element s limit depth i
      if i < stop then nodes s limit parent depth (before ++ [token]) stop stop
      else .fail .stuck
  else do
    let before ← flush s before textStart i
    match parent with
    | some p => .refuse p.unclosedError
    | none => return (dropRootBlanks before, i)
termination_by (byteSize s - i, 2)

end

end TemplateReader.Bytes
