import TemplateReader.Delimiter.Pattern
import TemplateReader.Template.Attribute
import TemplateReader.Template.ElementClass

/-!
# Pieces of a template

A template is first cut into pieces: nodes that are complete in themselves,
opening tags whose children are still to come, and close tags. Which piece
comes next depends on the remaining text alone, not on the elements that are
open, so the pieces of a text do not depend on what stands before it.
-/

namespace TemplateReader

/-- What a tag name is made of. -/
def isTagNameChar (c : Char) : Bool :=
  c.isAlphanum || c = '-' || c = '_' || c = ':' || c = '.'

/-- An opening tag. -/
structure OpenTag where
  /-- The tag name as written. -/
  name : List Char
  /-- The attributes. -/
  attributes : Object
  /-- Where the tag stands. -/
  span : Span

/-- A piece of a template. -/
inductive Piece where
  /-- A node that needs nothing more. -/
  | node (token : Token)
  /-- The opening tag of an element whose children follow. -/
  | openTag (tag : OpenTag)
  /-- A close tag. -/
  | closeTag (name : List Char) (span : Span)

/-- What a construct of a template begins with. -/
inductive Opening where
  /-- The opening of a comment. -/
  | comment
  /-- The opening of a close tag. -/
  | closeTag
  /-- The opening of a declaration. -/
  | declaration
  /-- The opening of an element. -/
  | element
  /-- The opening of an embedded expression. -/
  | program
deriving DecidableEq, Repr

/-- The construct that begins at a text, if one does. -/
def opening? : List Char → Option Opening
  | '<' :: '!' :: '-' :: '-' :: _ => some .comment
  | '<' :: '!' :: _ => some .declaration
  | '<' :: '/' :: c :: _ => if c.isAlpha then some .closeTag else none
  | '<' :: c :: _ => if c.isAlpha then some .element else none
  | '{' :: _ => some .program
  | _ => none

/-- Splits a text where the first construct begins. -/
def splitPlain : List Char → List Char × List Char
  | [] => ([], [])
  | c :: text =>
    if (opening? (c :: text)).isSome then ([], c :: text)
    else
      let (plain, rest) := splitPlain text
      (c :: plain, rest)

/-- The name at the front of a text. -/
def tagName (text : List Char) : List Char :=
  text.takeWhile isTagNameChar

/-- The error of a tag at an offset, given the text behind its `<` and why it has no end. -/
def openTagError (start : Nat) (text : List Char) : TagFault → TemplateError
  | .openQuote before =>
    let offset := start + 1 + byteSize before
    ⟨.unterminatedQuote, ⟨offset, offset + 1⟩⟩
  | .openBrace before => openProgramError (start + 1 + byteSize before)
  | .noEnd =>
    let (slash, name) : Nat × List Char :=
      match text with
      | '/' :: text => (1, tagName text)
      | text => (0, tagName text)
    ⟨.unterminatedTag (String.ofList name), ⟨start, start + 1 + slash + byteSize name⟩⟩

/-- Splits the tag whose `<` is at `c`, with `text` behind it: what is inside, and the place behind. -/
def readTag (c : Cursor) (text : List Char) : Except TemplateError (List Char × Cursor) :=
  match splitTag text with
  | .ok (inner, rest) => .ok (inner, c.advance ('<' :: inner ++ ['>']) rest)
  | .error fault => .error (openTagError c.offset text fault)

/-- The literal of the text between two cursors. -/
def verbatim (c : Cursor) (text : List Char) : Piece :=
  .node (.literal (.ofText c.offset text))

/-- Reads the comment that begins at `c`, with `text` behind its opening. -/
def readComment (c : Cursor) (text : List Char) : Except TemplateError (Piece × Cursor) :=
  match splitPattern commentClosing text with
  | none => .error ⟨.unterminatedComment, ⟨c.offset, c.offset + 4⟩⟩
  | some (inner, rest) =>
    let comment := commentOpening ++ inner ++ commentClosing
    .ok (verbatim c comment, c.advance comment rest)

/-- Reads the declaration whose `<` is at `c`, which is kept as text. -/
def readDeclaration (c : Cursor) (text : List Char) : Except TemplateError (Piece × Cursor) := do
  let (inner, after) ← readTag c text
  return (verbatim c ('<' :: inner ++ ['>']), after)

/-- Reads the embedded expression whose brace is at `c`. -/
def readProgram (c : Cursor) (text : List Char) : Except TemplateError (Piece × Cursor) :=
  match splitBraces 0 text with
  | none => .error (openProgramError c.offset)
  | some (inner, rest) =>
    let after := c.advance ('{' :: inner ++ ['}']) rest
    .ok (.node (.program ⟨String.ofList (trim inner), c.spanTo after⟩), after)

/-- Reads the close tag whose `<` is at `c`. What stands between its name and its `>` is ignored. -/
def readCloseTag (c : Cursor) (text : List Char) : Except TemplateError (Piece × Cursor) := do
  let (inner, after) ← readTag c text
  return (.closeTag (tagName inner.tail) (c.spanTo after), after)

/-- Completes the element of an opening tag that spans from `c` to `after`: with no children if the
tag closes itself or its element has no content, with its content as one literal if that is raw text,
and with the children to come otherwise. -/
def finishTag (c after : Cursor) (name : List Char) (attributes : Object) (closesItself : Bool) :
    Except TemplateError (Piece × Cursor) :=
  if closesItself || isVoidElement name then
    .ok (.node (.element ⟨String.ofList name, attributes, [], c.spanTo after⟩), after)
  else if isRawTextElement name then
    match splitRawText name after.rest with
    | none => .error ⟨.unterminatedRawText (String.ofList name), c.spanTo after⟩
    | some (content, rest) =>
      let children := if content.isEmpty then [] else [.literal (.ofText after.offset content)]
      let last := after.seek rest
      .ok (.node (.element ⟨String.ofList name, attributes, children, c.spanTo last⟩), last)
  else .ok (.openTag ⟨name, attributes, c.spanTo after⟩, after)

/-- Reads the opening tag whose `<` is at `c`, and the whole element if no children can follow. -/
def readElement (c : Cursor) (text : List Char) : Except TemplateError (Piece × Cursor) := do
  let (inner, after) ← readTag c text
  let name := tagName inner
  let nameEnd := c.advance ('<' :: name) (inner.dropWhile isTagNameChar)
  let (properties, closesItself) ← readAttributes nameEnd
  finishTag c after name (attributeObject nameEnd.offset properties) closesItself

/-- Reads the piece at a cursor behind which text remains. -/
def readPiece (c : Cursor) : Except TemplateError (Piece × Cursor) :=
  match opening? c.rest with
  | some .comment => readComment c (c.rest.drop 4)
  | some .closeTag => readCloseTag c c.rest.tail
  | some .declaration => readDeclaration c c.rest.tail
  | some .element => readElement c c.rest.tail
  | some .program => readProgram c c.rest.tail
  | none =>
    let (plain, rest) := splitPlain c.rest
    .ok (verbatim c plain, c.advance plain rest)

/-- What is split at a construct makes up the text. -/
theorem splitPlain_append (text : List Char) :
    (splitPlain text).1 ++ (splitPlain text).2 = text := by
  induction text with
  | nil => rfl
  | cons c text ih =>
    unfold splitPlain
    split
    · rfl
    · simpa using ih

/-- A tag takes up text. -/
theorem length_lt_of_readTag {c d : Cursor} {text inner : List Char}
    (h : readTag c text = .ok (inner, d)) : d.rest.length < text.length := by
  unfold readTag at h
  split at h
  · next hs =>
    simp only [Except.ok.injEq, Prod.mk.injEq] at h
    rw [← h.2]
    exact length_lt_of_splitTag hs
  · simp at h

/-- Completing an element never lengthens what remains. -/
theorem length_le_of_finishTag {c after d : Cursor} {name : List Char} {attributes : Object}
    {closesItself : Bool} {p : Piece}
    (h : finishTag c after name attributes closesItself = .ok (p, d)) :
    d.rest.length ≤ after.rest.length := by
  unfold finishTag at h
  split at h
  · simp only [Except.ok.injEq, Prod.mk.injEq] at h
    simp [← h.2]
  · split at h
    · split at h
      · simp at h
      · next hs =>
        simp only [Except.ok.injEq, Prod.mk.injEq] at h
        have := length_lt_of_splitRawText hs
        rw [← h.2]
        exact Nat.le_of_lt this
    · simp only [Except.ok.injEq, Prod.mk.injEq] at h
      simp [← h.2]

/-- Every piece takes up text. -/
theorem length_lt_of_readPiece {c d : Cursor} {p : Piece} (hc : c.rest ≠ [])
    (h : readPiece c = .ok (p, d)) : d.rest.length < c.rest.length := by
  obtain ⟨ch, text, ht⟩ := List.exists_cons_of_ne_nil hc
  have htail : c.rest.tail.length < c.rest.length := by simp [ht]
  unfold readPiece at h
  split at h
  · unfold readComment at h
    split at h
    · simp at h
    · next inner rest hs =>
      simp only [Except.ok.injEq, Prod.mk.injEq] at h
      have := congrArg List.length (eq_append_of_splitPattern hs)
      simp only [List.length_append, List.length_drop, commentClosing, List.length_cons] at this
      simp only [← h.2, Cursor.advance]
      omega
  · simp only [readCloseTag, bind, Except.bind, pure, Except.pure] at h
    split at h
    · simp at h
    · next v hr =>
      obtain ⟨inner, after⟩ := v
      simp only [Except.ok.injEq, Prod.mk.injEq] at h
      have := length_lt_of_readTag hr
      rw [← h.2]
      omega
  · simp only [readDeclaration, bind, Except.bind, pure, Except.pure] at h
    split at h
    · simp at h
    · next v hr =>
      obtain ⟨inner, after⟩ := v
      simp only [Except.ok.injEq, Prod.mk.injEq] at h
      have := length_lt_of_readTag hr
      rw [← h.2]
      omega
  · simp only [readElement, bind, Except.bind] at h
    split at h
    · simp at h
    · next v hr =>
      obtain ⟨inner, after⟩ := v
      have h₁ := length_lt_of_readTag hr
      split at h
      · simp at h
      · have h₂ := length_le_of_finishTag h
        simp only at h₂
        omega
  · unfold readProgram at h
    split at h
    · simp at h
    · next inner rest hs =>
      simp only [Except.ok.injEq, Prod.mk.injEq] at h
      have := length_lt_of_splitBraces hs
      simp only [← h.2, Cursor.advance]
      omega
  · next ho =>
    simp only [Except.ok.injEq, Prod.mk.injEq] at h
    have hs := congrArg List.length (splitPlain_append text)
    rw [← h.2]
    simp only [Cursor.advance, ht, splitPlain]
    rw [ht] at ho
    simp only [ho, Option.isSome_none, Bool.false_eq_true, if_false, List.length_cons]
    simp only [List.length_append] at hs
    omega

/-- The pieces from a cursor on, up to the end of the text or the first error. -/
def piecesFrom (c : Cursor) : List Piece × Option TemplateError :=
  if hc : c.rest = [] then ([], none)
  else
    match h : readPiece c with
    | .error e => ([], some e)
    | .ok (piece, after) =>
      have := length_lt_of_readPiece hc h
      let (pieces, fault) := piecesFrom after
      (piece :: pieces, fault)
termination_by c.rest.length

/-- One step of the cut into pieces: the first of them, and then the others. -/
theorem piecesFrom_eq (c : Cursor) :
    piecesFrom c =
      if c.rest = [] then ([], none)
      else
        match readPiece c with
        | .error e => ([], some e)
        | .ok (piece, after) => (piece :: (piecesFrom after).1, (piecesFrom after).2) := by
  rw [piecesFrom]
  split
  · rfl
  · split
    · next h => simp only [h]
    · next h => simp only [h]

end TemplateReader
