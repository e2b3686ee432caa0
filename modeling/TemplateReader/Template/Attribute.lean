import TemplateReader.Delimiter.Brace
import TemplateReader.Delimiter.Tag
import TemplateReader.Template.Error
import TemplateReader.Text.Blank
import TemplateReader.Token.Basic

/-!
# Attributes

The text of a tag between its name and its `>` is a list of attributes. An
attribute is a name, a name with a quoted, braced or bare value, a spread
expression or a computed name. Whatever else stands between attributes is
passed over; a slash right before the `>` makes the tag self-closing.
-/

namespace TemplateReader

/-- Any character that is neither ASCII whitespace nor one of the delimiters of a tag. -/
def isAttributeNameChar (c : Char) : Bool :=
  !isSpace c && !(c = '=' || c = '"' || c = '\'' || c = '{' || c = '}' || c = '<' || c = '>' ||
    c = '/')

/-- The error of a brace at an offset that does not close. -/
def openProgramError (offset : Nat) : TemplateError :=
  ⟨.unterminatedProgram, ⟨offset, offset + 1⟩⟩

/-- The property of a braced attribute that spans `span` and holds `inner` between its braces. -/
def bracedAttribute (span : Span) (inner : List Char) : Property :=
  let expression := trim inner
  match expression with
  | '.' :: '.' :: '.' :: spread =>
    ⟨none, .program ⟨String.ofList (trim spread), span⟩, .spread, span⟩
  | _ =>
    let source := String.ofList expression
    let start := span.start + 1 + (byteSize inner - byteSize (trimStart inner))
    ⟨some ⟨source, ⟨start, start + byteSize expression⟩⟩, .program ⟨source, span⟩, .computed, span⟩

/-- Reads the braced attribute whose opening brace is at `c`, with `text` after it. -/
def readBraced (c : Cursor) (text : List Char) : Except TemplateError (Property × Cursor) :=
  match splitBraces 0 text with
  | none => .error (openProgramError c.offset)
  | some (inner, rest) =>
    let after := c.seek rest
    .ok (bracedAttribute (c.spanTo after) inner, after)

/-- Reads the value at a cursor: quoted, braced, or a run up to the next whitespace. -/
def readAttributeValue (c : Cursor) : Except TemplateError (Token × Cursor) :=
  match c.rest with
  | [] => .ok (.literal (.ofText c.offset []), c)
  | quote :: text =>
    if isTagQuote quote then
      match splitQuote quote text with
      | none => .error ⟨.overlongQuote, ⟨c.offset, c.offset + 1⟩⟩
      | some (inner, rest) =>
        let after := c.seek rest
        let raw := quote :: inner ++ [quote]
        .ok (.literal ⟨.string (String.ofList inner), String.ofList raw, false, c.spanTo after⟩,
          after)
    else if quote = '{' then
      match splitBraces 0 text with
      | none => .error (openProgramError c.offset)
      | some (inner, rest) =>
        let after := c.seek rest
        .ok (.program ⟨String.ofList (trim inner), c.spanTo after⟩, after)
    else
      let after := c.skipWhile fun ch => !isSpace ch
      .ok (.literal (.ofText c.offset (c.rest.takeWhile fun ch => !isSpace ch)), after)

/-- Reads the attribute whose name begins at `c`. A name without a value is true. -/
def readNamed (c : Cursor) : Except TemplateError (Property × Cursor) :=
  let name := String.ofList (c.rest.takeWhile isAttributeNameChar)
  let afterName := c.skipWhile isAttributeNameChar
  let span := c.spanTo afterName
  let key : Identifier := ⟨name, span⟩
  let equals := afterName.skipWhile isSpace
  match equals.rest with
  | '=' :: text =>
    match readAttributeValue ((equals.advance ['='] text).skipWhile isSpace) with
    | .ok (value, after) => .ok (.plain key value, after)
    | .error e => .error e
  | _ => .ok (.plain key (.literal ⟨.boolean true, name, false, span⟩), afterName)

/-- A braced attribute takes up text. -/
theorem length_lt_of_readBraced {c d : Cursor} {p : Property} {text : List Char}
    (hc : c.rest = '{' :: text) (h : readBraced c text = .ok (p, d)) :
    d.rest.length < c.rest.length := by
  unfold readBraced at h
  split at h
  · simp at h
  · next inner rest hs =>
    simp only [Except.ok.injEq, Prod.mk.injEq] at h
    obtain ⟨_, rfl⟩ := h
    have := length_lt_of_splitBraces hs
    simp only [Cursor.seek, hc, List.length_cons]
    omega

/-- A value never lengthens what remains. -/
theorem length_le_of_readAttributeValue {c d : Cursor} {value : Token}
    (h : readAttributeValue c = .ok (value, d)) : d.rest.length ≤ c.rest.length := by
  unfold readAttributeValue at h
  split at h
  · simp only [Except.ok.injEq, Prod.mk.injEq] at h
    simp [← h.2]
  · next quote text hc =>
    split at h
    · split at h
      · simp at h
      · next hs =>
        simp only [Except.ok.injEq, Prod.mk.injEq] at h
        have := length_lt_of_splitQuote hs
        simp only [← h.2, Cursor.seek, hc, List.length_cons]
        omega
    · split at h
      · split at h
        · simp at h
        · next hs =>
          simp only [Except.ok.injEq, Prod.mk.injEq] at h
          have := length_lt_of_splitBraces hs
          simp only [← h.2, Cursor.seek, hc, List.length_cons]
          omega
      · simp only [Except.ok.injEq, Prod.mk.injEq] at h
        rw [← h.2]
        exact c.length_skipWhile_le _

/-- A named attribute takes up its name at least. -/
theorem length_lt_of_readNamed {c d : Cursor} {p : Property} {ch : Char} {text : List Char}
    (hc : c.rest = ch :: text) (hch : isAttributeNameChar ch = true)
    (h : readNamed c = .ok (p, d)) : d.rest.length < c.rest.length := by
  have hname : (c.skipWhile isAttributeNameChar).rest.length < c.rest.length := by
    simp only [Cursor.skipWhile, Cursor.advance, hc, List.dropWhile_cons, hch, if_true,
      List.length_cons]
    exact Nat.lt_succ_of_le (List.dropWhile_suffix _).length_le
  unfold readNamed at h
  simp only at h
  split at h
  · next rest hr =>
    split at h
    · next value after hv =>
      simp only [Except.ok.injEq, Prod.mk.injEq] at h
      have h₁ := length_le_of_readAttributeValue hv
      have h₂ := (((c.skipWhile isAttributeNameChar).skipWhile isSpace).advance
        ['='] rest).length_skipWhile_le isSpace
      have h₃ := (c.skipWhile isAttributeNameChar).length_skipWhile_le isSpace
      simp only [hr, List.length_cons] at h₃
      simp only [Cursor.advance] at h₂
      rw [← h.2]
      simp only [Cursor.advance] at h₁
      omega
    · simp at h
  · simp only [Except.ok.injEq, Prod.mk.injEq] at h
    rw [← h.2]
    exact hname

/-- Reads the attributes of a tag, and whether the tag closes itself. -/
def readAttributes (c : Cursor) : Except TemplateError (List Property × Bool) :=
  let start := c.skipWhile isSpace
  match hs : start.rest with
  | [] => .ok ([], false)
  | ch :: text =>
    have hle : (ch :: text).length ≤ c.rest.length := hs ▸ c.length_skipWhile_le isSpace
    if hb : ch = '{' then
      match h : readBraced start text with
      | .error e => .error e
      | .ok (property, after) =>
        have := length_lt_of_readBraced (hb ▸ hs) h
        have := hs ▸ this
        (readAttributes after).map fun (properties, closing) => (property :: properties, closing)
    else if hn : isAttributeNameChar ch then
      match h : readNamed start with
      | .error e => .error e
      | .ok (property, after) =>
        have := length_lt_of_readNamed hs hn h
        have := hs ▸ this
        (readAttributes after).map fun (properties, closing) => (property :: properties, closing)
    else if ch = '/' && text.isEmpty then .ok ([], true)
    else readAttributes (start.advance [ch] text)
termination_by c.rest.length
decreasing_by all_goals (simp only [Cursor.advance, List.length_cons] at *; omega)

/-- One step of the reading of attributes: the first of them, and then the others. -/
theorem readAttributes_eq (c : Cursor) :
    readAttributes c =
      match (c.skipWhile isSpace).rest with
      | [] => .ok ([], false)
      | ch :: text =>
        if ch = '{' then do
          let (property, after) ← readBraced (c.skipWhile isSpace) text
          let (properties, closing) ← readAttributes after
          return (property :: properties, closing)
        else if isAttributeNameChar ch then do
          let (property, after) ← readNamed (c.skipWhile isSpace)
          let (properties, closing) ← readAttributes after
          return (property :: properties, closing)
        else if ch = '/' && text.isEmpty then .ok ([], true)
        else readAttributes ((c.skipWhile isSpace).advance [ch] text) := by
  rw [readAttributes]
  dsimp only
  split
  · next h => simp only [h]
  · next ch text h =>
    simp only [h]
    split
    · split
      · next e he => rw [he]; rfl
      · next he =>
        rw [he]
        simp only [bind, Except.bind]
        cases readAttributes _ <;> rfl
    · split
      · split
        · next e he => rw [he]; rfl
        · next he =>
          rw [he]
          simp only [bind, Except.bind]
          cases readAttributes _ <;> rfl
      · rfl

/-- The object of a tag's attributes, which spans them all, or nothing at the end of the name. -/
def attributeObject (nameEnd : Nat) (properties : List Property) : Object :=
  match properties.head?, properties.getLast? with
  | some first, some last => ⟨properties, ⟨first.span.start, last.span.stop⟩⟩
  | _, _ => ⟨properties, ⟨nameEnd, nameEnd⟩⟩

end TemplateReader
