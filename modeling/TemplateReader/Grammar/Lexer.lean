import TemplateReader.Grammar.Container

/-!
# Lexers

A lexer matches the rules of a registry along a text. It remembers how far it
has got; matching alone never moves it, and a failure of any kind leaves it
where it was.
-/

namespace TemplateReader

/-- A text, a place in it, and the rules to match. -/
structure Lexer where
  /-- The rules. -/
  registry : Registry
  /-- The text. -/
  text : List Char
  /-- Number of bytes read so far. -/
  index : Nat
  /-- Number of nested matches under way. -/
  level : Nat

namespace Lexer

/-- Number of nested objects and arrays that are matched. -/
def nestingLimit : Nat := 256

/-- A lexer without text. -/
def ofRegistry (r : Registry) : Lexer := ⟨r, [], 0, 0⟩

/-- A lexer for data literals. -/
def standard : Lexer := ofRegistry .standard

/-- Gives a name a rule. -/
def define (l : Lexer) (name : String) (rule : Rule) : Lexer :=
  { l with registry := l.registry.define name rule }

/-- The last character boundary at or before a number of bytes. -/
def floorBoundary : List Char → Nat → Nat
  | [], _ => 0
  | c :: text, n =>
    if c.utf8Size ≤ n then c.utf8Size + floorBoundary text (n - c.utf8Size) else 0

/-- Takes up a text at an offset, or at the last boundary before it. -/
def loadAt (l : Lexer) (text : List Char) (index : Nat) : Lexer :=
  { l with text, index := floorBoundary text index }

/-- Takes up a text at its beginning. -/
def load (l : Lexer) (text : List Char) : Lexer := l.loadAt text 0

/-- The place the lexer has got to. -/
def cursor (l : Lexer) : Cursor := .atOffset l.text l.index

/-- The text still to be read. -/
def rest (l : Lexer) : List Char := l.cursor.rest

/-- Matches the first of some names at a cursor of the text. -/
def matchCursor (l : Lexer) (c : Cursor) (names : List String) : Except LexError (Option Token) :=
  l.registry.matchWith nestingLimit l.text l.index
    (l.registry.fuel nestingLimit l.text.length) l.level c names

/-- Matches the first of some names, or of all in their order, at an offset. -/
def matchAt (l : Lexer) (offset : Nat) (names : Option (List String)) :
    Except LexError (Option Token) :=
  l.matchCursor (.atOffset l.text offset) (names.getD l.registry.names)

/-- Whether any of some names matches next. -/
def next (l : Lexer) (names : List String) : Except LexError Bool :=
  (l.matchAt l.index names).map Option.isSome

/-- Goes one level deeper, unless the limit is reached. -/
def nested {α : Type} (l : Lexer) (f : Lexer → Option α) : Option α :=
  if l.level < nestingLimit then f { l with level := l.level + 1 } else none

/-- Moves behind a token. -/
def past (l : Lexer) (t : Token) : Lexer := { l with index := t.span.stop }

/-- Reads one of some names, if one matches. -/
def optional (l : Lexer) (names : List String) : Option (Token × Lexer) :=
  match l.matchAt l.index names with
  | .ok (some t) => some (t, l.past t)
  | _ => none

/-- Reads one of some names, one of which must match. -/
def expect (l : Lexer) (names : List String) : Except LexError (Token × Lexer) :=
  if names.isEmpty then .error .unknownDefinitions
  else
    match l.matchAt l.index names with
    | .error e => .error e
    | .ok (some t) => .ok (t, l.past t)
    | .ok none => .error (.unexpectedToken (LexError.preview l.rest) names l.index)

/-- Requires that nothing but blanks is left. -/
def expectEnd (l : Lexer) : Except LexError Unit :=
  match trimStart l.rest with
  | [] => .ok ()
  | rest =>
    .error (.unexpectedToken (LexError.preview rest) [] (l.index + (byteSize l.rest - byteSize rest)))

/-- The first match at a character boundary of a text that begins at an offset. -/
def firstFrom (rule : Cursor → Option Token) (offset : Nat) : List Char → Option Token
  | [] => none
  | c :: text =>
    match rule ⟨offset, c :: text⟩ with
    | some t => some t
    | none => firstFrom rule (offset + c.utf8Size) text

/-- Skips blanks, reads the next match of a name wherever it begins, and leaves out what is before it.
Answers nothing when there is none. -/
def find (l : Lexer) (name : String) : Except LexError (Option (Token × Lexer)) :=
  if l.registry.has name then
    let start := l.cursor.skipWhile isBlankChar
    let found := firstFrom (fun c => (l.matchCursor c [name]).toOption.join) start.offset start.rest
    .ok (found.map fun t => (t, l.past t))
  else .error (.unknownDefinition name)

/-- The text between two offsets, which are brought into bounds; empty if one is no boundary. -/
def substring (l : Lexer) (start stop : Nat) : List Char :=
  let stop := min stop (byteSize l.text)
  let start := min start stop
  ((splitBytes? start l.text).bind fun (_, rest) => splitBytes? (stop - start) rest).elim []
    Prod.fst

/-- The offset of the next blank, or of the end. -/
def nextSpace (l : Lexer) : Nat :=
  l.index + byteSize (l.rest.takeWhile fun c => !isBlankChar c)

end Lexer

end TemplateReader
