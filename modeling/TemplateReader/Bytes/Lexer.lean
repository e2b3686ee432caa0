import TemplateReader.Bytes.Run
import TemplateReader.Grammar.Session

/-!
# Lexers over bytes

The steps of a lexer over the bytes of its text. The lexer stands at an offset,
which may be any number: every slice from it or up to it goes wrong unless both
ends are boundaries. A question takes the lexer and hands it back, since the
level of nesting is raised for a deeper question and lowered behind it.
-/

namespace TemplateReader.Bytes

/-- Whether an offset is in the text and not inside a character. -/
def isBoundary (s : List Char) (i : Nat) : Bool := (splitBytes? i s).isSome

/-- Moves from an offset back to a boundary. -/
def floorBoundary (s : List Char) : (i : Nat) → Run Nat
  | 0 => if isBoundary s 0 then .ok 0 else .fail .underflow
  | i + 1 => if isBoundary s (i + 1) then .ok (i + 1) else floorBoundary s i

/-- Takes up a text at an offset, or at the last boundary before it. -/
def loadAt (l : Lexer) (text : List Char) (index : Nat) : Run Lexer := do
  let index ← floorBoundary text (min index (byteSize text))
  return { l with text, index }

/-- How the text from an offset on is shown. -/
def preview (s : List Char) (offset : Nat) : Run String := do
  let rest ← sliceAt s offset (byteSize s)
  return LexError.preview rest

/-- The first offset from the lexer's own on at which no blank stands. -/
def skipBlanks (l : Lexer) : Run Nat := do
  let rest ← sliceAt l.text l.index (byteSize l.text)
  let blanks ← minus (byteSize rest) (byteSize (trimStart rest))
  return l.index + blanks

/-- Whether nothing but blanks is left. -/
def expectEnd (l : Lexer) : Run (Except LexError Unit) := do
  let offset ← skipBlanks l
  if offset = byteSize l.text then return .ok ()
  let shown ← preview l.text offset
  return .error (.unexpectedToken shown [] offset)

/-- The text between two offsets, which are brought into bounds; empty if one is no boundary. -/
def substring (l : Lexer) (start stop : Nat) : List Char :=
  let stop := min stop (byteSize l.text)
  (slice? l.text (min start stop) stop).getD []

/-- The offset of the next blank, or of the end. -/
def nextSpace (l : Lexer) : Run Nat := do
  let rest ← sliceAt l.text l.index (byteSize l.text)
  match rest.dropWhile fun c => !isBlankChar c with
  | [] => return byteSize l.text
  | _ => return l.index + byteSize (rest.takeWhile fun c => !isBlankChar c)

/-- Reads one of some names, if one matches. -/
def optional (l : Lexer) (names : List String) : Run (Option Token × Lexer) :=
  match l.matchAt l.index names with
  | .ok (some t) => return (some t, { l with index := t.span.stop })
  | _ => return (none, l)

/-- Reads one of some names, one of which must match. -/
def expect (l : Lexer) (names : List String) : Run (Except LexError Token × Lexer) :=
  if names.isEmpty then return (.error .unknownDefinitions, l)
  else
    match l.matchAt l.index names with
    | .error e => return (.error e, l)
    | .ok (some t) => return (.ok t, { l with index := t.span.stop })
    | .ok none => do
      let shown ← preview l.text l.index
      return (.error (.unexpectedToken shown names l.index), l)

/-- One turn of the search for a match. -/
def findTurn (l : Lexer) (name : String) (i : Nat) (_ : Unit) :
    Run (Turn Unit (Except LexError (Option Token))) :=
  if i < byteSize l.text then
    match l.matchAt i (some [name]) with
    | .error e => return .done (.error e)
    | .ok (some t) => return .done (.ok (some t))
    | .ok none => do
      let rest ← sliceAt l.text i (byteSize l.text)
      return .next (i + rest.head?.elim 1 Char.utf8Size) ()
  else return .done (.ok none)

/-- Skips blanks and reads the next match of a name wherever it begins. -/
def find (l : Lexer) (name : String) : Run (Except LexError (Option Token) × Lexer) :=
  if l.registry.has name then do
    let saved := l.index
    let start ← skipBlanks l
    match ← loop (byteSize l.text) (findTurn l name) start () with
    | .error e => return (.error e, l)
    | .ok (some t) => return (.ok (some t), { l with index := t.span.stop })
    | .ok none => return (.ok none, { l with index := saved })
  else return (.error (.unknownDefinition name), l)

/-- Answers a question. -/
def answer : Query → Lexer → Run (Answer × Lexer)
  | .matchAt offset names, l => return (.matched (l.matchAt offset names), l)
  | .next names, l => return (.next (l.next names), l)
  | .expectEnd, l => do
    let result ← expectEnd l
    return (.ended result, l)
  | .substring start stop, l => return (.text (substring l start stop), l)
  | .nextSpace, l => do
    let offset ← nextSpace l
    return (.offset offset, l)
  | .clone, l => return (.clone l, l)
  | .both first second, l => do
    let (a, l) ← answer first l
    let (b, l) ← answer second l
    return (.both a b, l)
  | .nested inner, l =>
    let level := l.level
    if Lexer.nestingLimit ≤ level then return (.tooDeep, l)
    else do
      let (a, l) ← answer inner { l with level := level + 1 }
      return (.nested a, { l with level := level })

/-- Takes a step. -/
def perform : Step → Lexer → Run (Answer × Lexer)
  | .ask query, l => answer query l
  | .load text, l => do
    let l ← loadAt l text 0
    return (.loaded, l)
  | .loadAt text index, l => do
    let l ← loadAt l text index
    return (.loaded, l)
  | .optional names, l => do
    let (found, l) ← optional l names
    return (.optional found, l)
  | .expect names, l => do
    let (result, l) ← expect l names
    return (.expected result, l)
  | .find name, l => do
    let (result, l) ← find l name
    return (.found result, l)

end TemplateReader.Bytes
