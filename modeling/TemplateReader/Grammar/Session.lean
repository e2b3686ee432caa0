import TemplateReader.Grammar.Lexer

/-!
# Sessions with lexers

A session makes several lexers out of one: each step is taken by one of them,
and what is cloned on the way joins the others, with the text, the place and
the level of nesting of its original. A question leaves the lexer where it is;
a step may move it or give it another text. What is asked one level deeper may
be any number of questions.
-/

namespace TemplateReader

/-- What can be asked of a lexer. -/
inductive Query where
  /-- A match at any offset, of some names or of all. -/
  | matchAt (offset : Nat) (names : Option (List String))
  /-- Whether any of some names matches next. -/
  | next (names : List String)
  /-- Whether nothing but blanks is left. -/
  | expectEnd
  /-- The text between two offsets. -/
  | substring (start stop : Nat)
  /-- The offset of the next blank. -/
  | nextSpace
  /-- Another lexer like this one. -/
  | clone
  /-- Two questions, one after the other. -/
  | both (first second : Query)
  /-- A question one level deeper. -/
  | nested (inner : Query)

/-- What one lexer of a session does next. -/
inductive Step where
  /-- It is asked. -/
  | ask (query : Query)
  /-- It takes up a text at its beginning. -/
  | load (text : List Char)
  /-- It takes up a text at an offset. -/
  | loadAt (text : List Char) (index : Nat)
  /-- It reads one of some names, if one matches. -/
  | optional (names : List String)
  /-- It reads one of some names. -/
  | expect (names : List String)
  /-- It reads the next match of a name, wherever it begins. -/
  | find (name : String)

/-- What a step answers. -/
inductive Answer where
  /-- What matches at an offset. -/
  | matched (result : Except LexError (Option Token))
  /-- Whether anything matches next. -/
  | next (result : Except LexError Bool)
  /-- Whether nothing but blanks is left. -/
  | ended (result : Except LexError Unit)
  /-- A part of the text. -/
  | text (text : List Char)
  /-- An offset in the text. -/
  | offset (offset : Nat)
  /-- Another lexer. -/
  | clone (lexer : Lexer)
  /-- The answers to two questions. -/
  | both (first second : Answer)
  /-- The answer from one level deeper. -/
  | nested (inner : Answer)
  /-- No answer, because no deeper level is allowed. -/
  | tooDeep
  /-- No answer, because only the text has changed. -/
  | loaded
  /-- What was read, if anything matched. -/
  | optional (found : Option Token)
  /-- What was read. -/
  | expected (result : Except LexError Token)
  /-- What was read further on, if anything matched. -/
  | found (result : Except LexError (Option Token))

namespace Answer

/-- The lexers that came about. -/
def clones : Answer → List Lexer
  | clone l => [l]
  | both first second => first.clones ++ second.clones
  | nested inner => inner.clones
  | _ => []

/-- The answers of a reading that found nothing or was refused. -/
def IsFailure : Answer → Prop
  | .optional t => t = none
  | .expected result => ∃ e, result = .error e
  | .found result => ∀ t, result ≠ .ok (some t)
  | _ => False

end Answer

namespace Lexer

/-- The answer to a question. -/
def answer (l : Lexer) : Query → Answer
  | .matchAt offset names => .matched (l.matchAt offset names)
  | .next names => .next (l.next names)
  | .expectEnd => .ended l.expectEnd
  | .substring start stop => .text (l.substring start stop)
  | .nextSpace => .offset l.nextSpace
  | .clone => .clone l
  | .both first second => .both (l.answer first) (l.answer second)
  | .nested inner => (l.nested fun deeper => some (deeper.answer inner)).elim .tooDeep .nested

/-- The answer of a step, with the lexer behind it. -/
def perform (l : Lexer) : Step → Answer × Lexer
  | .ask query => (l.answer query, l)
  | .load text => (.loaded, l.load text)
  | .loadAt text index => (.loaded, l.loadAt text index)
  | .optional names =>
    match l.optional names with
    | some (t, after) => (.optional (some t), after)
    | none => (.optional none, l)
  | .expect names =>
    match l.expect names with
    | .ok (t, after) => (.expected (.ok t), after)
    | .error e => (.expected (.error e), l)
  | .find name =>
    match l.find name with
    | .ok (some (t, after)) => (.found (.ok (some t)), after)
    | .ok none => (.found (.ok none), l)
    | .error e => (.found (.error e), l)

end Lexer

/-- Takes a step with the lexer of a number, if there is one. -/
def takeStep (lexers : List Lexer) (entry : Nat × Step) : List Lexer :=
  match lexers[entry.1]? with
  | none => lexers
  | some l =>
    let (answer, after) := l.perform entry.2
    lexers.set entry.1 after ++ answer.clones

/-- The lexers that come of steps with a lexer for a registry. -/
def Registry.session (r : Registry) (steps : List (Nat × Step)) : List Lexer :=
  steps.foldl takeStep [.ofRegistry r]

end TemplateReader
