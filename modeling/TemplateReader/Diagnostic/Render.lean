import TemplateReader.Diagnostic.Basic
import TemplateReader.Diagnostic.Highlight
import TemplateReader.Number.Notation
import TemplateReader.Text.Position

/-!
# Rendered diagnostics

A rendered diagnostic names the place, states what is wrong and shows the line
at fault with a row of carets under the text it is about. Colours are strings
of a palette put between these parts; the plain palette has none.
-/

namespace TemplateReader

/-- The lines of a text, without their line feeds and a carriage return right before one. -/
def linesOf (text : List Char) : List (List Char) :=
  match h : splitPattern ['\n'] text with
  | none => if text.isEmpty then [] else [text]
  | some (line, rest) =>
    have : rest.length < text.length := length_lt_of_splitPattern (List.cons_ne_nil _ _) h
    (if line.getLast? = some '\r' then line.dropLast else line) :: linesOf rest
termination_by text.length

/-- The colours of a rendered diagnostic. -/
structure Palette where
  /-- Begins what is wrong. -/
  fault : List Char
  /-- Begins what only frames the rest. -/
  dim : List Char
  /-- Begins the advice. -/
  advice : List Char
  /-- Begins a tag mentioned in a sentence. -/
  mention : List Char
  /-- Ends any of these. -/
  reset : List Char
deriving DecidableEq, Repr

namespace Palette

/-- No colours. -/
def plain : Palette := ⟨[], [], [], [], []⟩

/-- The colours of a terminal. -/
def terminal : Palette where
  fault := "\x1b[1;31m".toList
  dim := "\x1b[2m".toList
  advice := "\x1b[1;38;5;73m".toList
  mention := "\x1b[38;5;180m".toList
  reset := "\x1b[0m".toList

/-- A sentence with the tags it mentions in their colour. -/
def prose (p : Palette) (text : List Char) : List Char :=
  highlightTags p.mention p.reset text

end Palette

/-- A number or nothing, right-aligned in a gutter. -/
def gutterCell (width : Nat) (text : List Char) : List Char :=
  List.replicate (width - text.length) ' ' ++ text

/-- A line of a rendered source extract: the gutter, its bar, and what stands right of it. -/
def extractLine (p : Palette) (width : Nat) (number body : List Char) : List Char :=
  p.dim ++ gutterCell width number ++ [' ', '|'] ++ p.reset ++ body ++ ['\n']

namespace Diagnostic

/-- Width of the gutter: that of the line number at fault, and at least two. -/
def gutterWidth (place : Position) : Nat :=
  max (digitsOf (place.line + 1)).length 2

/-- Number of carets: the characters at fault, up to the end of their first line and at least one. -/
def caretCount (place stop : Position) (line : List Char) : Nat :=
  if stop.line = place.line then max (stop.column - place.column) 1
  else max (line.length - place.column) 1

/-- The place by file, line and column, the latter two counted from one. -/
def renderHeader (p : Palette) (file : String) (place : Position) : List Char :=
  [' '] ++ p.dim ++ "file:".toList ++ p.reset ++ [' '] ++ file.toList ++
    ':' :: digitsOf (place.line + 1) ++ ':' :: digitsOf (place.column + 1) ++ ['\n']

/-- What is wrong. -/
def renderMessage (p : Palette) (message : String) : List Char :=
  p.fault ++ "error:".toList ++ p.reset ++ [' '] ++ p.prose message.toList ++ ['\n']

/-- The line at fault between an empty gutter and its carets. -/
def renderExtract (p : Palette) (width : Nat) (place stop : Position) (line : List Char) :
    List Char :=
  extractLine p width [] [] ++
    extractLine p width (digitsOf (place.line + 1)) (' ' :: line) ++
    extractLine p width []
      (' ' :: List.replicate place.column ' ' ++ p.fault ++
        List.replicate (caretCount place stop line) '^' ++ p.reset)

/-- The line of the related place with a caret under it and its label. -/
def renderRelated (p : Palette) (width : Nat) (place : Position) (label line : List Char) :
    List Char :=
  extractLine p width (digitsOf (place.line + 1)) (' ' :: line) ++
    extractLine p width []
      (' ' :: List.replicate place.column ' ' ++ p.dim ++ ['^', ' '] ++ label ++ p.reset)

/-- The lines of advice, those after the first aligned with it. -/
def renderHelp (p : Palette) (help : String) : List Char :=
  match linesOf help.toList with
  | [] => []
  | first :: others =>
    [' '] ++ p.advice ++ "help:".toList ++ p.reset ++ [' '] ++ p.prose first ++ ['\n'] ++
      others.flatMap fun line => List.replicate 7 ' ' ++ p.prose line ++ ['\n']

/-- A diagnostic with the source lines it is about, in the colours of a palette. -/
def renderWith (p : Palette) (d : Diagnostic) (source : List Char) (file : String) : List Char :=
  let place := Position.ofOffset source d.span.start
  let stop := Position.ofOffset source (max d.span.stop d.span.start)
  let width := gutterWidth place
  let lines := linesOf source
  let extract :=
    match lines[place.line]? with
    | some line => renderExtract p width place stop line
    | none => []
  let related :=
    match d.related with
    | some ⟨offset, label⟩ =>
      let there := Position.ofOffset source offset
      match lines[there.line]? with
      | some line => renderRelated p width there (label.getD "opened here").toList line
      | none => []
    | none => []
  let help :=
    match d.help with
    | some help => '\n' :: renderHelp p help
    | none => []
  '\n' :: renderHeader p file place ++ renderMessage p d.message ++ extract ++ related ++ help ++
    ['\n']

/-- A diagnostic without colours. -/
def render (d : Diagnostic) (source file : String) : String :=
  String.ofList (d.renderWith .plain source.toList file)

/-- A diagnostic in the colours of a terminal. -/
def renderColour (d : Diagnostic) (source file : String) : String :=
  String.ofList (d.renderWith .terminal source.toList file)

end Diagnostic

end TemplateReader
