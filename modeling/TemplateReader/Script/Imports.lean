import TemplateReader.Delimiter.Brace
import TemplateReader.Delimiter.Pattern
import TemplateReader.Script.Statement

/-!
# Imports of a script

A script is scanned once for the static imports at the start of its
statements. Strings, comments and regular expressions are passed over. Whether
a slash divides or opens a regular expression is told by what stands before
it, as far as one token allows.
-/

namespace TemplateReader

/-- What may stand at a place of a script, given what stands before it. -/
structure ScriptState where
  /-- Whether a statement may start here. -/
  statementStart : Bool
  /-- Whether a slash here would open a regular expression. -/
  regexAllowed : Bool
deriving DecidableEq, Repr

namespace ScriptState

/-- At the start of a statement. -/
def fresh : ScriptState := ⟨true, true⟩

/-- Behind an operand, where a slash divides. -/
def operand : ScriptState := ⟨false, false⟩

/-- The words behind which a slash opens a regular expression. -/
def operatorWords : List String :=
  ["return", "typeof", "instanceof", "in", "of", "new", "delete", "void", "throw", "case", "do",
    "else", "yield", "await"]

/-- Behind a word. -/
def afterWord (word : List Char) : ScriptState :=
  ⟨false, operatorWords.contains (String.ofList word)⟩

/-- Behind a character of punctuation: a closing bracket ends an operand, anything else awaits one. -/
def afterMark (c : Char) : ScriptState :=
  ⟨false, !(c = ')' || c = ']')⟩

end ScriptState

/-- What follows a regular expression whose opening slash stands before the text; none when a line
ends first. A class in brackets may hold slashes, and a backslash escapes the next character. -/
def afterRegex? (inClass : Bool) : (text : List Char) → Option (List Char)
  | [] => none
  | ['\\'] => none
  | '\\' :: _ :: text => afterRegex? inClass text
  | c :: text =>
    if c = '\n' then none
    else if c = '[' then afterRegex? true text
    else if c = ']' then afterRegex? false text
    else if c = '/' && !inClass then some text
    else afterRegex? inClass text

/-- One step of the scan. -/
structure ScriptStep where
  /-- The import that was read, if one was. -/
  found : Option Import
  /-- What may stand behind the step. -/
  state : ScriptState
  /-- The place behind the step. -/
  after : Cursor

/-- The import of a statement that stands at a span. -/
def ImportStatement.located (s : ImportStatement) (span : Span) : Import where
  typeOnly := s.typeOnly
  defaultName := s.clause.defaultName
  moduleName := s.clause.moduleName
  specifiers := s.clause.specifiers
  source := s.source
  span := span

/-- The step over a slash, with `text` behind it: a comment, a regular expression or a division. -/
def slashStep (s : ScriptState) (c : Cursor) (text : List Char) : ScriptStep :=
  match text with
  | '/' :: _ => ⟨none, s, c.skipWhile (· != '\n')⟩
  | '*' :: comment =>
    ⟨none, s, c.seek (((splitPattern ['*', '/'] comment).map Prod.snd).getD [])⟩
  | _ =>
    let next := c.advance ['/'] text
    if s.regexAllowed then ⟨none, .operand, next.seek ((afterRegex? false text).getD text)⟩
    else ⟨none, .afterMark '/', next⟩

/-- The step over a word, which is an import where a statement may start and one is written out. -/
def wordStep (s : ScriptState) (c : Cursor) : ScriptStep :=
  let word := c.rest.takeWhile isWordChar
  let next := c.skipWhile isWordChar
  if s.statementStart && word = "import".toList then
    match importStatement? next.rest with
    | some (statement, rest) =>
      let after := next.seek rest
      ⟨some (statement.located (c.spanTo after)), .fresh, after⟩
    | none => ⟨none, .afterWord word, next⟩
  else ⟨none, .afterWord word, next⟩

/-- The step from a cursor whose first character is `ch`, with `text` behind it. -/
def scriptStep (s : ScriptState) (c : Cursor) (ch : Char) (text : List Char) : ScriptStep :=
  let next := c.advance [ch] text
  if isScriptQuote ch then
    ⟨none, .operand, next.seek (((splitQuote ch text).map Prod.snd).getD text)⟩
  else if ch = '/' then slashStep s c text
  else if ch = '\n' || ch = ';' || ch = '{' || ch = '}' then ⟨none, .fresh, next⟩
  else if isSpace ch then ⟨none, s, next⟩
  else if isWordStart ch then wordStep s c
  else if ch.isDigit then ⟨none, .operand, c.skipWhile isWordChar⟩
  else ⟨none, .afterMark ch, next⟩

/-- What follows a regular expression is a final part of the text. -/
theorem length_le_of_afterRegex? {inClass : Bool} {text rest : List Char}
    (h : afterRegex? inClass text = some rest) : rest.length ≤ text.length := by
  fun_induction afterRegex? inClass text <;> simp_all <;> omega

/-- A run of characters that begins with a member of its class takes up text. -/
theorem length_skipWhile_lt {p : Char → Bool} {c : Cursor} {ch : Char} {text : List Char}
    (hc : c.rest = ch :: text) (hch : p ch = true) :
    (c.skipWhile p).rest.length < c.rest.length := by
  simp only [Cursor.skipWhile, Cursor.advance, hc, List.dropWhile_cons, hch, if_true,
    List.length_cons]
  exact Nat.lt_succ_of_le (List.dropWhile_suffix _).length_le

/-- The step over a slash takes up text. -/
theorem length_slashStep_lt {s : ScriptState} {c : Cursor} {text : List Char}
    (hc : c.rest = '/' :: text) : (slashStep s c text).after.rest.length < c.rest.length := by
  unfold slashStep
  split
  · exact length_skipWhile_lt hc rfl
  · next comment =>
    simp only [Cursor.seek, hc, List.length_cons]
    cases h : splitPattern ['*', '/'] comment with
    | none => simp
    | some p =>
      obtain ⟨before, rest⟩ := p
      have := congrArg List.length (eq_append_of_splitPattern h)
      simp only [List.length_append, List.length_cons] at this
      simp only [Option.map_some, Option.getD_some]
      omega
  · simp only
    split
    · simp only [Cursor.seek, hc, List.length_cons]
      cases h : afterRegex? false text with
      | none => simp
      | some rest => simpa using Nat.lt_succ_of_le (length_le_of_afterRegex? h)
    · simp [Cursor.advance, hc]

/-- The step over a word takes up text. -/
theorem length_wordStep_lt {s : ScriptState} {c : Cursor} {ch : Char} {text : List Char}
    (hc : c.rest = ch :: text) (hch : isWordStart ch = true) :
    (wordStep s c).after.rest.length < c.rest.length := by
  have hd := length_skipWhile_lt hc (isWordChar_of_isWordStart hch)
  unfold wordStep
  simp only
  split
  · split
    · next statement rest hs => exact Nat.lt_trans (length_lt_of_importStatement? hs) hd
    · exact hd
  · exact hd

/-- Every step takes up text. -/
theorem length_scriptStep_lt {s : ScriptState} {c : Cursor} {ch : Char} {text : List Char}
    (hc : c.rest = ch :: text) : (scriptStep s c ch text).after.rest.length < c.rest.length := by
  have hlt : text.length < c.rest.length := by simp [hc]
  unfold scriptStep
  simp only
  split
  · cases h : splitQuote ch text with
    | none => simpa [Cursor.seek] using hlt
    | some p =>
      obtain ⟨inner, rest⟩ := p
      have := length_lt_of_splitQuote h
      simp only [Cursor.seek, Option.map_some, Option.getD_some]
      omega
  · split
    · next h => exact length_slashStep_lt (h ▸ hc)
    · split
      · exact hlt
      · split
        · exact hlt
        · split
          · next hw => exact length_wordStep_lt hc hw
          · split
            · next hd => exact length_skipWhile_lt hc (by simp [isWordChar, Char.isAlphanum, hd])
            · exact hlt

/-- The imports from a cursor on, in source order. -/
def importsFrom (s : ScriptState) (c : Cursor) : List Import :=
  match h : c.rest with
  | [] => []
  | ch :: text =>
    let step := scriptStep s c ch text
    have := length_scriptStep_lt (s := s) h
    step.found.toList ++ importsFrom step.state step.after
termination_by c.rest.length

/-- One step of the scan for imports: what the first step finds, and then the others. -/
theorem importsFrom_eq (s : ScriptState) (c : Cursor) :
    importsFrom s c =
      match c.rest with
      | [] => []
      | ch :: text =>
        (scriptStep s c ch text).found.toList ++
          importsFrom (scriptStep s c ch text).state (scriptStep s c ch text).after := by
  rw [importsFrom]
  split
  · next h => simp only [h]
  · next h => simp only [h]

/-- The static imports of a script that begins at an offset. -/
def scriptImports (start : Nat) (script : List Char) : List Import :=
  importsFrom .fresh ⟨start, script⟩

end TemplateReader
