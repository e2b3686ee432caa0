import TemplateReader.Bytes.Delimiter
import TemplateReader.Script.Imports

/-!
# Imports of a script, read by bytes

The scan of a script and the grammar of its import statements, over offsets of
the script. What a reader of the grammar gives back is what it found and where
it stopped. Some stop behind the whitespace that they skipped even if they
found nothing.
-/

namespace TemplateReader.Bytes

/-- Reads one character behind any whitespace, and tells whether it is there. -/
def eat (s : List Char) (wanted : Char) (i : Nat) : Run (Bool × Nat) := do
  let i ← skipSpaceAt s i
  return if byte? s i = some wanted then (true, i + 1) else (false, i)

/-- Reads a word behind any whitespace. -/
def word (s : List Char) (i : Nat) : Run (Option (List Char × Nat)) := do
  let start ← skipSpaceAt s i
  if (byte? s start).any isWordStart then
    let stop ← runEnd s isWordChar (byteSize s) start
    return some (← sliceAt s start stop, stop)
  else return none

/-- The word behind any whitespace, which stays to be read. -/
def peekWord (s : List Char) (i : Nat) : Run (Option (List Char)) :=
  Option.map Prod.fst <$> word s i

/-- Reads a given word behind any whitespace. -/
def keyword (s : List Char) (wanted : String) (i : Nat) : Run (Option Nat) := do
  if (← peekWord s i) = some wanted.toList then return (← word s i).map Prod.snd else return none

/-- Reads a quoted module behind any whitespace. -/
def moduleName (s : List Char) (i : Nat) : Run (Option String × Nat) := do
  let start ← skipSpaceAt s i
  if (byte? s start).any isTagQuote then
    match ← findQuote s start with
    | none => return (none, start)
    | some stop =>
      let inner ← sliceAt s (start + 1) (← minus stop 1)
      return (some (String.ofList inner), stop)
  else return (none, start)

/-- The name that is imported by an entry whose first word has been read, whether only its type is,
and where it ends. -/
def importedName (s first : List Char) (i : Nat) : Run (List Char × Bool × Nat) := do
  if first = "type".toList then
    match ← word s i with
    | none => return (first, false, i)
    | some (second, j) =>
      return if second != "as".toList then (second, true, j) else (first, false, i)
  else return (first, false, i)

/-- The name that an imported name is bound to: its own unless `as` gives another. -/
def bindingName (s imported : List Char) (i : Nat) : Run (Option (List Char × Nat)) := do
  match ← keyword s "as" i with
  | some i => word s i
  | none => return some (imported, i)

/-- Reads one entry of a braced list. -/
def specifier (s : List Char) (i : Nat) : Run (Option (Specifier × Nat)) := do
  match ← word s i with
  | none => return none
  | some (first, i) =>
    let (imported, typeOnly, i) ← importedName s first i
    match ← bindingName s imported i with
    | none => return none
    | some (binding, i) =>
      return some (⟨String.ofList imported, String.ofList binding, typeOnly⟩, i)

/-- One turn of the reading of a braced list, over the closing brace or one entry. -/
def specifierTurn (s : List Char) (i : Nat) (before : List Specifier) :
    Run (Turn (List Specifier) (Option (List Specifier × Nat))) := do
  let (closed, i) ← eat s '}' i
  if closed then return .done (some (before, i))
  else
    match ← specifier s i with
    | none => return .done none
    | some (entry, i) =>
      let (comma, i) ← eat s ',' i
      if comma then return .next i (before ++ [entry])
      else
        let i ← skipSpaceAt s i
        return if byte? s i = some '}' then .next i (before ++ [entry]) else .done none

/-- Reads a braced list behind its opening brace. -/
def specifiers (s : List Char) (i : Nat) : Run (Option (List Specifier × Nat)) :=
  loop (byteSize s) (specifierTurn s) i []

/-- Reads the whole module or a braced list behind a default name, or alone; where neither stands,
goes on otherwise. -/
def namedClause (s : List Char) (defaultName : Option String) (i : Nat)
    (otherwise : Nat → Run (Option (ImportClause × Nat))) : Run (Option (ImportClause × Nat)) := do
  let (star, i) ← eat s '*' i
  if star then
    match ← keyword s "as" i with
    | none => return none
    | some i =>
      match ← word s i with
      | none => return none
      | some (name, i) => return some (⟨defaultName, some (String.ofList name), []⟩, i)
  else
    let (brace, i) ← eat s '{' i
    if brace then
      match ← specifiers s i with
      | none => return none
      | some (specifiers, i) => return some (⟨defaultName, none, specifiers⟩, i)
    else otherwise i

/-- Reads a default name and, behind a comma, what may follow it. -/
def defaultClause (s : List Char) (i : Nat) : Run (Option (ImportClause × Nat)) := do
  match ← word s i with
  | none => return none
  | some (name, i) =>
    let (comma, i) ← eat s ',' i
    if comma then namedClause s (some (String.ofList name)) i fun _ => return none
    else return some (⟨some (String.ofList name), none, []⟩, i)

/-- Reads the names of an import statement. -/
def importClause (s : List Char) (i : Nat) : Run (Option (ImportClause × Nat)) :=
  namedClause s none i (defaultClause s)

/-- Whether a clause begins at an offset. -/
def clauseBegins (s : List Char) (i : Nat) : Run Bool := do
  if byte? s i = some '{' ∨ byte? s i = some '*' then return true
  else return (← peekWord s i).any (· != "from".toList)

/-- Reads the word `type` where it marks the statement. -/
def typeMark (s : List Char) (i : Nat) : Run (Bool × Nat) := do
  match ← keyword s "type" i with
  | none => return (false, i)
  | some ahead =>
    let ahead ← skipSpaceAt s ahead
    return if ← clauseBegins s ahead then (true, ahead) else (false, i)

/-- Takes an optional semicolon; the statement ends before it if there is none. -/
def finish (s : List Char) (statement : ImportStatement) (start i : Nat) : Run Import := do
  let (found, stop) ← eat s ';' i
  return statement.located ⟨start, if found then stop else i⟩

/-- Reads the part of an import statement from its names to its module. -/
def fromStatement (s : List Char) (start i : Nat) : Run (Option Import) := do
  let (typeOnly, i) ← typeMark s i
  match ← importClause s i with
  | none => return none
  | some (clause, i) =>
    match ← keyword s "from" i with
    | none => return none
    | some i =>
      match ← moduleName s i with
      | (none, _) => return none
      | (some source, i) => some <$> finish s ⟨typeOnly, clause, source⟩ start i

/-- Reads the import statement whose keyword begins at an offset. -/
def parseImport (s : List Char) (start : Nat) : Run (Option Import) := do
  let i := start + 6
  if (byte? s i).any opensImport then
    match ← moduleName s i with
    | (some source, i) => some <$> finish s ⟨false, ⟨none, none, []⟩, source⟩ start i
    | (none, i) => fromStatement s start i
  else return none

/-- One turn of the search for the end of a regular expression. -/
def regexTurn (bytes : List UInt8) (i : Nat) (inClass : Bool) : Run (Turn Bool (Option Nat)) :=
  if i < bytes.length then do
    let b ← byteIn bytes i
    return if b = '\\' then .next (i + 2) inClass
      else if b = '\n' then .done none
      else if b = '[' then .next (i + 1) true
      else if b = ']' then .next (i + 1) false
      else if b = '/' && !inClass then .done (some (i + 1))
      else .next (i + 1) inClass
  else return .done none

/-- The offset just past the regular expression that begins at an offset. -/
def regexEnd (bytes : List UInt8) (start : Nat) : Run (Option Nat) :=
  loop bytes.length (regexTurn bytes) (start + 1) false

/-- What the scan knows at an offset: what may stand there, and the imports found so far. -/
abbrev ScanState := ScriptState × List Import

/-- The turn at a slash: a comment, a regular expression or a division. -/
def slashTurn (s : List Char) (i : Nat) (state : ScanState) :
    Run (Turn ScanState (List Import)) := do
  if byte? s (i + 1) = some '/' then
    let rest ← sliceAt s i (byteSize s)
    return .next ((find? ['\n'] rest).elim (byteSize s) (i + ·)) state
  else if byte? s (i + 1) = some '*' then
    let rest ← sliceAt s (i + 2) (byteSize s)
    return .next ((find? ['*', '/'] rest).elim (byteSize s) (i + 2 + · + 2)) state
  else if state.1.regexAllowed then
    let stop ← regexEnd (utf8 s) i
    return .next (stop.getD (i + 1)) (.operand, state.2)
  else return .next (i + 1) (.afterMark '/', state.2)

/-- The import that a word begins, if it is the keyword of one where a statement may start. -/
def importAt (s : List Char) (state : ScriptState) (word : List Char) (start : Nat) :
    Run (Option Import) :=
  if state.statementStart && word = "import".toList then parseImport s start else return none

/-- The turn at a word, which is an import where a statement may start and one is written out. -/
def wordTurn (s : List Char) (base i : Nat) (state : ScanState) :
    Run (Turn ScanState (List Import)) := do
  let stop ← runEnd s isWordChar (byteSize s) i
  let word ← sliceAt s i stop
  match ← importAt s state.1 word i with
  | some found =>
    return .next found.span.stop
      (.fresh, state.2 ++ [{ found with span := found.span.shift base }])
  | none => return .next stop (.afterWord word, state.2)

/-- The turn at a byte. -/
def byteTurn (s : List Char) (base i : Nat) (b : Char) (state : ScanState) :
    Run (Turn ScanState (List Import)) := do
  if isScriptQuote b then
    let stop ← findQuote s i
    return .next (stop.getD (i + 1)) (.operand, state.2)
  else if b = '/' then slashTurn s i state
  else if b = '\n' || b = ';' || b = '{' || b = '}' then return .next (i + 1) (.fresh, state.2)
  else if isSpace b then return .next (i + 1) state
  else if isWordStart b then wordTurn s base i state
  else if b.isDigit then
    let stop ← runEnd s isWordChar (byteSize s) i
    return .next stop (.operand, state.2)
  else return .next (i + 1) (.afterMark b, state.2)

/-- One turn of the scan of a script whose offsets count from `base`. -/
def scanTurn (s : List Char) (base i : Nat) (state : ScanState) :
    Run (Turn ScanState (List Import)) :=
  if i < byteSize s then do
    let b ← byteAt s i
    byteTurn s base i b state
  else return .done state.2

/-- The imports of a script whose offsets count from `base`. -/
def scan (s : List Char) (base : Nat) : Run (List Import) :=
  loop (byteSize s) (scanTurn s base) 0 (.fresh, [])

end TemplateReader.Bytes
