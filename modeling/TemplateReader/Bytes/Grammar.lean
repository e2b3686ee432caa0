import TemplateReader.Bytes.Delimiter
import TemplateReader.Grammar.Lexer

/-!
# Data literals over bytes

The rules of data literals at the offsets of a text. A rule may be tried at any
number: where no character begins it matches nothing. Whatever it cuts out of
the text has to lie between boundaries. Arrays and objects ask for their values
one level deeper, as long as levels are left.
-/

namespace TemplateReader.Bytes

/-- Recognises one construct of a text at an offset. The values of a construct with members are
matched by a run of their own, unless no level of nesting is left for them. -/
abbrev ByteRule := (s : List Char) → (value : Option (Nat → Run (Option Token))) →
  (start : Nat) → Run (Option Token)

/-- Whether a word stands at an offset and does not go on. -/
def wordStandsAt (s : List Char) (start : Nat) (word : List Char) : Bool :=
  match slice? s start (byteSize s) with
  | none => false
  | some rest => word.isPrefixOf rest && !(byte? s (start + byteSize word)).any isWordChar

/-- The literal between two offsets. -/
def scalarAt (s : List Char) (start stop : Nat) (value : Scalar) (escape : Bool) : Run Token := do
  let raw ← sliceAt s start stop
  return .literal ⟨value, String.ofList raw, escape, ⟨start, stop⟩⟩

/-- The number that four hexadecimal digits write at an offset. -/
def hexUnitAt (text : List Char) (i : Nat) : Option Nat := do
  let digits ← slice? text i (i + 4)
  if (utf8 digits).all fun b => (hexValue? (Char.ofNat b.toNat)).isSome then hexUnit? digits
  else none

/-- The low surrogate escaped at an offset. -/
def lowSurrogateAt (text : List Char) (i : Nat) : Option Nat :=
  if slice? text i (i + 2) = some ['\\', 'u'] then
    (hexUnitAt text (i + 2)).filter fun unit => 0xdc00 ≤ unit && unit < 0xe000
  else none

/-- Decodes the digits of a `u` escape at an offset, with the number of bytes they take. -/
def unicodeEscapeAt (text : List Char) (i : Nat) : Option (Char × Nat) := do
  let unit ← hexUnitAt text i
  match if 0xd800 ≤ unit && unit < 0xdc00 then lowSurrogateAt text (i + 4) else none with
  | some low =>
    let combined := 0x10000 + (unit - 0xd800) * 0x400 + (low - 0xdc00)
    if combined.isValidChar then some (charOfUnit combined, 10) else none
  | none => some (charOfUnit unit, 4)

/-- Decodes the escape of a character, the digits of which would begin at an offset, with the number
of characters that are skipped behind it. -/
def escapeAt (text : List Char) (i : Nat) (escaped : Char) : Run (Char × Nat) :=
  match escaped with
  | 'n' => return ('\n', 0)
  | 't' => return ('\t', 0)
  | 'r' => return ('\r', 0)
  | '0' => return ('\x00', 0)
  | 'u' =>
    match unicodeEscapeAt text i with
    | some (decoded, used) => do
      let last ← minus used 1
      return (decoded, last + 1)
    | none => return ('u', 0)
  | c => return (c, 0)

/-- Reads the characters of a string that begins a text, from an offset behind its opening quote to
the closing one, and the offset just past that. -/
def stringBody (text : List Char) (quote : Char) (i : Nat) (chars value : List Char)
    (escape : Bool) : Run (Option (List Char × Bool × Nat)) :=
  match chars with
  | [] => return none
  | c :: chars =>
    if c = quote then return some (value, escape, i + 1)
    else if c = '\\' then
      match chars with
      | [] => return none
      | escaped :: chars => do
        let (decoded, more) ← escapeAt text (i + 2) escaped
        stringBody text quote (i + 1 + escaped.utf8Size + byteSize (chars.take more))
          (chars.drop more) (value ++ [decoded]) true
    else stringBody text quote (i + c.utf8Size) chars (value ++ [c]) escape
termination_by chars.length
decreasing_by all_goals (simp only [List.length_cons, List.length_drop]; omega)

/-- Number of bytes of the digits at an offset and a minus sign in front; none without digits. -/
def digitsSize (s : List Char) (start : Nat) : Run Nat := do
  let first := if byte? s start = some '-' then start + 1 else start
  let stop ← runEnd s Char.isDigit (byteSize s) first
  if stop = first then return 0 else minus stop start

/-- The number that digits with a point write, unless it is too large for the format. -/
def decimal? (text : List Char) : Option Binary64 :=
  let fraction := (text.dropWhile (· ≠ '.')).drop 1
  let (negative, significand) := signedDigits (text.takeWhile (· ≠ '.') ++ fraction)
  Binary64.ofDecimal negative significand (-(fraction.length : Int))

/-- The name that begins at an offset. -/
def identifierAt (s : List Char) (start : Nat) : Run (Option Identifier) :=
  if (byte? s start).any isWordStart then do
    let stop ← runEnd s isWordChar (byteSize s) (start + 1)
    let name ← sliceAt s start stop
    return some ⟨String.ofList name, ⟨start, stop⟩⟩
  else return none

namespace ByteRule

/-- The word `null`. -/
def null : ByteRule := fun s _ start =>
  if wordStandsAt s start "null".toList then some <$> scalarAt s start (start + 4) .null false
  else return none

/-- The words `true` and `false`. -/
def boolean : ByteRule := fun s _ start =>
  if wordStandsAt s start "true".toList then
    some <$> scalarAt s start (start + 4) (.boolean true) false
  else if wordStandsAt s start "false".toList then
    some <$> scalarAt s start (start + 5) (.boolean false) false
  else return none

/-- A text in double or single quotes. -/
def string : ByteRule := fun s _ start =>
  match slice? s start (byteSize s) with
  | some (quote :: chars) =>
    if quote = '"' || quote = '\'' then do
      match ← stringBody (quote :: chars) quote quote.utf8Size chars [] false with
      | none => return none
      | some (value, escape, size) =>
        some <$> scalarAt s start (start + size) (.string (String.ofList value)) escape
    else return none
  | _ => return none

/-- Digits, a point and digits, unless the number is too large for the format. -/
def float : ByteRule := fun s _ start => do
  let whole ← digitsSize s start
  if whole = 0 ∨ byte? s (start + whole) ≠ some '.' then return none
  else
    let fraction := start + whole + 1
    let stop ← runEnd s Char.isDigit (byteSize s) fraction
    if stop = fraction then return none
    else
      let text ← sliceAt s start stop
      match decimal? text with
      | none => return none
      | some value => some <$> scalarAt s start stop (.float value) false

/-- Digits alone, unless the number is too large for any format. -/
def integer : ByteRule := fun s _ start => do
  let size ← digitsSize s start
  if size = 0 then return none
  else
    let text ← sliceAt s start (start + size)
    match wholeNumber? (signedDigits text).1 (signedDigits text).2 with
    | none => return none
    | some value => some <$> scalarAt s start (start + size) value false

/-- A name. -/
def identifier : ByteRule := fun s _ start => do
  return (← identifierAt s start).map Token.identifier

/-- An expression in balanced braces, kept as text. -/
def program : ByteRule := fun s _ start => do
  match ← findProgram s start with
  | none => return none
  | some stop =>
    let inner ← sliceAt s (start + 1) (← minus stop 1)
    return some (.program ⟨String.ofList (trim inner), ⟨start, stop⟩⟩)

end ByteRule

/-- One turn of the reading of the members of a container. A member is read at an offset, with the
offset behind it. -/
def membersTurn {α : Type} (s : List Char) (closing : Char)
    (member : Nat → Run (Option (α × Nat))) (i : Nat) (before : List α) :
    Run (Turn (List α) (Option (List α × Nat))) := do
  if byte? s i = some closing then return .done (some (before, i + 1))
  else
    match ← member i with
    | none => return .done none
    | some (a, stop) =>
      let after ← skipSpaceAt s stop
      if byte? s after = some ',' then
        let next ← skipSpaceAt s (after + 1)
        return .next next (before ++ [a])
      else if byte? s after = some closing then return .next after (before ++ [a])
      else return .done none

/-- The members of the container that begins at an offset, with the offset behind it. -/
def membersAt {α : Type} (s : List Char) (closing : Char) (member : Nat → Run (Option (α × Nat)))
    (start : Nat) : Run (Option (List α × Nat)) := do
  let first ← skipSpaceAt s (start + 1)
  loop (byteSize s) (membersTurn s closing member) first []

/-- The value that begins at an offset, with the offset behind it. -/
def elementAt (value : Nat → Run (Option Token)) (i : Nat) : Run (Option (Token × Nat)) := do
  return (← value i).map fun t => (t, t.span.stop)

/-- The key that begins at an offset: a name, or a string that stands for one. -/
def keyAt (s : List Char) (i : Nat) : Run (Option Identifier) := do
  match ← identifierAt s i with
  | some key => return some key
  | none =>
    match ← ByteRule.string s none i with
    | some (.literal ⟨.string name, _, _, span⟩) => return some ⟨name, span⟩
    | _ => return none

/-- The property that begins at an offset, with the offset behind it. -/
def propertyAt (s : List Char) (value : Nat → Run (Option Token)) (i : Nat) :
    Run (Option (Property × Nat)) := do
  match ← keyAt s i with
  | none => return none
  | some key =>
    let colon ← skipSpaceAt s key.span.stop
    if byte? s colon = some ':' then
      let start ← skipSpaceAt s (colon + 1)
      return (← elementAt value start).map fun (t, stop) => (.plain key t, stop)
    else return none

namespace ByteRule

/-- Properties in braces. -/
def object : ByteRule := fun s value start =>
  if byte? s start = some '{' then
    match value with
    | none => return none
    | some value => do
      return (← membersAt s '}' (propertyAt s value) start).map fun (properties, stop) =>
        .object ⟨properties, ⟨start, stop⟩⟩
  else return none

/-- Values in brackets. -/
def array : ByteRule := fun s value start =>
  if byte? s start = some '[' then
    match value with
    | none => return none
    | some value => do
      return (← membersAt s ']' (elementAt value) start).map fun (elements, stop) =>
        .array elements ⟨start, stop⟩
  else return none

/-- The built-in rules by their names, in the order in which they are tried. -/
def builtIn : List (String × ByteRule) :=
  [("Null", null), ("Boolean", boolean), ("String", string), ("Float", float),
    ("Integer", integer), ("Identifier", identifier), ("ObjectExpression", object),
    ("ArrayExpression", array), ("ProgramExpression", program)]

end ByteRule

/-- The rules of some names, unless one of the names has none. -/
def resolve : List String → Except LexError (List ByteRule)
  | [] => .ok []
  | name :: names =>
    match ByteRule.builtIn.find? fun entry => entry.1 = name with
    | none => .error (.unknownDefinition name)
    | some entry => (resolve names).map (entry.2 :: ·)

/-- The first match among some rules at an offset that is not empty. -/
def firstMatch (s : List Char) (value : Option (Nat → Run (Option Token))) (i : Nat) :
    List ByteRule → Run (Option Token)
  | [] => return none
  | rule :: rules => do
    match (← rule s value i).filter fun t => !t.isEmpty with
    | some t => return some t
    | none => firstMatch s value i rules

/-- Matches the first of some names at an offset, with some levels of nesting left. All names are
looked up first. -/
def matchNames (s : List Char) (levels offset : Nat) (names : List String) :
    Run (Except LexError (Option Token)) :=
  match resolve names with
  | .error e => return .error e
  | .ok rules => do
    let value := match levels with
      | 0 => none
      | levels + 1 => some fun i => do return (← matchNames s levels i dataNames).toOption.join
    return .ok (← firstMatch s value offset rules)
termination_by structural levels

/-- Matches the first of some names, or of all in their order, at an offset of a text, some levels
deep. -/
def matchAt (s : List Char) (level offset : Nat) (names : Option (List String)) :
    Run (Except LexError (Option Token)) :=
  matchNames s (Lexer.nestingLimit - level) offset (names.getD (ByteRule.builtIn.map Prod.fst))

end TemplateReader.Bytes
