import TemplateReader.Data.Value
import TemplateReader.Grammar.Scalar

/-!
# Reading written values

Reads the JSON text of an object, as a table of references is kept in a file.
An error names what was expected and the place by line and by byte within the
line. Numbers with a fraction or an exponent, and whole numbers beyond 64
bits, become floats by rounding their leading digits and then scaling by a
rounded power of ten.
-/

namespace TemplateReader

/-- Why a text is not the written form of an object. -/
inductive ReadFault where
  /-- The text ends where a value should stand. -/
  | endInValue
  /-- The text ends inside a list. -/
  | endInList
  /-- The text ends inside an object. -/
  | endInObject
  /-- The text ends inside a string. -/
  | endInString
  /-- No value begins here. -/
  | expectedValue
  /-- A word that is none of the reserved ones. -/
  | expectedWord
  /-- A key without its colon. -/
  | expectedColon
  /-- A list element followed by neither a comma nor the end. -/
  | expectedListEnd
  /-- A field followed by neither a comma nor the end. -/
  | expectedObjectEnd
  /-- A comma with nothing behind it. -/
  | trailingComma
  /-- A key that is not a string. -/
  | keyNotString
  /-- Text behind the value. -/
  | trailingText
  /-- An escape without a meaning. -/
  | invalidEscape
  /-- A control character inside a string. -/
  | controlCharacter
  /-- A surrogate in an escape where none may stand. -/
  | loneSurrogate
  /-- A high surrogate in an escape without a second escape. -/
  | unfinishedSurrogate
  /-- A number that is not written correctly. -/
  | invalidNumber
  /-- A number too large for the format. -/
  | numberTooLarge
  /-- Values nested too deeply. -/
  | nestingTooDeep
  /-- A value that is not an object, as described. -/
  | notAnObject (found : String)
deriving DecidableEq, Repr

namespace ReadFault

/-- The wording of a fault. -/
def message : ReadFault → String
  | endInValue => "EOF while parsing a value"
  | endInList => "EOF while parsing a list"
  | endInObject => "EOF while parsing an object"
  | endInString => "EOF while parsing a string"
  | expectedValue => "expected value"
  | expectedWord => "expected ident"
  | expectedColon => "expected \x60:\x60"
  | expectedListEnd => "expected \x60,\x60 or \x60]\x60"
  | expectedObjectEnd => "expected \x60,\x60 or \x60\x7d\x60"
  | trailingComma => "trailing comma"
  | keyNotString => "key must be a string"
  | trailingText => "trailing characters"
  | invalidEscape => "invalid escape"
  | controlCharacter => "control character (\\u0000-\\u001F) found while parsing a string"
  | loneSurrogate => "lone leading surrogate in hex escape"
  | unfinishedSurrogate => "unexpected end of hex escape"
  | invalidNumber => "invalid number"
  | numberTooLarge => "number out of range"
  | nestingTooDeep => "recursion limit exceeded"
  | notAnObject found => "invalid type: " ++ found ++ ", expected a map"

end ReadFault

/-- A fault with the number of bytes before the place it is reported at. -/
structure ReadError where
  /-- What is wrong. -/
  fault : ReadFault
  /-- Where it is reported. -/
  offset : Nat
deriving DecidableEq, Repr

namespace ReadError

/-- The error at a cursor itself: at the end of what has been read. -/
def here (c : Cursor) (fault : ReadFault) : ReadError := ⟨fault, c.offset⟩

/-- The error at the next byte behind a cursor, if there is one. -/
def ahead (c : Cursor) (fault : ReadFault) : ReadError :=
  ⟨fault, if c.rest.isEmpty then c.offset else c.offset + 1⟩

/-- Number of lines up to an offset and of bytes since the last line feed before it. -/
def place (line column : Nat) : (text : List Char) → (offset : Nat) → Nat × Nat
  | [], _ => (line, column)
  | _ :: _, 0 => (line, column)
  | c :: text, offset + 1 =>
    if c = '\n' then place (line + 1) 0 text offset
    else if c.utf8Size ≤ offset + 1 then
      place line (column + c.utf8Size) text (offset + 1 - c.utf8Size)
    else (line, column + offset + 1)

/-- The wording of an error in a text. -/
def message (e : ReadError) (text : List Char) : String :=
  let (line, column) := place 1 0 text e.offset
  e.fault.message ++ " at line " ++ String.ofList (digitsOf line) ++ " column " ++
    String.ofList (digitsOf column)

end ReadError

/-- Whitespace between the parts of a written value. -/
def isWrittenSpace (c : Char) : Bool :=
  c = ' ' || c = '\t' || c = '\n' || c = '\r'

/-- The cursor behind any whitespace. -/
def skipWritten (c : Cursor) : Cursor := c.skipWhile isWrittenSpace

/-- Reads the rest of a reserved word. -/
def readReserved (value : Value) : (word : List Char) → Cursor → Except ReadError (Value × Cursor)
  | [], c => .ok (value, c)
  | w :: word, c =>
    match c.rest with
    | [] => .error (.here c .endInValue)
    | ch :: text =>
      if ch = w then readReserved value word (c.advance [ch] text)
      else .error ⟨.expectedWord, c.offset + 1⟩

/-- Reads four hexadecimal digits. -/
def readHex (c : Cursor) : Except ReadError (Nat × Cursor) :=
  match c.rest with
  | a :: b :: d :: e :: text =>
    let next := c.advance [a, b, d, e] text
    match hexUnit? [a, b, d, e] with
    | some unit => .ok (unit, next)
    | none =>
      -- four bytes are taken, which need not be four characters
      .error ⟨.invalidEscape, c.offset + 4⟩
  | rest =>
    if byteSize rest < 4 then .error ⟨.endInString, c.offset + byteSize rest⟩
    else .error ⟨.invalidEscape, c.offset + 4⟩

/-- Reads one given character of a surrogate pair's second escape. -/
def readPairMark (mark : Char) (c : Cursor) : Except ReadError Cursor :=
  match c.rest with
  | [] => .error (.here c .endInString)
  | ch :: text =>
    if ch = mark then .ok (c.advance [ch] text)
    else .error ⟨.unfinishedSurrogate, c.offset + 1⟩

/-- Reads the digits of a `u` escape, and the second escape of a pair. -/
def readUnicode (c : Cursor) : Except ReadError (Char × Cursor) := do
  let (unit, c) ← readHex c
  if 0xdc00 ≤ unit && unit < 0xe000 then .error (.here c .loneSurrogate)
  else if 0xd800 ≤ unit && unit < 0xdc00 then
    let c ← readPairMark '\\' c
    let c ← readPairMark 'u' c
    let (low, c) ← readHex c
    if 0xdc00 ≤ low && low < 0xe000 then
      .ok (charOfUnit (0x10000 + (unit - 0xd800) * 0x400 + (low - 0xdc00)), c)
    else .error (.here c .loneSurrogate)
  else .ok (charOfUnit unit, c)

/-- The characters that an escape of one character stands for. -/
def plainEscape? : Char → Option Char
  | '"' => some '"'
  | '\\' => some '\\'
  | '/' => some '/'
  | 'b' => some '\x08'
  | 'f' => some '\x0c'
  | 'n' => some '\n'
  | 'r' => some '\r'
  | 't' => some '\t'
  | _ => none

/-- Reads a string behind its opening quote. -/
def readQuoted : (fuel : Nat) → Cursor → Except ReadError (List Char × Cursor)
  | 0, c => .error (.here c .endInString)
  | fuel + 1, c =>
    match c.rest with
    | [] => .error (.here c .endInString)
    | ch :: text =>
      let next := c.advance [ch] text
      if ch = '"' then .ok ([], next)
      else if ch = '\\' then
        match text with
        | [] => .error (.here next .endInString)
        | escaped :: text => do
          let behind := next.advance [escaped] text
          let (decoded, after) ←
            if escaped = 'u' then readUnicode behind
            else
              match plainEscape? escaped with
              | some decoded => .ok (decoded, behind)
              | none => .error ⟨.invalidEscape, next.offset + 1⟩
          let (others, last) ← readQuoted fuel after
          return (decoded :: others, last)
      else if ch.toNat < 0x20 then .error (.here next .controlCharacter)
      else do
        let (others, last) ← readQuoted fuel next
        return (ch :: others, last)

/-- The rounded power of ten of an exponent within the format. -/
def powerOfTen (exponent : Nat) : Binary64 :=
  (Binary64.ofDecimal false 1 exponent).getD ⟨false, 0⟩

/-- The largest exponent of a power of ten within the format. -/
def largestPower : Nat := 308

/-- Divides a number by the largest power of ten a number of times, or until it is zero. -/
def shrink : (times : Nat) → Binary64 → Option Binary64
  | 0, x => some x
  | times + 1, x => if x.isZero then some x else (x.div (powerOfTen largestPower)).bind (shrink times)

/-- Scales a number by a power of ten, rounding at every step; none when it grows too large. -/
def scaleByTen (x : Binary64) (exponent : Int) : Option Binary64 :=
  let size := exponent.natAbs
  if 0 ≤ exponent then
    if size ≤ largestPower then x.mul (powerOfTen size) else if x.isZero then some x else none
  else
    let times := (size - 1) / largestPower
    (shrink times x).bind fun x => x.div (powerOfTen (size - times * largestPower))

/-- The largest significand that is kept. -/
def significandLimit : Nat := Nat.pow 2 64

/-- The exponents that are told apart. -/
def exponentLimit : Nat := Nat.pow 2 31

/-- Appends decimal digits to a number while it stays below a limit; the digits left over begin
with the one that would reach it. -/
def appendDigits (limit number : Nat) : List Char → Nat × List Char
  | [] => (number, [])
  | d :: digits =>
    let longer := 10 * number + (d.toNat - '0'.toNat)
    if limit ≤ longer then (number, d :: digits) else appendDigits limit longer digits

/-- The float of a significand and an exponent. -/
def scaledFloat (c : Cursor) (negative : Bool) (significand : Nat) (exponent : Int) :
    Except ReadError (Value × Cursor) :=
  match (Binary64.ofDecimal false significand 0).bind fun x => scaleByTen x exponent with
  | some x => .ok (.float ⟨negative, x.units⟩, c)
  | none => .error (.here c .numberTooLarge)

/-- Reads the exponent of a number behind its `e`. -/
def readExponent (c : Cursor) (negative : Bool) (significand : Nat) (exponent : Int) :
    Except ReadError (Value × Cursor) :=
  let (down, c) : Bool × Cursor :=
    match c.rest with
    | '+' :: text => (false, c.advance ['+'] text)
    | '-' :: text => (true, c.advance ['-'] text)
    | _ => (false, c)
  match c.rest with
  | [] => .error (.here c .endInValue)
  | first :: _ =>
    if !first.isDigit then .error ⟨.invalidNumber, c.offset + 1⟩
    else
      let digits := c.rest.takeWhile Char.isDigit
      let after := c.skipWhile Char.isDigit
      match appendDigits exponentLimit 0 digits with
      | (n, []) => scaledFloat after negative significand (if down then exponent - n else exponent + n)
      | (_, left) =>
        if significand != 0 && !down then
          .error ⟨.numberTooLarge, after.offset - byteSize left + 1⟩
        else .ok (.float ⟨negative, 0⟩, after)

/-- Reads what may follow the digits of a float: an exponent. -/
def readScale (c : Cursor) (negative : Bool) (significand : Nat) (exponent : Int) :
    Except ReadError (Value × Cursor) :=
  match c.rest with
  | 'e' :: text => readExponent (c.advance ['e'] text) negative significand exponent
  | 'E' :: text => readExponent (c.advance ['E'] text) negative significand exponent
  | _ => scaledFloat c negative significand exponent

/-- Reads the digits behind the point of a number. Digits that no longer fit are passed over. -/
def readFraction (c : Cursor) (negative : Bool) (significand : Nat) (exponent : Int) :
    Except ReadError (Value × Cursor) :=
  let digits := c.rest.takeWhile Char.isDigit
  let after := c.skipWhile Char.isDigit
  if digits.isEmpty then
    .error (.ahead c (if c.rest.isEmpty then .endInValue else .invalidNumber))
  else
    let (kept, left) := appendDigits significandLimit significand digits
    readScale after negative kept (exponent - (digits.length - left.length : Nat))

/-- Reads what may follow the whole digits of a number that is to be a float. -/
def readFloat (c : Cursor) (negative : Bool) (significand : Nat) (exponent : Int) :
    Except ReadError (Value × Cursor) :=
  match c.rest with
  | '.' :: text => readFraction (c.advance ['.'] text) negative significand exponent
  | _ => readScale c negative significand exponent

/-- A whole number: an integer if 64 bits hold it, a float otherwise and for negative zero. -/
def wholeValue (negative : Bool) (magnitude : Nat) : Value :=
  if !negative then .integer magnitude
  else if magnitude = 0 || Nat.pow 2 63 < magnitude then
    .float ⟨true, ((Binary64.ofDecimal true magnitude 0).getD ⟨true, 0⟩).units⟩
  else .integer (-(magnitude : Int))

/-- Reads a number behind its sign. -/
def readNumber (negative : Bool) (c : Cursor) : Except ReadError (Value × Cursor) :=
  match c.rest with
  | [] => .error (.here c .endInValue)
  | first :: text =>
    if !first.isDigit then .error ⟨.invalidNumber, c.offset + 1⟩
    else if first = '0' && text.head?.any Char.isDigit then
      .error (.ahead (c.advance [first] text) .invalidNumber)
    else
      let digits := c.rest.takeWhile Char.isDigit
      let after := c.skipWhile Char.isDigit
      let (kept, left) := appendDigits significandLimit 0 digits
      if left.isEmpty then
        match after.rest with
        | '.' :: _ => readFloat after negative kept 0
        | 'e' :: _ => readFloat after negative kept 0
        | 'E' :: _ => readFloat after negative kept 0
        | _ => .ok (wholeValue negative kept, after)
      else readFloat after negative kept left.length

/-- Reads a value without members that begins with a character, if one begins with it. -/
def readScalar? (fuel : Nat) (c : Cursor) (ch : Char) (text : List Char) :
    Option (Except ReadError (Value × Cursor)) :=
  let next := c.advance [ch] text
  if ch = 'n' then some (readReserved .null "ull".toList next)
  else if ch = 't' then some (readReserved (.boolean true) "rue".toList next)
  else if ch = 'f' then some (readReserved (.boolean false) "alse".toList next)
  else if ch = '-' then some (readNumber true next)
  else if ch.isDigit then some (readNumber false c)
  else if ch = '"' then
    some ((readQuoted fuel next).map fun (s, after) => (.string (String.ofList s), after))
  else none

/-- Reads the colon behind a key. -/
def readColon (c : Cursor) : Except ReadError Cursor :=
  let c := skipWritten c
  match c.rest with
  | [] => .error (.ahead c .endInObject)
  | ':' :: text => .ok (c.advance [':'] text)
  | _ => .error (.ahead c .expectedColon)

mutual

/-- Reads a value; `depth` counts the containers that may still be opened, and the fuel is at
least twice the number of characters. -/
def readValue : (fuel : Nat) → (depth : Nat) → Cursor → Except ReadError (Value × Cursor)
  | 0, _, c => .error (.ahead c .endInValue)
  | fuel + 1, depth, c =>
    let c := skipWritten c
    match c.rest with
    | [] => .error (.ahead c .endInValue)
    | ch :: text =>
      match readScalar? fuel c ch text with
      | some outcome => outcome
      | none =>
        if ch = '[' || ch = '{' then
          match depth with
          | 0 => .error (.ahead c .nestingTooDeep)
          | depth + 1 =>
            let next := c.advance [ch] text
            if ch = '[' then
              (readElements fuel depth true next).map fun (vs, after) => (.array vs, after)
            else
              (readFields fuel depth true next).map fun (fs, after) =>
                (.object (Fields.ofList fs), after)
        else .error (.ahead c .expectedValue)

/-- Reads the elements of a list up to its end. -/
def readElements : (fuel : Nat) → (depth : Nat) → (first : Bool) → Cursor →
    Except ReadError (List Value × Cursor)
  | 0, _, _, c => .error (.ahead c .endInList)
  | fuel + 1, depth, first, c =>
    let c := skipWritten c
    match c.rest with
    | [] => .error (.ahead c .endInList)
    | ']' :: text => .ok ([], c.advance [']'] text)
    | ch :: text =>
      if !first && ch != ',' then .error (.ahead c .expectedListEnd)
      else
        let start := if first then c else skipWritten (c.advance [ch] text)
        match start.rest with
        | [] => .error (.ahead start .endInValue)
        | ']' :: _ => .error (.ahead start .trailingComma)
        | _ => do
          let (value, after) ← readValue fuel depth start
          let (others, last) ← readElements fuel depth false after
          return (value :: others, last)

/-- Reads the fields of an object up to its end. -/
def readFields : (fuel : Nat) → (depth : Nat) → (first : Bool) → Cursor →
    Except ReadError (List (String × Value) × Cursor)
  | 0, _, _, c => .error (.ahead c .endInObject)
  | fuel + 1, depth, first, c =>
    let c := skipWritten c
    match c.rest with
    | [] => .error (.ahead c .endInObject)
    | '}' :: text => .ok ([], c.advance ['}'] text)
    | ch :: text =>
      if !first && ch != ',' then .error (.ahead c .expectedObjectEnd)
      else
        let start := if first then c else skipWritten (c.advance [ch] text)
        match start.rest with
        | [] => .error (.ahead start .endInValue)
        | '}' :: _ => .error (.ahead start .trailingComma)
        | '"' :: text => do
          let (key, after) ← readQuoted fuel (start.advance ['"'] text)
          let after ← readColon after
          let (value, after) ← readValue fuel depth after
          let (others, last) ← readFields fuel depth false after
          return ((String.ofList key, value) :: others, last)
        | _ => .error (.ahead start .keyNotString)

end

/-- How a value that is not an object is described. -/
def describeValue : Value → String
  | .null => "null"
  | .boolean b => "boolean \x60" ++ (if b then "true" else "false") ++ "\x60"
  | .integer n => "integer \x60" ++ String.ofList (integerText n) ++ "\x60"
  | .float x => "floating point \x60" ++ String.ofList x.text ++ "\x60"
  | .string s => "string " ++ s
  | .array _ => "sequence"
  | .object _ => "map"

/-- Number of containers that may stand inside one another. -/
def readDepth : Nat := 127

/-- Reads a text that is an object. `quote` says how a string is shown in an error. -/
def readObject (quote : String → String) (text : List Char) : Except ReadError Fields :=
  let c := skipWritten (.atStart text)
  let fuel := 2 * text.length + 2
  match c.rest with
  | [] => .error (.ahead c .endInValue)
  | '{' :: rest => do
    let (fields, after) ← readFields fuel (readDepth - 1) true (c.advance ['{'] rest)
    let last := skipWritten after
    if last.rest.isEmpty then .ok (Fields.ofList fields) else .error (.ahead last .trailingText)
  | '[' :: _ => .error (.here c (.notAnObject (describeValue (.array []))))
  | ch :: rest =>
    match readScalar? fuel c ch rest with
    | none => .error (.ahead c .expectedValue)
    | some (.error e) => .error e
    | some (.ok (.string s, after)) =>
      .error (.here after (.notAnObject (describeValue (.string (quote s)))))
    | some (.ok (value, after)) => .error (.here after (.notAnObject (describeValue value)))

end TemplateReader
