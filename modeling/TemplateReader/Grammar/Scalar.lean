import TemplateReader.Delimiter.Brace
import TemplateReader.Delimiter.Pattern
import TemplateReader.Grammar.Rule
import TemplateReader.Number.Notation

/-!
# Rules for simple values

Reserved words, numbers, strings, names and embedded programs. None of them
matches other constructs, so they use nothing of their scope.
-/

namespace TemplateReader

/-- The literal of the characters taken at a cursor. -/
def scalarToken (c : Cursor) (taken : List Char) (value : Scalar) (escape : Bool) : Token :=
  .literal ⟨value, String.ofList taken, escape, ⟨c.offset, c.offset + byteSize taken⟩⟩

/-- Whether a text begins with a word that does not go on. -/
def beginsWithWord (word : List Char) (text : List Char) : Bool :=
  match dropWord? word text with
  | none => false
  | some [] => true
  | some (next :: _) => !isWordChar next

/-- The value of a hexadecimal digit. -/
def hexValue? (c : Char) : Option Nat :=
  if c.isDigit then some (c.toNat - '0'.toNat)
  else if 'a' ≤ c && c ≤ 'f' then some (c.toNat - 'a'.toNat + 10)
  else if 'A' ≤ c && c ≤ 'F' then some (c.toNat - 'A'.toNat + 10)
  else none

/-- The number that the first four characters write in hexadecimal. -/
def hexUnit? : List Char → Option Nat
  | a :: b :: c :: d :: _ => do
    let a ← hexValue? a
    let b ← hexValue? b
    let c ← hexValue? c
    let d ← hexValue? d
    some (((a * 16 + b) * 16 + c) * 16 + d)
  | _ => none

/-- The character of a code point; a surrogate has none and stands as the replacement character. -/
def charOfUnit (n : Nat) : Char :=
  if h : n.isValidChar then Char.ofNatAux n h else '\ufffd'

/-- The low surrogate escaped at the front of a text. -/
def lowSurrogate? : List Char → Option Nat
  | '\\' :: 'u' :: text => (hexUnit? text).filter fun unit => 0xdc00 ≤ unit && unit < 0xe000
  | _ => none

/-- Decodes the digits of a `u` escape, with the number of characters they take. A high surrogate
takes the low one escaped behind it along. -/
def unicodeEscape? (text : List Char) : Option (Char × Nat) := do
  let unit ← hexUnit? text
  match if 0xd800 ≤ unit && unit < 0xdc00 then lowSurrogate? (text.drop 4) else none with
  | some low => some (charOfUnit (0x10000 + (unit - 0xd800) * 0x400 + (low - 0xdc00)), 10)
  | none => some (charOfUnit unit, 4)

/-- Decodes the escape of a character, with the number of further characters it takes. An escape
without a meaning stands for its character. -/
def decodeEscape (escaped : Char) (text : List Char) : Char × Nat :=
  match escaped with
  | 'n' => ('\n', 0)
  | 't' => ('\t', 0)
  | 'r' => ('\r', 0)
  | '0' => ('\x00', 0)
  | 'u' => (unicodeEscape? text).getD ('u', 0)
  | c => (c, 0)

/-- A string as it was read. -/
structure StringReading where
  /-- What it means. -/
  value : List Char
  /-- Whether it holds an escape. -/
  escape : Bool
  /-- The characters behind the opening quote, the closing one included. -/
  taken : List Char
  /-- The text behind it. -/
  rest : List Char
deriving DecidableEq, Repr

/-- Reads a string behind its opening quote. -/
def readString? (quote : Char) (text : List Char) : Option StringReading :=
  match text with
  | [] => none
  | c :: text =>
    if c = quote then some ⟨[], false, [c], text⟩
    else if c = '\\' then
      match text with
      | [] => none
      | escaped :: text =>
        let (decoded, more) := decodeEscape escaped text
        (readString? quote (text.drop more)).map fun s =>
          ⟨decoded :: s.value, true, c :: escaped :: text.take more ++ s.taken, s.rest⟩
    else
      (readString? quote text).map fun s => ⟨c :: s.value, s.escape, c :: s.taken, s.rest⟩
termination_by text.length
decreasing_by all_goals (simp only [List.length_cons, List.length_drop]; omega)

/-- Splits digits behind an optional minus sign from the front of a text. -/
def splitDigits? (text : List Char) : Option (List Char × List Char) :=
  let (sign, text) : List Char × List Char :=
    match text with
    | '-' :: text => (['-'], text)
    | text => ([], text)
  match text.takeWhile Char.isDigit with
  | [] => none
  | digits => some (sign ++ digits, text.dropWhile Char.isDigit)

/-- The sign and the magnitude of digits behind an optional minus sign. -/
def signedDigits (text : List Char) : Bool × Nat :=
  match text with
  | '-' :: digits => (true, natOfDigits digits)
  | digits => (false, natOfDigits digits)

/-- The scalar of a whole number: an integer within 64 bits and a float beyond. -/
def wholeNumber? (negative : Bool) (magnitude : Nat) : Option Scalar :=
  if magnitude < Nat.pow 2 63 || (negative && magnitude = Nat.pow 2 63) then
    some (.integer (if negative then -(magnitude : Int) else magnitude))
  else (Binary64.ofDecimal negative magnitude 0).map Scalar.float

/-- A name at the front of a cursor. -/
def identifier? (c : Cursor) : Option Identifier :=
  match c.rest with
  | [] => none
  | first :: _ =>
    if isWordStart first then
      let name := c.rest.takeWhile isWordChar
      some ⟨String.ofList name, ⟨c.offset, c.offset + byteSize name⟩⟩
    else none

namespace Rule

/-- The word `null`. -/
def null : Rule := fun _ c =>
  if beginsWithWord "null".toList c.rest then
    some (scalarToken c "null".toList .null false)
  else none

/-- The words `true` and `false`. -/
def boolean : Rule := fun _ c =>
  if beginsWithWord "true".toList c.rest then
    some (scalarToken c "true".toList (.boolean true) false)
  else if beginsWithWord "false".toList c.rest then
    some (scalarToken c "false".toList (.boolean false) false)
  else none

/-- A text in double or single quotes. -/
def string : Rule := fun _ c =>
  match c.rest with
  | [] => none
  | quote :: text =>
    if quote = '"' || quote = '\'' then
      (readString? quote text).map fun s =>
        scalarToken c (quote :: s.taken) (.string (String.ofList s.value)) s.escape
    else none

/-- Digits, a point and digits, unless the number is too large for the format. -/
def float : Rule := fun _ c => do
  let (whole, rest) ← splitDigits? c.rest
  match rest with
  | '.' :: rest =>
    match rest.takeWhile Char.isDigit with
    | [] => none
    | fraction =>
      let (negative, significand) := signedDigits (whole ++ fraction)
      let value ← Binary64.ofDecimal negative significand (-(fraction.length : Int))
      some (scalarToken c (whole ++ '.' :: fraction) (.float value) false)
  | _ => none

/-- Digits alone, unless the number is too large for any format. -/
def integer : Rule := fun _ c => do
  let (digits, _) ← splitDigits? c.rest
  let (negative, magnitude) := signedDigits digits
  let value ← wholeNumber? negative magnitude
  some (scalarToken c digits value false)

/-- A name. -/
def identifier : Rule := fun _ c =>
  (identifier? c).map Token.identifier

/-- An expression in balanced braces, kept as text. -/
def program : Rule := fun _ c =>
  match c.rest with
  | '{' :: text =>
    (splitBraces 0 text).map fun (inner, _) =>
      .program ⟨String.ofList (trim inner), ⟨c.offset, c.offset + byteSize inner + 2⟩⟩
  | _ => none

end Rule

end TemplateReader
