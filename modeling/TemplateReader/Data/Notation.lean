import TemplateReader.Data.Value
import TemplateReader.Number.Notation

/-!
# Written values

Values are written as JSON, either on one line without spaces or indented by
two spaces a level. Only quotes, backslashes and control characters below the
space are escaped; an empty list or object takes no lines of its own.
-/

namespace TemplateReader

/-- A lower-case hexadecimal digit. -/
def hexDigit (n : Nat) : Char :=
  Nat.digitChar (n % 16)

/-- How one character is written inside a string. -/
def escapeChar (c : Char) : List Char :=
  if c = '"' then ['\\', '"']
  else if c = '\\' then ['\\', '\\']
  else if c = '\x08' then ['\\', 'b']
  else if c = '\t' then ['\\', 't']
  else if c = '\n' then ['\\', 'n']
  else if c = '\x0c' then ['\\', 'f']
  else if c = '\r' then ['\\', 'r']
  else if c.toNat < 0x20 then ['\\', 'u', '0', '0', hexDigit (c.toNat / 16), hexDigit c.toNat]
  else [c]

/-- A text as a string in double quotes. -/
def quoteText (text : String) : String :=
  String.ofList ('"' :: text.toList.flatMap escapeChar ++ ['"'])

namespace Value

/-- The written form of a value without members. -/
def scalarText : Value → String
  | null => "null"
  | boolean b => if b then "true" else "false"
  | integer n => String.ofList (integerText n)
  | float x => String.ofList x.text
  | string s => quoteText s
  | array _ => "[]"
  | object _ => "\x7b\x7d"

mutual

/-- The value on one line. -/
def compact : Value → String
  | array (first :: rest) => "[" ++ compact first ++ compactRest rest ++ "]"
  | object ((key, value) :: rest) =>
    "\x7b" ++ quoteText key ++ ":" ++ compact value ++ compactFields rest ++ "\x7d"
  | value => value.scalarText

/-- The elements after the first, each behind a comma. -/
def compactRest : List Value → String
  | [] => ""
  | value :: rest => "," ++ compact value ++ compactRest rest

/-- The fields after the first, each behind a comma. -/
def compactFields : List (String × Value) → String
  | [] => ""
  | (key, value) :: rest => "," ++ quoteText key ++ ":" ++ compact value ++ compactFields rest

end

/-- A line break with the indentation of a level. -/
def lineBreak (level : Nat) : String :=
  String.ofList ('\n' :: List.replicate (2 * level) ' ')

mutual

/-- The value over several lines, its members indented one level deeper than `level`. -/
def indented (level : Nat) : Value → String
  | array (first :: rest) =>
    "[" ++ lineBreak (level + 1) ++ indented (level + 1) first ++
      indentedRest (level + 1) rest ++ lineBreak level ++ "]"
  | object ((key, value) :: rest) =>
    "\x7b" ++ lineBreak (level + 1) ++ quoteText key ++ ": " ++ indented (level + 1) value ++
      indentedFields (level + 1) rest ++ lineBreak level ++ "\x7d"
  | value => value.scalarText

/-- The elements after the first, each on a line of its own. -/
def indentedRest (level : Nat) : List Value → String
  | [] => ""
  | value :: rest => "," ++ lineBreak level ++ indented level value ++ indentedRest level rest

/-- The fields after the first, each on a line of its own. -/
def indentedFields (level : Nat) : List (String × Value) → String
  | [] => ""
  | (key, value) :: rest =>
    "," ++ lineBreak level ++ quoteText key ++ ": " ++ indented level value ++
      indentedFields level rest

end

/-- The two ways of writing a value. -/
inductive Layout where
  /-- On one line without spaces. -/
  | compact
  /-- Over several lines, indented by two spaces a level. -/
  | indented
deriving DecidableEq, Repr

/-- The value written in a layout. -/
def text (layout : Layout) (value : Value) : String :=
  match layout with
  | .compact => value.compact
  | .indented => value.indented 0

end Value

end TemplateReader
