import TemplateReader.Text.Hidden

/-!
# Quoted names

Names are listed in double quotes. Quotes, backslashes and the usual controls
are escaped by a backslash; other characters that cannot be shown on their own
are written by their code point.
-/

namespace TemplateReader

/-- The digits of a number in lower-case hexadecimal. -/
def hexDigits (n : Nat) : List Char := Nat.toDigits 16 n

/-- How one character is written inside quotes. -/
def showChar (c : Char) : List Char :=
  if c = '"' then ['\\', '"']
  else if c = '\\' then ['\\', '\\']
  else if c = '\n' then ['\\', 'n']
  else if c = '\t' then ['\\', 't']
  else if c = '\r' then ['\\', 'r']
  else if c = '\x00' then ['\\', '0']
  else if isHidden c then ['\\', 'u', '{'] ++ hexDigits c.toNat ++ ['}']
  else [c]

/-- A name in quotes. -/
def showQuoted (name : String) : String :=
  String.ofList ('"' :: name.toList.flatMap showChar ++ ['"'])

/-- Several names in quotes as a list. -/
def showNames (names : List String) : String :=
  "[" ++ ", ".intercalate (names.map showQuoted) ++ "]"

end TemplateReader
