import TemplateReader.Text.Cursor

/-!
# Lines and columns

A diagnostic names a place by line and column, both counted from zero. A
character counts as passed once its first byte lies before the offset, so an
offset inside a character has the column after that character.
-/

namespace TemplateReader

/-- A place in a text by line and by character within the line. -/
structure Position where
  /-- Number of line feeds before the place. -/
  line : Nat
  /-- Number of characters since the last of them. -/
  column : Nat
deriving DecidableEq, Repr, Inhabited

namespace Position

/-- The position after one more character: a line feed begins a new line. -/
def after (p : Position) (c : Char) : Position :=
  if c = '\n' then ⟨p.line + 1, 0⟩ else ⟨p.line, p.column + 1⟩

/-- Walks over the characters that begin before the offset. -/
def walk (p : Position) : (text : List Char) → (offset : Nat) → Position
  | [], _ => p
  | _ :: _, 0 => p
  | c :: text, offset + 1 => (p.after c).walk text (offset + 1 - c.utf8Size)

/-- The position of a byte offset; an offset past the end has the position of the end. -/
def ofOffset (text : List Char) (offset : Nat) : Position :=
  walk ⟨0, 0⟩ text offset

end Position

end TemplateReader
