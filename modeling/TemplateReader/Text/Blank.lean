import TemplateReader.Text.Ascii

/-!
# Blank text

Surrounding whitespace is trimmed, and whitespace-only text is recognised, by
the `White_Space` property of Unicode. The property has twenty-five members;
the ASCII class of `isSpace` is contained in it.
-/

namespace TemplateReader

/-- Membership in the `White_Space` property of Unicode. -/
def isBlankChar (c : Char) : Bool :=
  let n := c.toNat
  (0x09 ≤ n && n ≤ 0x0d) || n = 0x20 || n = 0x85 || n = 0xa0 || n = 0x1680 ||
    (0x2000 ≤ n && n ≤ 0x200a) || n = 0x2028 || n = 0x2029 || n = 0x202f || n = 0x205f ||
    n = 0x3000

/-- ASCII whitespace is blank. -/
theorem isBlankChar_of_isSpace {c : Char} (h : isSpace c = true) : isBlankChar c = true := by
  simp only [isSpace, Bool.or_eq_true, decide_eq_true_eq] at h
  rcases h with (((rfl | rfl) | rfl) | rfl) | rfl <;> rfl

/-- The text without its leading blank characters. -/
def trimStart (text : List Char) : List Char :=
  text.dropWhile isBlankChar

/-- The text without its trailing blank characters. -/
def trimEnd (text : List Char) : List Char :=
  (text.reverse.dropWhile isBlankChar).reverse

/-- The text without the blank characters around it. -/
def trim (text : List Char) : List Char :=
  trimEnd (trimStart text)

/-- A text is blank when every character of it is. -/
def isBlank (text : List Char) : Bool :=
  text.all isBlankChar

/-- The words of a text: its maximal runs of characters that are not blank, the first of them. -/
def firstWord (text : List Char) : List Char :=
  (trimStart text).takeWhile fun c => !isBlankChar c

end TemplateReader
