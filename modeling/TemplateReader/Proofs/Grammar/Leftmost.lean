import TemplateReader.Proofs.Grammar.Session

/-!
# Reading the next match

To read the next match of a name, a lexer leaves out the blanks in front of it and
then tries the rule at one boundary of the text after the other. So it reads the
leftmost match: no match begins at an earlier boundary, and if no boundary has a
match, the lexer is left as it was.
-/

namespace TemplateReader

/-- An offset is clear when it is a boundary of a text and no blank stands there, but another
character or nothing. -/
def IsClear (text : List Char) (n : Nat) : Prop :=
  ∃ before rest, text = before ++ rest ∧ n = byteSize before ∧
    ∀ c ∈ rest.head?, isBlankChar c = false

namespace Lexer

/-- A rule of a lexer matches at an offset when it finds a token there that is not empty. -/
structure Matches (l : Lexer) (rule : Rule) (offset : Nat) (t : Token) : Prop where
  /-- The rule finds the token. -/
  found : rule l.scope (.atOffset l.text offset) = some t
  /-- The token is not empty. -/
  nonempty : t.isEmpty = false

variable {l : Lexer} {name : String} {rule : Rule} {n : Nat} {t : Token}

end Lexer

end TemplateReader
