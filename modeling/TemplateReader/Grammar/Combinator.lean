import TemplateReader.Grammar.Container

/-!
# Rules for extending a registry

The grammar is open: whoever uses a lexer may give a name a rule of their own.
Here are such rules, one that finds nothing, one for the empty text, which counts as
nothing, one for a fixed text, and two that match other names. As these two match
by name, they follow the registry when a name is given another rule.
-/

namespace TemplateReader

namespace Rule

/-- Matches nothing. -/
def never : Rule := fun _ _ => none

/-- Matches the empty text everywhere. -/
def emptyText : Rule := fun _ c => some (.literal (.ofText c.offset []))

/-- Matches one fixed text. -/
def fixedText (text : List Char) : Rule := fun _ c =>
  match dropWord? text c.rest with
  | some _ => some (.literal (.ofText c.offset text))
  | none => none

/-- Matches the first of some names that matches. -/
def firstOf (names : List String) : Rule := fun s c => s.matchAt c names

/-- Matches one of some names in parentheses, one level deeper, as a list of one element. -/
def parenthesised (names : List String) : Rule := fun s c =>
  match c.rest with
  | '(' :: text => do
    let start := c.advance ['('] text
    let inner ← s.nested fun s => s.matchAt start names
    let after ← start.jump? inner.span.stop
    match after.rest with
    | ')' :: _ => some (.array [inner] ⟨c.offset, after.offset + 1⟩)
    | _ => none
  | _ => none

end Rule

end TemplateReader
