import TemplateReader.Grammar.Scalar

/-!
# Rules for arrays and objects

The members of an array or object are separated by commas, one more of which
may follow the last. ASCII whitespace may stand around every member. What a
value is, is asked of the scope, one level deeper.
-/

namespace TemplateReader

/-- The names that a value may have, in the order in which they are tried. -/
def dataNames : List String :=
  ["Null", "Boolean", "String", "Float", "Integer", "ObjectExpression", "ArrayExpression",
    "Identifier"]

/-- The names of the values without members. -/
def scalarNames : List String :=
  ["Null", "Boolean", "String", "Float", "Integer"]

/-- A later cursor: one behind which fewer characters remain. -/
abbrev LaterCursor (c : Cursor) := { d : Cursor // d.rest.length < c.rest.length }

/-- Reads the members of a container up to its closing bracket, from behind any whitespace. -/
def readMembers {α : Type} (closing : Char) (member : (c : Cursor) → Option (α × LaterCursor c))
    (c : Cursor) : Option (List α × Cursor) :=
  match c.rest with
  | [] => none
  | ch :: text =>
    if ch = closing then some ([], c.advance [ch] text)
    else
      match member c with
      | none => none
      | some (first, ⟨after, hlt⟩) =>
        let next := after.skipWhile isSpace
        match hn : next.rest with
        | [] => none
        | ch :: text =>
          if ch = ',' then
            have : ((next.advance [ch] text).skipWhile isSpace).rest.length < c.rest.length := by
              have h₁ := after.length_skipWhile_le isSpace
              have h₂ := (next.advance [ch] text).length_skipWhile_le isSpace
              have h₃ : next.rest.length = text.length + 1 := by simp [hn]
              have h₄ : (next.advance [ch] text).rest.length = text.length := rfl
              have h₅ : next = after.skipWhile isSpace := rfl
              rw [h₅] at h₃ h₂ h₄ ⊢
              omega
            (readMembers closing member ((next.advance [ch] text).skipWhile isSpace)).map
              fun (others, last) => (first :: others, last)
          else if ch = closing then some ([first], next.advance [ch] text)
          else none
termination_by c.rest.length

/-- Reads a value at a cursor. -/
def element? (value : Cursor → Option Token) (c : Cursor) : Option (Token × LaterCursor c) := do
  let v ← value c
  match h : c.jump? v.span.stop with
  | none => none
  | some after => some (v, ⟨after, Cursor.length_lt_of_jump? h⟩)

/-- A key: a name, or a string that stands for one. -/
def key? (s : Scope) (c : Cursor) : Option Identifier :=
  match identifier? c with
  | some key => some key
  | none =>
    match Rule.string s c with
    | some (.literal ⟨.string name, _, _, span⟩) => some ⟨name, span⟩
    | _ => none

/-- Reads a key, a colon and a value at a cursor. -/
def member? (s : Scope) (value : Cursor → Option Token) (c : Cursor) :
    Option (Property × LaterCursor c) := do
  let key ← key? s c
  match hk : c.jump? key.span.stop with
  | none => none
  | some afterKey =>
    let colon := afterKey.skipWhile isSpace
    match hc : colon.rest with
    | [] => none
    | ch :: text =>
      if ch = ':' then do
        let start := (colon.advance [ch] text).skipWhile isSpace
        let (v, ⟨after, hlt⟩) ← element? value start
        some (.plain key v, ⟨after, by
          have h₁ := Cursor.length_lt_of_jump? hk
          have h₂ := afterKey.length_skipWhile_le isSpace
          have h₃ : colon.rest.length = text.length + 1 := by simp [hc]
          have h₄ := (colon.advance [ch] text).length_skipWhile_le isSpace
          have h₅ : (colon.advance [ch] text).rest.length = text.length := rfl
          have h₆ : colon = afterKey.skipWhile isSpace := rfl
          have h₇ : start = (colon.advance [ch] text).skipWhile isSpace := rfl
          rw [h₇] at hlt
          rw [h₆] at h₃ h₄ h₅ hlt
          omega⟩)
      else none

namespace Rule

/-- Properties in braces. -/
def object : Rule := fun s c =>
  match c.rest with
  | '{' :: text =>
    s.nested fun s => do
      let start := (c.advance ['{'] text).skipWhile isSpace
      let (properties, after) ← readMembers '}' (member? s fun c => s.matchAt c dataNames) start
      some (.object ⟨properties, c.spanTo after⟩)
  | _ => none

/-- Values in brackets. -/
def array : Rule := fun s c =>
  match c.rest with
  | '[' :: text =>
    s.nested fun s => do
      let start := (c.advance ['['] text).skipWhile isSpace
      let (elements, after) ← readMembers ']' (element? fun c => s.matchAt c dataNames) start
      some (.array elements (c.spanTo after))
  | _ => none

/-- The built-in rules by their names, in the order in which they are tried. -/
def builtIn : List (String × Rule) :=
  [("Null", null), ("Boolean", boolean), ("String", string), ("Float", float),
    ("Integer", integer), ("Identifier", identifier), ("ObjectExpression", object),
    ("ArrayExpression", array), ("ProgramExpression", program)]

end Rule

namespace Registry

/-- The grammar of data literals. -/
def standard : Registry := ⟨Rule.builtIn⟩

end Registry

end TemplateReader
