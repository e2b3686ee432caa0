import TemplateReader.Token.Basic

/-!
# Outlines

The outline of a token tree lists its tokens in source order, each with its
depth: an element is followed by its attributes and then its children, an
object by its properties, a property by its key and its value, an array by its
elements.
-/

namespace TemplateReader

/-- What an outline shows of a token besides its kind and span. -/
inductive OutlineDetail where
  /-- Its text: the raw form of a literal, a name, or the source of a program or import. -/
  | text (text : String)
  /-- The form of a property. -/
  | form (form : PropertyForm)
  /-- Nothing: the members of a container follow it. -/
  | members
deriving DecidableEq, Repr

/-- One line of an outline. -/
structure OutlineRow where
  /-- Number of enclosing tokens, counted from the depth the outline starts at. -/
  depth : Nat
  /-- Name of the token's kind. -/
  kind : String
  /-- Where the token stands. -/
  span : Span
  /-- What else is shown of it. -/
  detail : OutlineDetail
deriving DecidableEq, Repr

namespace Token

/-- What the outline shows of a token. -/
def detail : Token → OutlineDetail
  | literal l => .text l.raw
  | identifier i => .text i.name
  | object _ => .members
  | property p => .form p.form
  | array .. => .members
  | program p => .text p.source
  | element e => .text e.name
  | importDeclaration i => .text i.source

/-- The line of a token itself. -/
def row (depth : Nat) (t : Token) : OutlineRow := ⟨depth, t.kind, t.span, t.detail⟩

end Token

mutual

/-- The outline of a token, its own line first. -/
def Token.outline (depth : Nat) : Token → List OutlineRow
  | .object o => o.outline depth
  | .property p => p.outline depth
  | .array elements span =>
    Token.row depth (.array elements span) :: outlineTokens (depth + 1) elements
  | .element e => e.outline depth
  | t => [t.row depth]

/-- The outline of an object: its own line and its properties. -/
def Object.outline (depth : Nat) : Object → List OutlineRow
  | ⟨properties, span⟩ =>
    Token.row depth (.object ⟨properties, span⟩) :: outlineProperties (depth + 1) properties

/-- The outline of a property: its own line, its key and its value. -/
def Property.outline (depth : Nat) : Property → List OutlineRow
  | ⟨key, value, form, span⟩ =>
    Token.row depth (.property ⟨key, value, form, span⟩) ::
      (key.toList.map fun key => Token.row (depth + 1) (.identifier key)) ++
      value.outline (depth + 1)

/-- The outline of an element: its own line, its attributes and its children. -/
def Element.outline (depth : Nat) : Element → List OutlineRow
  | ⟨name, attributes, children, span⟩ =>
    Token.row depth (.element ⟨name, attributes, children, span⟩) ::
      attributes.outline (depth + 1) ++ outlineTokens (depth + 1) children

/-- The outlines of several tokens one after another. -/
def outlineTokens (depth : Nat) : List Token → List OutlineRow
  | [] => []
  | t :: ts => t.outline depth ++ outlineTokens depth ts

/-- The outlines of several properties one after another. -/
def outlineProperties (depth : Nat) : List Property → List OutlineRow
  | [] => []
  | p :: ps => p.outline depth ++ outlineProperties depth ps

end

end TemplateReader
