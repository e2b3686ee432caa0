import TemplateReader.Data.Value
import TemplateReader.Token.Basic

/-!
# Tokens as data

The data form of a token is an object of its parts, in a fixed order, with the
kind of the token in front. Parts whose kind is always the same, such as the
key of a property, are written without it.
-/

namespace TemplateReader

/-- A natural number as data. -/
def Value.nat (n : Nat) : Value := .integer n

/-- A text that may be absent, as data. -/
def Value.ofString? : Option String → Value
  | some s => .string s
  | none => .null

namespace Span

/-- The last two parts of every token's data. -/
def fields (s : Span) : Fields := [("start", .nat s.start), ("end", .nat s.stop)]

end Span

namespace Scalar

/-- A scalar as data; data has no number beyond the finite ones. -/
def toValue : Scalar → Value
  | integer n => .integer n
  | float x => if x.isFinite then .float x else .null
  | string s => .string s
  | boolean b => .boolean b
  | null => .null

end Scalar

namespace Literal

/-- The parts of a literal. -/
def fields (l : Literal) : Fields :=
  [("value", l.value.toValue), ("raw", .string l.raw), ("escape", .boolean l.escape)] ++
    l.span.fields

end Literal

namespace Identifier

/-- The parts of an identifier. -/
def fields (i : Identifier) : Fields := ("name", .string i.name) :: i.span.fields

end Identifier

namespace Program

/-- The parts of an embedded expression. -/
def fields (p : Program) : Fields := ("source", .string p.source) :: p.span.fields

end Program

namespace Specifier

/-- An entry of an import's list as data. -/
def toValue (s : Specifier) : Value :=
  .object [("imported", .string s.imported), ("local", .string s.binding),
    ("typeOnly", .boolean s.typeOnly)]

end Specifier

namespace Import

/-- The parts of an import. -/
def fields (i : Import) : Fields :=
  [("typeOnly", .boolean i.typeOnly), ("default", .ofString? i.defaultName),
    ("namespace", .ofString? i.moduleName), ("specifiers", .array (i.specifiers.map Specifier.toValue)),
    ("source", .string i.source)] ++ i.span.fields

end Import

/-- Puts the kind of a token before its parts. -/
def Value.tagged (kind : String) (fields : Fields) : Value :=
  .object (("type", .string kind) :: fields)

mutual

/-- A token as data, its kind first. -/
def Token.toValue : Token → Value
  | .literal l => .tagged "Literal" l.fields
  | .identifier i => .tagged "Identifier" i.fields
  | .object o => .tagged "ObjectExpression" o.fields
  | .property p => .tagged "Property" p.fields
  | .array elements span =>
    .tagged "ArrayExpression" (("elements", .array (tokenValues elements)) :: span.fields)
  | .program p => .tagged "ProgramExpression" p.fields
  | .element e => .tagged "MarkupExpression" e.fields
  | .importDeclaration i => .tagged "ImportDeclaration" i.fields

/-- The parts of an object. -/
def Object.fields : Object → Fields
  | ⟨properties, span⟩ => ("properties", .array (propertyValues properties)) :: span.fields

/-- The parts of a property. -/
def Property.fields : Property → Fields
  | ⟨key, value, form, span⟩ =>
    [("key", (key.map fun key => Value.object key.fields).getD .null), ("value", value.toValue),
      ("spread", .boolean (form = .spread)), ("computed", .boolean (form = .computed))] ++
      span.fields

/-- The parts of an element. -/
def Element.fields : Element → Fields
  | ⟨name, attributes, children, span⟩ =>
    [("name", .string name), ("attributes", .object attributes.fields),
      ("children", .array (tokenValues children))] ++ span.fields

/-- Several tokens as data. -/
def tokenValues : List Token → List Value
  | [] => []
  | t :: ts => t.toValue :: tokenValues ts

/-- Several properties as data. -/
def propertyValues : List Property → List Value
  | [] => []
  | p :: ps => .object p.fields :: propertyValues ps

end

end TemplateReader
