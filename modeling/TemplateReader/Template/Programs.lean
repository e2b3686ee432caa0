import TemplateReader.Template.Document

/-!
# Embedded programs

The expressions embedded in a document's markup, in source order: those that
stand as nodes and those that are attribute values, at any depth.
-/

namespace TemplateReader

/-- The programs among the values of a list of properties. -/
def attributePrograms (properties : List Property) : List Program :=
  properties.filterMap fun p => p.value.program?

mutual

/-- The programs of a node: itself, or those of its attributes followed by those of its children. -/
def Token.programs : Token → List Program
  | .program p => [p]
  | .element e => e.programs
  | _ => []

/-- The programs of an element's attributes, then those of its children. -/
def Element.programs : Element → List Program
  | ⟨_, attributes, children, _⟩ =>
    attributePrograms attributes.properties ++ tokenPrograms children

/-- The programs of several nodes. -/
def tokenPrograms : List Token → List Program
  | [] => []
  | t :: ts => t.programs ++ tokenPrograms ts

end

/-- The programs of the markup of a document. -/
def Document.programs (d : Document) : List Program := tokenPrograms d.markup

end TemplateReader
