import TemplateReader.Bytes.Script
import TemplateReader.Bytes.Tree
import TemplateReader.Template.Document

/-!
# Documents, read by bytes

The whole reading of a template over the bytes of its text: the nodes, their
sorting, and the scan of every script among them.
-/

namespace TemplateReader.Bytes

/-- The imports in the content of a script element. -/
def elementImports (e : Element) : Run (List Import) :=
  match e.children with
  | [] => return []
  | content :: _ => scan e.rawContent.toList content.span.start

/-- Adds one root node to a document, where it belongs. -/
def classifyRoot (d : Document) : Token → Run Document
  | .element e => do
    if e.isComponentLink then return { d with components := d.components ++ [e] }
    else if e.isInlineScript then
      let imports ← elementImports e
      return { d with scripts := d.scripts ++ [e.rawBlock], imports := d.imports ++ imports }
    else if e.isNamed "style" then return { d with styles := d.styles ++ [e.rawBlock] }
    else return { d with markup := d.markup ++ [.element e] }
  | t => return { d with markup := d.markup ++ [t] }

/-- Reads a template whose elements nest no deeper than `limit`. -/
def readDocument (s : List Char) (limit : Nat) : Run Document := do
  let (roots, _) ← nodes s limit none 0 [] 0 0
  roots.foldlM classifyRoot ⟨[], [], [], [], []⟩

end TemplateReader.Bytes
