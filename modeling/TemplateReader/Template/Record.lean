import TemplateReader.Template.Document
import TemplateReader.Token.Record

/-!
# Documents as data

The data form of a document and of its summary, part by part in a fixed order.
-/

namespace TemplateReader

namespace RawBlock

/-- The parts of a script or style. -/
def fields (b : RawBlock) : Fields :=
  [("name", .string b.name), ("attributes", .object b.attributes.fields),
    ("source", .string b.source)] ++ b.span.fields

end RawBlock

namespace Document

/-- A document as data. -/
def toValue (d : Document) : Value :=
  .object
    [("components", .array (d.components.map fun e => .object e.fields)),
      ("scripts", .array (d.scripts.map fun b => .object b.fields)),
      ("styles", .array (d.styles.map fun b => .object b.fields)),
      ("markup", .array (tokenValues d.markup)),
      ("imports", .array (d.imports.map fun i => .object i.fields))]

end Document

namespace Summary

/-- A summary as data. -/
def toValue (s : Summary) : Value :=
  .object
    [("components", .nat s.components), ("scripts", .nat s.scripts), ("styles", .nat s.styles),
      ("markup", .nat s.markup), ("imports", .nat s.imports),
      ("roots", .array (s.roots.map .string)), ("sources", .array (s.sources.map .string))]

end Summary

end TemplateReader
