import TemplateReader.Script.Imports
import TemplateReader.Template.Tree

/-!
# Documents

The root nodes of a template are sorted by what they are for: the links that
bring in components, the scripts, the styles and the markup proper. The static
imports of the scripts are collected as well.
-/

namespace TemplateReader

/-- A script or style at the root of a template. -/
structure RawBlock where
  /-- The tag name as written. -/
  name : String
  /-- The attributes of the opening tag. -/
  attributes : Object
  /-- The text between the tags. -/
  source : String
  /-- Where the block stands, tags included. -/
  span : Span

/-- A template, its root nodes sorted. -/
structure Document where
  /-- The links that import components. -/
  components : List Element
  /-- The scripts written in place. -/
  scripts : List RawBlock
  /-- The styles. -/
  styles : List RawBlock
  /-- All other nodes. -/
  markup : List Token
  /-- The static imports of the scripts. -/
  imports : List Import

/-- What a root node is for. -/
inductive RootEntry where
  /-- A link that imports a component. -/
  | component (element : Element)
  /-- A script with its imports. -/
  | script (block : RawBlock) (imports : List Import)
  /-- A style. -/
  | style (block : RawBlock)
  /-- Anything else. -/
  | markup (token : Token)

namespace Element

/-- The text of an element that holds raw text. -/
def rawContent (e : Element) : String :=
  match e.children with
  | .literal content :: _ => content.raw
  | _ => ""

/-- The block of a script or style element. -/
def rawBlock (e : Element) : RawBlock := ⟨e.name, e.attributes, e.rawContent, e.span⟩

/-- The imports in the content of a script element. -/
def scriptImports (e : Element) : List Import :=
  match e.children with
  | [] => []
  | content :: _ => TemplateReader.scriptImports content.span.start e.rawContent.toList

/-- Whether the element has a name, up to ASCII case. -/
def isNamed (e : Element) (name : String) : Bool :=
  eqIgnoreCase e.name.toList name.toList

/-- Whether the element is a link that imports a component. -/
def isComponentLink (e : Element) : Bool :=
  e.isNamed "link" &&
    (e.attributes.string? "rel").any fun rel => eqIgnoreCase rel.toList "import".toList

/-- Whether the element is a script written in place, not one loaded from elsewhere. -/
def isInlineScript (e : Element) : Bool :=
  e.isNamed "script" && (e.attributes.get? "src").isNone

/-- What an element at the root is for. -/
def rootEntry (e : Element) : RootEntry :=
  if e.isComponentLink then .component e
  else if e.isInlineScript then .script e.rawBlock e.scriptImports
  else if e.isNamed "style" then .style e.rawBlock
  else .markup (.element e)

end Element

/-- What a node at the root is for. -/
def Token.rootEntry : Token → RootEntry
  | .element e => e.rootEntry
  | t => .markup t

namespace RootEntry

/-- The component link, if the entry is one. -/
def component? : RootEntry → Option Element
  | component e => some e
  | _ => none

/-- The script block, if the entry is one. -/
def script? : RootEntry → Option RawBlock
  | script block _ => some block
  | _ => none

/-- The style block, if the entry is one. -/
def style? : RootEntry → Option RawBlock
  | style block => some block
  | _ => none

/-- The markup node, if the entry is one. -/
def markup? : RootEntry → Option Token
  | markup t => some t
  | _ => none

/-- The imports that the entry brings. -/
def imports : RootEntry → List Import
  | script _ imports => imports
  | _ => []

end RootEntry

namespace Document

/-- The document of a list of root nodes. -/
def ofNodes (nodes : List Token) : Document :=
  let entries := nodes.map Token.rootEntry
  { components := entries.filterMap RootEntry.component?
    scripts := entries.filterMap RootEntry.script?
    styles := entries.filterMap RootEntry.style?
    markup := entries.filterMap RootEntry.markup?
    imports := entries.flatMap RootEntry.imports }

/-- The nesting limit that applies where no other is given. -/
def defaultLimit : Nat := 256

/-- Reads a template whose elements nest no deeper than `limit`. -/
def ofText (source : List Char) (limit : Nat) : Except TemplateError Document :=
  (templateNodes limit source).map ofNodes

/-- Reads a template. -/
def read (source : String) (limit : Nat) : Except TemplateError Document :=
  ofText source.toList limit

/-- The attributes of the first tag that the document lists: of a component, else of a script, else
of a style, else of an element of the markup. -/
def firstAttributes? (d : Document) : Option Object :=
  match d.components, d.scripts, d.styles with
  | e :: _, _, _ => some e.attributes
  | [], block :: _, _ => some block.attributes
  | [], [], block :: _ => some block.attributes
  | [], [], [] => (d.markup.findSome? Token.element?).map Element.attributes

end Document

/-- The shape of a document. -/
structure Summary where
  /-- Number of component links. -/
  components : Nat
  /-- Number of scripts. -/
  scripts : Nat
  /-- Number of styles. -/
  styles : Nat
  /-- Number of markup nodes. -/
  markup : Nat
  /-- Number of imports. -/
  imports : Nat
  /-- The names of the markup elements; other nodes appear by their kind. -/
  roots : List String
  /-- The modules imported from. -/
  sources : List String
deriving DecidableEq, Repr

/-- The name under which a summary lists a node. -/
def Token.rootName : Token → String
  | .element e => e.name
  | t => "#" ++ t.kind

/-- The shape of a document. -/
def Document.summary (d : Document) : Summary where
  components := d.components.length
  scripts := d.scripts.length
  styles := d.styles.length
  markup := d.markup.length
  imports := d.imports.length
  roots := d.markup.map Token.rootName
  sources := d.imports.map Import.source

end TemplateReader
