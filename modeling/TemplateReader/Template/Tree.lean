import TemplateReader.Template.Piece

/-!
# Trees of a template

The pieces of a template make a tree when every close tag closes the innermost
open element, every element is closed, and none stands deeper than allowed.
The first piece that breaks a rule decides the error. Whitespace that only
lays out the markup is left out of the tree.
-/

namespace TemplateReader

/-- Whether a node is text of blank characters only. -/
def isBlankText : Token → Bool
  | .literal l => isBlank l.raw.toList
  | _ => false

/-- Whether a node is text that holds a line feed. -/
def hasLineFeed : Token → Bool
  | .literal l => l.raw.toList.contains '\n'
  | _ => false

/-- The children of an element without layout: a blank text that holds a line feed is left out
unless it is all there is. -/
def dropLayout (children : List Token) : List Token :=
  if children.length = 1 then children
  else children.filter fun t => !(isBlankText t && hasLineFeed t)

/-- The nodes of a template without the blank texts between them. -/
def dropRootBlanks (nodes : List Token) : List Token :=
  nodes.filter fun t => !isBlankText t

/-- An element that is not closed yet. -/
structure OpenElement where
  /-- Its opening tag. -/
  tag : OpenTag
  /-- The nodes before it in its parent, last first. -/
  before : List Token

namespace OpenElement

/-- The element with its children, closed by a tag that ends at an offset. -/
def close (o : OpenElement) (children : List Token) (stop : Nat) : Token :=
  .element
    ⟨String.ofList o.tag.name, o.tag.attributes, dropLayout children, ⟨o.tag.span.start, stop⟩⟩

/-- The error of an element that is open at the end of the text. -/
def unclosedError (o : OpenElement) : TemplateError :=
  let start := o.tag.span.start
  ⟨.unclosedElement (String.ofList o.tag.name), ⟨start, start + byteSize o.tag.name + 1⟩⟩

end OpenElement

/-- Builds the tree of the remaining pieces. `stack` holds the open elements, innermost first, and
`nodes` the nodes read inside the innermost, last first. -/
def growTree (limit : Nat) (fault : Option TemplateError) :
    (stack : List OpenElement) → (nodes : List Token) → List Piece →
    Except TemplateError (List Token)
  | stack, nodes, [] =>
    match fault, stack with
    | some e, _ => .error e
    | none, [] => .ok (dropRootBlanks nodes.reverse)
    | none, o :: _ => .error o.unclosedError
  | stack, nodes, .node token :: pieces => growTree limit fault stack (token :: nodes) pieces
  | stack, nodes, .openTag tag :: pieces =>
    if limit ≤ stack.length then .error ⟨.nestingTooDeep limit, tag.span⟩
    else growTree limit fault (⟨tag, nodes⟩ :: stack) [] pieces
  | [], _, .closeTag name span :: _ =>
    .error ⟨.unexpectedCloseTag (String.ofList name), span⟩
  | o :: stack, nodes, .closeTag name span :: pieces =>
    if eqIgnoreCase o.tag.name name then
      growTree limit fault stack (o.close nodes.reverse span.stop :: o.before) pieces
    else
      .error ⟨.mismatchedCloseTag (String.ofList o.tag.name) (String.ofList name) o.tag.span.start,
        span⟩

/-- The root nodes of a template, with elements nested no deeper than `limit`. -/
def templateNodes (limit : Nat) (source : List Char) : Except TemplateError (List Token) :=
  let (pieces, fault) := piecesFrom (.atStart source)
  growTree limit fault [] [] pieces

end TemplateReader
