import TemplateReader.Template.Document

/-!
# Tokens at other offsets

Where a token stands is recorded in its spans alone. `move f` sends every
offset of a token tree through `f` and keeps all else, so a text that is read
behind `k` more bytes yields the tokens moved by `(· + k)`. Sorting the root
nodes of a template and leaving out its layout do not look at offsets.
-/

namespace TemplateReader

variable (f : Nat → Nat)

/-- The span whose ends are sent through `f`. -/
def Span.move (s : Span) : Span := ⟨f s.start, f s.stop⟩

/-- The same literal at other offsets. -/
def Literal.move (l : Literal) : Literal := { l with span := l.span.move f }

/-- The same name at other offsets. -/
def Identifier.move (i : Identifier) : Identifier := { i with span := i.span.move f }

/-- The same program at other offsets. -/
def Program.move (p : Program) : Program := { p with span := p.span.move f }

/-- The same import at other offsets. -/
def Import.move (i : Import) : Import := { i with span := i.span.move f }

mutual

/-- The same token at other offsets. -/
def Token.move (f : Nat → Nat) : Token → Token
  | .literal l => .literal (l.move f)
  | .identifier i => .identifier (i.move f)
  | .object o => .object (o.move f)
  | .property p => .property (p.move f)
  | .array elements span => .array (moveTokens f elements) (span.move f)
  | .program p => .program (p.move f)
  | .element e => .element (e.move f)
  | .importDeclaration i => .importDeclaration (i.move f)

/-- The same property at other offsets. -/
def Property.move (f : Nat → Nat) : Property → Property
  | ⟨key, value, form, span⟩ => ⟨key.map (Identifier.move f), value.move f, form, span.move f⟩

/-- The same properties at other offsets. -/
def Object.move (f : Nat → Nat) : Object → Object
  | ⟨properties, span⟩ => ⟨moveProperties f properties, span.move f⟩

/-- The same element at other offsets. -/
def Element.move (f : Nat → Nat) : Element → Element
  | ⟨name, attributes, children, span⟩ =>
    ⟨name, attributes.move f, moveTokens f children, span.move f⟩

/-- The same tokens at other offsets. -/
def moveTokens (f : Nat → Nat) : List Token → List Token
  | [] => []
  | t :: ts => t.move f :: moveTokens f ts

/-- The same properties at other offsets, one by one. -/
def moveProperties (f : Nat → Nat) : List Property → List Property
  | [] => []
  | p :: ps => p.move f :: moveProperties f ps

end

/-- The same block at other offsets. -/
def RawBlock.move (b : RawBlock) : RawBlock :=
  { b with attributes := b.attributes.move f, span := b.span.move f }

/-- The same document at other offsets. -/
def Document.move (d : Document) : Document where
  components := d.components.map (Element.move f)
  scripts := d.scripts.map (RawBlock.move f)
  styles := d.styles.map (RawBlock.move f)
  markup := d.markup.map (Token.move f)
  imports := d.imports.map (Import.move f)

/-- The same opening tag at other offsets. -/
def OpenTag.move (t : OpenTag) : OpenTag :=
  { t with attributes := t.attributes.move f, span := t.span.move f }

/-- The same piece at other offsets. -/
def Piece.move : Piece → Piece
  | .node t => .node (t.move f)
  | .openTag t => .openTag (t.move f)
  | .closeTag name span => .closeTag name (span.move f)

/-- The same open element at other offsets. -/
def OpenElement.move (o : OpenElement) : OpenElement :=
  ⟨o.tag.move f, o.before.map (Token.move f)⟩

/-- The same cause, with the place of the opening tag that it may name at another offset. -/
def TemplateFault.move : TemplateFault → TemplateFault
  | .mismatchedCloseTag openName closeName openedAt =>
    .mismatchedCloseTag openName closeName (f openedAt)
  | fault => fault

/-- The same error at other offsets. -/
def TemplateError.move (e : TemplateError) : TemplateError := ⟨e.fault.move f, e.span.move f⟩

/-- The same report at other offsets. -/
def Diagnostic.move (d : Diagnostic) : Diagnostic :=
  { d with
    span := d.span.move f
    related := d.related.map fun place => { place with offset := f place.offset } }

/-- To move tokens is to move each of them. -/
theorem moveTokens_eq_map (ts : List Token) : moveTokens f ts = ts.map (Token.move f) := by
  induction ts with
  | nil => rfl
  | cons t ts ih => rw [moveTokens, ih, List.map_cons]

/-- To move properties is to move each of them. -/
theorem moveProperties_eq_map (ps : List Property) :
    moveProperties f ps = ps.map (Property.move f) := by
  induction ps with
  | nil => rfl
  | cons p ps ih => rw [moveProperties, ih, List.map_cons]

@[simp] theorem Element.name_move (e : Element) : (e.move f).name = e.name := by
  cases e; rfl

@[simp] theorem Element.attributes_move (e : Element) :
    (e.move f).attributes = e.attributes.move f := by
  cases e; rfl

@[simp] theorem Element.children_move (e : Element) :
    (e.move f).children = e.children.map (Token.move f) := by
  cases e
  exact moveTokens_eq_map f _

@[simp] theorem Element.span_move (e : Element) : (e.move f).span = e.span.move f := by
  cases e; rfl

@[simp] theorem Property.key_move (p : Property) :
    (p.move f).key = p.key.map (Identifier.move f) := by
  cases p; rfl

@[simp] theorem Property.value_move (p : Property) : (p.move f).value = p.value.move f := by
  cases p; rfl

@[simp] theorem Property.span_move (p : Property) : (p.move f).span = p.span.move f := by
  cases p; rfl

@[simp] theorem Object.properties_move (o : Object) :
    (o.move f).properties = o.properties.map (Property.move f) := by
  cases o
  exact moveProperties_eq_map f _

@[simp] theorem Token.span_move (t : Token) : (t.move f).span = t.span.move f := by
  cases t with
  | object o => cases o; rfl
  | property p => cases p; rfl
  | element e => cases e; rfl
  | literal | identifier | array | program | importDeclaration => rfl

/-- The report of an error follows it to its new offsets and says the same there. -/
theorem TemplateError.diagnostic_move (e : TemplateError) :
    (e.move f).diagnostic = e.diagnostic.move f := by
  obtain ⟨fault, span⟩ := e
  cases fault <;> rfl

@[simp] theorem isBlankText_move (t : Token) : isBlankText (t.move f) = isBlankText t := by
  cases t <;> rfl

@[simp] theorem hasLineFeed_move (t : Token) : hasLineFeed (t.move f) = hasLineFeed t := by
  cases t <;> rfl

/-- Layout is recognised by what the nodes say, not by where they stand. -/
theorem dropLayout_move (ts : List Token) :
    dropLayout (ts.map (Token.move f)) = (dropLayout ts).map (Token.move f) := by
  unfold dropLayout
  rw [List.length_map]
  split
  · rfl
  · rw [List.filter_map]
    exact congrArg _ (List.filter_congr fun t _ => by simp)

/-- So are the blanks between the root nodes. -/
theorem dropRootBlanks_move (ts : List Token) :
    dropRootBlanks (ts.map (Token.move f)) = (dropRootBlanks ts).map (Token.move f) := by
  unfold dropRootBlanks
  rw [List.filter_map]
  exact congrArg _ (List.filter_congr fun t _ => by simp)

/-- An element is closed around its children wherever they all stand. -/
theorem OpenElement.close_move (o : OpenElement) (children : List Token) (stop : Nat) :
    (o.move f).close (children.map (Token.move f)) (f stop) = (o.close children stop).move f := by
  simp only [OpenElement.close, OpenElement.move, OpenTag.move, Token.move, Element.move,
    Span.move, dropLayout_move, moveTokens_eq_map]

/-- Attributes are found by their names alone. -/
theorem Object.get?_move (o : Object) (name : String) :
    (o.move f).get? name = (o.get? name).map (Property.move f) := by
  unfold Object.get?
  rw [Object.properties_move, List.find?_map]
  refine congrArg _ (congrArg (List.find? · _) (funext fun p => ?_))
  rw [Function.comp_apply, Property.key_move]
  cases p.key <;> rfl

/-- The text of an attribute does not depend on where it stands. -/
theorem Object.string?_move (o : Object) (name : String) :
    (o.move f).string? name = o.string? name := by
  unfold Object.string?
  rw [Object.get?_move]
  cases o.get? name with
  | none => rfl
  | some p =>
    rw [Option.map_some, Option.map_some, Option.map_some, Property.value_move]
    cases p.value with
    | literal l =>
      obtain ⟨value, raw, escape, span⟩ := l
      cases value <;> rfl
    | identifier | object | property | array | program | element | importDeclaration => rfl

/-- A moved element has the name that it had. -/
theorem Element.isNamed_move (e : Element) (name : String) :
    (e.move f).isNamed name = e.isNamed name := by
  rw [Element.isNamed, Element.name_move, ← Element.isNamed]

/-- A moved element links a component exactly if it did. -/
theorem Element.isComponentLink_move (e : Element) :
    (e.move f).isComponentLink = e.isComponentLink := by
  simp only [Element.isComponentLink, Element.isNamed_move, Element.attributes_move,
    Object.string?_move]

/-- A moved element is an inline script exactly if it was. -/
theorem Element.isInlineScript_move (e : Element) :
    (e.move f).isInlineScript = e.isInlineScript := by
  simp only [Element.isInlineScript, Element.isNamed_move, Element.attributes_move,
    Object.get?_move, Option.isNone_map]

/-- A moved element has the raw content that it had. -/
theorem Element.rawContent_move (e : Element) : (e.move f).rawContent = e.rawContent := by
  unfold Element.rawContent
  rw [Element.children_move]
  cases e.children with
  | nil => rfl
  | cons t ts => cases t <;> rfl

/-- The block of a moved element is the block of the element, moved. -/
theorem Element.rawBlock_move (e : Element) : (e.move f).rawBlock = e.rawBlock.move f := by
  simp only [Element.rawBlock, RawBlock.move, Element.name_move, Element.attributes_move,
    Element.rawContent_move, Element.span_move]

end TemplateReader
