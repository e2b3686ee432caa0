import TemplateReader.Proofs.Template.Attributes
import TemplateReader.Proofs.Template.Lossless

/-!
# Tokens and the elements around them

Every token of a tree stands inside the elements above it: attributes and
children inside their element, keys and values inside their property. For the
nodes of a template the number of these elements is the depth at which the node
was read, so the nesting limit bounds it. What belongs to a tag, its attributes
and the text of raw text, stands inside one element more.
-/

namespace TemplateReader

/-- A token stands in a tree, inside the elements `above`, innermost first. -/
inductive Token.Within (t : Token) : List Element → Token → Prop
  | refl : t.Within [] t
  | attributes {e : Element} {above : List Element} (h : t.Within above (.object e.attributes)) :
    t.Within (above ++ [e]) (.element e)
  | child {e : Element} {s : Token} {above : List Element} (hs : s ∈ e.children)
    (h : t.Within above s) : t.Within (above ++ [e]) (.element e)
  | property {o : Object} {p : Property} {above : List Element} (hp : p ∈ o.properties)
    (h : t.Within above (.property p)) : t.Within above (.object o)
  | key {p : Property} {key : Identifier} {above : List Element} (hkey : p.key = some key)
    (h : t.Within above (.identifier key)) : t.Within above (.property p)
  | value {p : Property} {above : List Element} (h : t.Within above p.value) :
    t.Within above (.property p)
  | member {elements : List Token} {span : Span} {s : Token} {above : List Element}
    (hs : s ∈ elements) (h : t.Within above s) : t.Within above (.array elements span)

/-- A token of a document stands inside the elements `above`, innermost first. -/
inductive Document.Within (d : Document) (above : List Element) (t : Token) : Prop
  | component {e : Element} (he : e ∈ d.components) (h : t.Within above (.element e)) :
    d.Within above t
  | block {block : RawBlock} (hblock : block ∈ d.scripts ++ d.styles)
    (h : t.Within above (.object block.attributes)) : d.Within above t
  | markup {s : Token} (hs : s ∈ d.markup) (h : t.Within above s) : d.Within above t
  | imported {i : Import} (hi : i ∈ d.imports) (h : t.Within above (.importDeclaration i)) :
    d.Within above t

/-- What belongs to the tag of an element: an attribute, or the text of raw text. -/
def Element.HasDetail (e : Element) (t : Token) : Prop :=
  t.Within [] (.object e.attributes) ∨
    (isRawTextElement e.name.toList = true ∧ t ∈ e.children)

/-- The values of an object are literals and embedded expressions. -/
def Object.IsFlat (o : Object) : Prop :=
  ∀ p ∈ o.properties, (∃ l, p.value = .literal l) ∨ ∃ q, p.value = .program q

/-- Inside a flat object there is no element, and nothing inside one. -/
theorem Object.IsFlat.within {o : Object} (ho : o.IsFlat) {above : List Element} {t : Token}
    (h : t.Within above (.object o)) : above = [] ∧ ∀ e, t ≠ .element e := by
  cases h with
  | refl => exact ⟨rfl, nofun⟩
  | @property _ p _ hp h =>
    cases h with
    | refl => exact ⟨rfl, nofun⟩
    | key _ h =>
      cases h
      exact ⟨rfl, nofun⟩
    | value h =>
      rcases ho p hp with ⟨l, hl⟩ | ⟨q, hq⟩
      · rw [hl] at h
        cases h
        exact ⟨rfl, nofun⟩
      · rw [hq] at h
        cases h
        exact ⟨rfl, nofun⟩

/-- The value of an attribute in braces is a program. -/
theorem bracedAttribute_value (span : Span) (inner : List Char) :
    ∃ q, (bracedAttribute span inner).value = .program q := by
  unfold bracedAttribute
  dsimp only
  split <;> exact ⟨_, rfl⟩

/-- The value of an attribute is a literal or a program. -/
theorem AttributeText.value_eq {k : Nat} {rest x : List Char} {p : Property}
    (h : AttributeText k rest x p) : (∃ l, p.value = .literal l) ∨ ∃ q, p.value = .program q := by
  cases h with
  | braced => exact Or.inr (bracedAttribute_value _ _)
  | flag => exact Or.inl ⟨_, rfl⟩
  | valued _ _ _ hvalue =>
    cases hvalue with
    | quoted | bare => exact Or.inl ⟨_, rfl⟩
    | braced => exact Or.inr ⟨_, rfl⟩

/-- The values of attributes are literals and programs. -/
theorem AttributesText.value_eq {k : Nat} {text : List Char} {properties : List Property}
    (h : AttributesText k text properties) :
    ∀ p ∈ properties, (∃ l, p.value = .literal l) ∨ ∃ q, p.value = .program q := by
  induction h with
  | nil => exact nofun
  | skip _ _ ih => exact ih
  | cons hx _ ih => exact List.forall_mem_cons.mpr ⟨hx.value_eq, ih⟩

/-- The attributes of a tag hold no tokens of their own but keys and values. -/
theorem IsOpeningTag.isFlat {k : Nat} {inner : List Char} {tag : OpenTag} {closesItself : Bool}
    (h : IsOpeningTag k inner tag closesItself) : tag.attributes.IsFlat := by
  obtain ⟨properties, hread, hattributes⟩ := h.attributes
  rw [Object.IsFlat, hattributes, attributeObject_properties]
  exact (attributesText_of_readAttributes hread).value_eq

section

variable {limit depth k : Nat} {x text : List Char} {s t : Token} {nodes : List Token}
  {e : Element} {above : List Element}

/-- What stands inside a node that is a construct is the node or a detail of it. -/
theorem Construct.within {p : Piece} (h : Construct k x p) (hp : p = .node s)
    (ht : t.Within above s) :
    (above = [] ∧ t = s) ∨
      ∃ e, s = .element e ∧ above = [e] ∧ e.HasDetail t ∧ ∀ e', t ≠ .element e' := by
  have detail {e : Element} (hflat : e.attributes.IsFlat)
      (hchildren : e.children = [] ∨ isRawTextElement e.name.toList = true ∧
        ∃ l, e.children = [.literal l]) (ht : t.Within above (.element e)) :
      (above = [] ∧ t = .element e) ∨
        ∃ e', Token.element e = .element e' ∧ above = [e'] ∧ e'.HasDetail t ∧
          ∀ e', t ≠ .element e' := by
    cases ht with
    | refl => exact Or.inl ⟨rfl, rfl⟩
    | attributes h =>
      obtain ⟨rfl, hne⟩ := hflat.within h
      exact Or.inr ⟨e, rfl, rfl, Or.inl h, hne⟩
    | child hs h =>
      rcases hchildren with hnil | ⟨hraw, l, hl⟩
      · rw [hnil] at hs
        cases hs
      · rw [hl, List.mem_singleton] at hs
        subst hs
        cases h
        exact Or.inr ⟨e, rfl, rfl, Or.inr ⟨hraw, hl ▸ List.mem_singleton_self _⟩, nofun⟩
  cases h with
  | comment | declaration | program =>
    cases hp
    cases ht
    exact Or.inl ⟨rfl, rfl⟩
  | closeTag | openTag => cases hp
  | childless htag =>
    cases hp
    exact detail htag.isFlat (Or.inl rfl) ht
  | @rawText _ content _ tag htag _ hname =>
    cases hp
    refine detail htag.isFlat ?_ ht
    cases content with
    | nil => exact Or.inl rfl
    | cons ch content => exact Or.inr ⟨by rwa [String.toList_ofList], _, rfl⟩

/-- A stretch of the text at offset `k` is one node, read inside `depth` open elements. -/
def HoldsNode (limit depth k : Nat) (text : List Char) (t : Token) : Prop :=
  ∃ before x after, text = before ++ (x ++ after) ∧
    NodeText limit depth (k + byteSize before) x t

/-- How a token stands in a text that is read inside `depth` open elements, `above` it those of the
text: as a node with a stretch of its own, or as a detail of the innermost of these. -/
inductive Sits (limit depth k : Nat) (text : List Char) : List Element → Token → Prop
  | node {above : List Element} {t : Token} (hdepth : depth + above.length ≤ limit)
    (h : HoldsNode limit (depth + above.length) k text t) : Sits limit depth k text above t
  | detail {e : Element} {outer : List Element} {t : Token}
    (hdepth : depth + outer.length ≤ limit)
    (h : HoldsNode limit (depth + outer.length) k text (.element e)) (hdetail : e.HasDetail t)
    (ht : ∀ e', t ≠ .element e') : Sits limit depth k text (e :: outer) t

/-- The text of a node holds it, whatever is behind. -/
theorem NodeText.holdsNode (h : NodeText limit depth k x t) (rest : List Char) :
    HoldsNode limit depth k (x ++ rest) t :=
  ⟨[], x, rest, rfl, h⟩

/-- A text that holds a node holds it behind another text, as far on as that is long. -/
theorem HoldsNode.append_left (h : HoldsNode limit depth (k + byteSize x) text t) :
    HoldsNode limit depth k (x ++ text) t := by
  obtain ⟨before, y, after, rfl, hy⟩ := h
  refine ⟨x ++ before, y, after, by rw [List.append_assoc], ?_⟩
  rwa [byteSize_append, ← Nat.add_assoc]

/-- A text that holds a node holds it with another text behind. -/
theorem HoldsNode.append_right (h : HoldsNode limit depth k text t) (rest : List Char) :
    HoldsNode limit depth k (text ++ rest) t := by
  obtain ⟨before, y, after, rfl, hy⟩ := h
  exact ⟨before, y, after ++ rest, by simp only [List.append_assoc], hy⟩

/-- What stands in a text stands in it behind another text, inside the same elements. -/
theorem Sits.append_left (h : Sits limit depth (k + byteSize x) text above t) :
    Sits limit depth k (x ++ text) above t := by
  cases h with
  | node hdepth h => exact .node hdepth h.append_left
  | detail hdepth h hdetail ht => exact .detail hdepth h.append_left hdetail ht

/-- Inside the element around a text there is one element more above its tokens. -/
theorem Sits.inside (h : Sits limit (depth + 1) k text above t) (e : Element) (rest : List Char) :
    Sits limit depth k (text ++ rest) (above ++ [e]) t := by
  have hlength (elements : List Element) :
      depth + (elements ++ [e]).length = depth + 1 + elements.length := by
    rw [List.length_append, List.length_singleton]
    omega
  cases h with
  | node hdepth h =>
    rw [← hlength] at hdepth h
    exact .node hdepth (h.append_right rest)
  | detail hdepth h hdetail ht =>
    rw [← hlength] at hdepth h
    exact .detail hdepth (h.append_right rest) hdetail ht

/-- A token that stands in a node stands in its text, the elements above it those of the node. -/
theorem Construct.sits (h : Construct k x (.node s)) (hdepth : depth ≤ limit)
    (ht : t.Within above s) (rest : List Char) : Sits limit depth k (x ++ rest) above t := by
  have hnode : NodeText limit depth k x s := .construct h
  rcases h.within rfl ht with ⟨rfl, rfl⟩ | ⟨e, rfl, rfl, hdetail, hne⟩
  · exact .node hdepth (hnode.holdsNode rest)
  · exact .detail hdepth (hnode.holdsNode rest) hdetail hne

/-- Every token that stands in the nodes of a text stands in the text. -/
theorem Reads.sits (h : Reads limit depth k text nodes) (hdepth : depth ≤ limit) (hs : s ∈ nodes)
    (ht : t.Within above s) : Sits limit depth k text above t := by
  induction h generalizing s above with
  | nil => cases hs
  | text hx hstops hrest ih =>
    rcases List.mem_cons.mp hs with rfl | hs
    · cases ht
      exact .node hdepth (NodeText.holdsNode (.plain hx) _)
    · exact (ih hdepth hs ht).append_left
  | node hx hrest ih =>
    rcases List.mem_cons.mp hs with rfl | hs
    · exact hx.sits hdepth ht _
    · exact (ih hdepth hs ht).append_left
  | @element depth k opening content closing rest name tag span children nodes hlt hopening hcontent
      hclosing hname hrest ihcontent ihrest =>
    rcases List.mem_cons.mp hs with rfl | hs
    · have hnode : HoldsNode limit depth k (opening ++ (content ++ (closing ++ rest)))
          (OpenElement.close ⟨tag, []⟩ children span.stop) := by
        have hwhole := NodeText.holdsNode (.element hlt hopening hcontent hclosing hname) rest
        simpa only [List.append_assoc] using hwhole
      cases ht with
      | refl => exact .node hdepth hnode
      | attributes h =>
        obtain ⟨inner, -, htag, -, -⟩ := hopening.openTag_eq
        obtain ⟨rfl, hne⟩ := htag.isFlat.within h
        exact .detail hdepth hnode (Or.inl h) hne
      | child hs h =>
        exact ((ihcontent hlt (dropLayout_subset _ hs) h).inside _ _).append_left
    · have hsits := (ihrest hdepth hs ht).append_left
      simpa only [List.append_assoc] using hsits

/-- A node that holds an element is not blank text. -/
theorem isBlankText_of_within (h : (Token.element e).Within above s) :
    isBlankText s = false := by
  cases s with
  | literal => cases h
  | identifier | object | property | array | program | element | importDeclaration => rfl

/-- The attributes of an element are literals and embedded expressions. -/
theorem NodeText.isFlat (h : NodeText limit depth k x (.element e)) : e.attributes.IsFlat := by
  cases h.covers with
  | tag hopens | rawText _ hopens | nested _ hopens => exact hopens.isFlat

/-- Inside an element with raw text there is no other element. -/
theorem NodeText.eq_of_within {outer : Element}
    (h : NodeText limit depth k x (.element outer))
    (hraw : isRawTextElement outer.name.toList = true)
    (hwithin : (Token.element e).Within above (.element outer)) : e = outer := by
  cases hwithin with
  | refl => rfl
  | attributes hwithin => exact absurd rfl ((h.isFlat.within hwithin).2 e)
  | child hs hwithin =>
    cases h.covers with
    | tag _ _ hchildren =>
      rw [hchildren] at hs
      cases hs
    | rawText _ _ _ _ hchildren =>
      rw [hchildren] at hs
      split at hs
      · cases hs
      · obtain rfl := List.mem_singleton.mp hs
        cases hwithin
    | nested hraw' =>
      rw [hraw] at hraw'
      cases hraw'

/-- What stands inside elements of a document, or is an element, stands in a node of its text. -/
theorem Document.Within.exists_node
    (h : (Document.ofNodes (dropRootBlanks nodes)).Within above t)
    (hreads : Reads limit 0 0 text nodes) :
    (above = [] ∧ ∀ e, t ≠ .element e) ∨ ∃ s ∈ nodes, t.Within above s := by
  have flat {e : Element} (he : Token.element e ∈ dropRootBlanks nodes)
      (hwithin : t.Within above (.object e.attributes)) : above = [] ∧ ∀ e, t ≠ .element e := by
    obtain ⟨_, _, hnode⟩ := hreads.exists_nodeText (dropRootBlanks_subset _ he)
    exact hnode.isFlat.within hwithin
  cases h with
  | component he hwithin =>
    exact Or.inr ⟨_, dropRootBlanks_subset _ (mem_roots_of_mem_components he), hwithin⟩
  | block hblock hwithin =>
    refine Or.inl ?_
    rcases List.mem_append.mp hblock with hblock | hblock
    · obtain ⟨e, he, -, rfl⟩ := exists_of_mem_scripts hblock
      exact flat he hwithin
    · obtain ⟨e, he, -, rfl⟩ := exists_of_mem_styles hblock
      exact flat he hwithin
  | markup hs hwithin =>
    exact Or.inr ⟨_, dropRootBlanks_subset _ (mem_roots_of_mem_markup hs), hwithin⟩
  | imported _ hwithin =>
    cases hwithin
    exact Or.inl ⟨rfl, nofun⟩

/-- An element without raw text stands in the document as it does in the nodes of the text. -/
theorem Document.within_of_mem (hreads : Reads limit 0 0 text nodes)
    (hraw : isRawTextElement e.name.toList = false) (hs : s ∈ nodes)
    (hwithin : (Token.element e).Within above s) :
    (Document.ofNodes (dropRootBlanks nodes)).Within above (.element e) := by
  have hroot : s ∈ dropRootBlanks nodes := by
    rw [dropRootBlanks, List.mem_filter, isBlankText_of_within hwithin]
    exact ⟨hs, rfl⟩
  obtain ⟨_, _, hnode⟩ := hreads.exists_nodeText hs
  have hnoRaw : ¬(∃ e', s = .element e' ∧ isRawTextElement e'.name.toList = true) := by
    rintro ⟨e', rfl, hraw'⟩
    obtain rfl := hnode.eq_of_within hraw' hwithin
    rw [hraw] at hraw'
    cases hraw'
  have hof := s.rootEntry_isOf
  cases hentry : s.rootEntry with
  | component e' =>
    rw [hentry] at hof
    obtain rfl : s = .element e' := hof
    exact .component (mem_components_of_mem_roots hroot hentry) hwithin
  | script block imports =>
    rw [hentry] at hof
    obtain ⟨e', rfl, -, -⟩ := hof
    exact absurd ⟨e', rfl, Element.isRawTextElement_of_script hentry⟩ hnoRaw
  | style block =>
    rw [hentry] at hof
    obtain ⟨e', rfl, -⟩ := hof
    exact absurd ⟨e', rfl, Element.isRawTextElement_of_style hentry⟩ hnoRaw
  | markup s' =>
    rw [hentry] at hof
    obtain rfl : s' = s := hof
    exact .markup (mem_markup_of_mem_roots hroot hentry) hwithin

end

end TemplateReader
