import TemplateReader.Proofs.Template.Imports
import TemplateReader.Proofs.Template.Replacement

/-!
# Opaque text

The content of a comment and of an element with raw text is no markup: whatever
else is written there, short of what ends it, the template is read to the same
document but for that content, the imports of that script, and the offsets
behind it.
-/

namespace TemplateReader

/-- One root entry with another in place of a node that it is or holds. -/
inductive RootEntry.Edited (t t' : Token) : RootEntry → RootEntry → Prop
  | markup {s s' : Token} (h : Token.Edited t t' s s') : Edited t t' (.markup s) (.markup s')
  | script {e e' : Element} (he : t = .element e) (he' : t' = .element e') :
    Edited t t' (.script e.rawBlock e.scriptImports) (.script e'.rawBlock e'.scriptImports)
  | style {e e' : Element} (he : t = .element e) (he' : t' = .element e') :
    Edited t t' (.style e.rawBlock) (.style e'.rawBlock)

/-- Everything at the root of a document, and every import, ends at an offset or in front of it. -/
structure Document.EndsBy (d : Document) (k : Nat) : Prop where
  components : ∀ e ∈ d.components, e.span.stop ≤ k
  scripts : ∀ block ∈ d.scripts, block.span.stop ≤ k
  styles : ∀ block ∈ d.styles, block.span.stop ≤ k
  markup : ∀ s ∈ d.markup, s.span.stop ≤ k
  imports : ∀ i ∈ d.imports, i.span.stop ≤ k

/-- Two documents that differ in one root entry, by another in place of a node that it is or holds.
What ends in front of the node is the same, and everything else is behind it and stands at the same
distance from their ends. -/
inductive Document.Edited (t t' : Token) : Document → Document → Prop
  | mk {before behind : Document} {entry entry' : RootEntry}
    (hbefore : before.EndsBy t.span.start) (h : RootEntry.Edited t t' entry entry') :
    Edited t t' (before.append (entry.document.append (behind.move (· + t.span.stop))))
      (before.append (entry'.document.append (behind.move (· + t'.span.stop))))

section

variable {t t' s s' : Token} {roots roots' : List Token}

/-- An edited root node is for the same as before. -/
theorem Token.Edited.rootEntry (h : Token.Edited t t' s s')
    (hentry : RootEntry.Edited t t' t.rootEntry t'.rootEntry) :
    RootEntry.Edited t t' s.rootEntry s'.rootEntry := by
  cases h with
  | here => exact hentry
  | @inside name attributes start stop before behind s s' hvoid hraw hbefore h =>
    have hmarkup (children : List Token) (span : Span) :
        Element.rootEntry ⟨name, attributes, children, span⟩ =
          .markup (.element ⟨name, attributes, children, span⟩) :=
      Element.rootEntry_eq_markup hvoid hraw
    rw [Token.rootEntry, Token.rootEntry, hmarkup, hmarkup]
    exact .markup (.inside hvoid hraw hbefore h)

/-- Root nodes that end by an offset, and whose imports end with them, make a document that does. -/
theorem Document.endsBy_ofNodes {k : Nat} (hstop : ∀ s ∈ roots, s.span.stop ≤ k)
    (himports : ∀ s ∈ roots, ∀ i ∈ s.rootEntry.imports, i.span.stop ≤ s.span.stop) :
    (Document.ofNodes roots).EndsBy k where
  components e he := hstop _ (mem_roots_of_mem_components he)
  scripts block hblock := by
    obtain ⟨e, he, -, rfl⟩ := exists_of_mem_scripts hblock
    exact hstop _ he
  styles block hblock := by
    obtain ⟨e, he, -, rfl⟩ := exists_of_mem_styles hblock
    exact hstop _ he
  markup s hs := hstop _ (mem_roots_of_mem_markup hs)
  imports i hi := by
    rw [ofNodes, List.flatMap_map, List.mem_flatMap] at hi
    obtain ⟨s, hs, hi⟩ := hi
    exact Nat.le_trans (himports s hs i hi) (hstop s hs)

/-- Edited root nodes make edited documents, as long as the imports end with their nodes. -/
theorem EditedNodes.document (h : EditedNodes t t' roots roots')
    (himports : ∀ s ∈ roots, ∀ i ∈ s.rootEntry.imports, i.span.stop ≤ s.span.stop)
    (hentry : RootEntry.Edited t t' t.rootEntry t'.rootEntry) :
    Document.Edited t t' (Document.ofNodes roots) (Document.ofNodes roots') := by
  cases h with
  | mk hbefore h =>
    rw [Document.ofNodes_append, Document.ofNodes_append, Document.ofNodes_cons,
      Document.ofNodes_cons, Document.ofNodes_shift, Document.ofNodes_shift]
    have hfront := Document.endsBy_ofNodes hbefore fun s hs =>
      himports s (List.mem_append_left _ hs)
    exact .mk hfront (h.rootEntry hentry)

end

/-- The text of a comment. -/
def commentText (inner : List Char) : List Char := commentOpening ++ inner ++ commentClosing

/-- The element with raw text between its opening tag and a close tag. -/
def Element.withRawText (e : Element) (inner content closing : List Char) : Element :=
  { e with
    children := if content.isEmpty then [] else
      [.literal (.ofText (e.span.start + byteSize (tagText inner)) content)]
    span := ⟨e.span.start, e.span.start + byteSize (tagText inner ++ (content ++ closing))⟩ }

/-- The element is an opening tag that closes itself. -/
def Element.ClosesItself (source : List Char) (e : Element) : Prop :=
  ∃ inner, e.OpensWith inner true ∧ e.span.slice? source = some (tagText inner)

/-- A comment may hold anything but what ends a comment. -/
def Document.OpaqueComment (source : List Char) (limit : Nat) (d : Document) (l : Literal) : Prop :=
  ∃ before old after, source = before ++ (commentText old ++ after) ∧
    l = .ofText (byteSize before) (commentText old) ∧
    ∀ new, ¬commentClosing <:+: new →
      ∃ d', Document.ofText (before ++ (commentText new ++ after)) limit = .ok d' ∧
        d.Edited (.literal l) (.literal (.ofText (byteSize before) (commentText new))) d'

/-- An element with raw text may hold anything but its close tag. -/
def Document.OpaqueElement (source : List Char) (limit : Nat) (d : Document) (e : Element) : Prop :=
  ∃ before inner old closing after,
    source = before ++ (tagText inner ++ (old ++ closing) ++ after) ∧
    e.span.start = byteSize before ∧ e.OpensWith inner false ∧ IsCloseTag e.name.toList closing ∧
    e = e.withRawText inner old closing ∧
    ∀ new, (∀ tag, IsCloseTag e.name.toList tag → ¬tag <:+: new) →
      ∃ d',
        Document.ofText (before ++ (tagText inner ++ (new ++ closing) ++ after)) limit = .ok d' ∧
        d.Edited (.element e) (.element (e.withRawText inner new closing)) d'

/-- The nodes of a document that are read as markup, at every depth. -/
def Document.markupNodes (d : Document) : List Token :=
  markupNodesOf (d.components.map Token.element ++ d.markup)

/-- In a document every comment and every element with raw text, at any depth, is opaque, and so is
every script and style at its root, unless it is a tag that closes itself. -/
structure Document.Opaque (source : List Char) (limit : Nat) (d : Document) : Prop where
  comment : ∀ l, Token.literal l ∈ d.markupNodes → commentOpening <+: l.raw.toList →
    d.OpaqueComment source limit l
  element : ∀ e, Token.element e ∈ d.markupNodes → isRawTextElement e.name.toList = true →
    e.ClosesItself source ∨ d.OpaqueElement source limit e
  block : ∀ block ∈ d.scripts ++ d.styles, ∃ e : Element, block = e.rawBlock ∧
    (e.ClosesItself source ∨ d.OpaqueElement source limit e)

section

variable {limit depth k : Nat} {x source : List Char} {t : Token} {nodes : List Token} {e : Element}
  {l : Literal}

/-- A construct that begins as a comment is one: a declaration does not begin with two dashes. -/
theorem Construct.exists_comment {p : Piece} (h : Construct k x p) (hp : p = .node (.literal l))
    (hx : commentOpening <+: x) : ∃ inner, x = commentText inner := by
  cases h with
  | @comment inner hinner => exact ⟨inner, rfl⟩
  | @declaration inner hfills hinner =>
    refine absurd ?_ hinner
    have hdashes : ['-', '-'] <+: inner ++ ['>'] := by
      simpa only [commentOpening, tagText, List.cons_append, List.cons_prefix_cons, true_and]
        using hx
    rcases inner with _ | ⟨a, _ | ⟨b, tail⟩⟩
    · simp at hdashes
    · simp at hdashes
    · simpa using hdashes
  | program | closeTag | childless | rawText | openTag => cases hp

/-- What begins as a comment is one. -/
theorem NodeText.exists_comment (h : NodeText limit depth k x (.literal l))
    (hl : commentOpening <+: l.raw.toList) :
    ∃ inner, x = commentText inner ∧ l = .ofText k (commentText inner) := by
  have heq := h.literal_eq
  have hx : commentOpening <+: x := by
    rwa [heq, Literal.ofText, String.toList_ofList] at hl
  generalize ht : Token.literal l = t at h
  cases h with
  | plain hplain =>
    have hmark : ['<', '!'] <+: x := (List.prefix_append ['<', '!'] ['-', '-']).trans hx
    exact absurd hplain <| not_isPlain_of_prefix hmark
  | construct hconstruct =>
    obtain ⟨inner, rfl⟩ := hconstruct.exists_comment (congrArg Piece.node ht.symm) hx
    exact ⟨inner, rfl, heq⟩
  | element => cases ht

/-- Other raw text between the same tags is read as the element with that text. -/
theorem Element.construct_withRawText {inner new closing : List Char}
    (hraw : isRawTextElement e.name.toList = true) (hopening : e.OpensWith inner false)
    (hclosing : IsCloseTag e.name.toList closing)
    (hnew : ∀ tag, IsCloseTag e.name.toList tag → ¬tag <:+: new) :
    Construct e.span.start (tagText inner ++ (new ++ closing))
      (.node (.element (e.withRawText inner new closing))) := by
  have h := Construct.rawText hopening (Element.isVoidElement_eq_false hraw) hraw hclosing hnew
  rw [String.ofList_toList] at h
  exact h

/-- An element is for the same whatever its raw text is. -/
theorem Element.rootEntry_withRawText (hraw : isRawTextElement e.name.toList = true)
    (inner content closing : List Char) :
    RootEntry.Edited (.element e) (.element (e.withRawText inner content closing)) e.rootEntry
      (e.withRawText inner content closing).rootEntry := by
  have hentry (e' : Element) (hraw' : isRawTextElement e'.name.toList = true) : e'.rootEntry =
      if e'.isInlineScript then .script e'.rawBlock e'.scriptImports
      else if e'.isNamed "style" then .style e'.rawBlock else .markup (.element e') := by
    rw [rootEntry, if_neg]
    intro hlink
    exact Bool.false_ne_true
      ((isVoidElement_eq_false hraw').symm.trans (isVoidElement_of_isComponentLink hlink))
  have hscript' : (e.withRawText inner content closing).isInlineScript = e.isInlineScript := rfl
  have hstyle' : (e.withRawText inner content closing).isNamed "style" = e.isNamed "style" := rfl
  rw [hentry e hraw, hentry (e.withRawText inner content closing) hraw, hscript', hstyle']
  by_cases hscript : e.isInlineScript = true
  · rw [if_pos hscript, if_pos hscript]
    exact .script rfl rfl
  · rw [if_neg hscript, if_neg hscript]
    by_cases hstyle : e.isNamed "style" = true
    · rw [if_pos hstyle, if_pos hstyle]
      exact .style rfl rfl
    · rw [if_neg hstyle, if_neg hstyle]
      exact .markup .here

/-- The imports of a root node end with it. -/
theorem NodeText.imports_stop_le (h : NodeText limit depth k x t) :
    ∀ i ∈ t.rootEntry.imports, i.span.stop ≤ t.span.stop := by
  intro i hi
  rw [h.stop_eq]
  exact (h.imported.span_of_mem hi).2.2

/-- In the place of a node that is no plain text another may stand that is for the same. -/
theorem Reads.exists_edited (h : Reads limit 0 0 source nodes) (ht : t ∈ markupNodesOf nodes)
    (hclosed : IsClosed t) :
    ∃ depth before x after, source = before ++ (x ++ after) ∧
      NodeText limit depth (byteSize before) x t ∧
      ∀ x' t', Construct (byteSize before) x' (.node t') →
        RootEntry.Edited t t' t.rootEntry t'.rootEntry →
        ∃ d', Document.ofText (before ++ (x' ++ after)) limit = .ok d' ∧
          (Document.ofNodes (dropRootBlanks nodes)).Edited t t' d' := by
  obtain ⟨depth, before, x, after, rfl, hx, hopens, hreplace⟩ := h.replaceable ht hclosed
  rw [Nat.zero_add] at hx hreplace
  refine ⟨depth, before, x, after, rfl, hx, ?_⟩
  intro x' t' hx' hentry
  have htext' : NodeText limit depth (byteSize before) x' t' := .construct hx'
  obtain ⟨nodes', hreads, hedited, -⟩ := hreplace x' t' htext' hx'.opens
  have hroots := hedited.dropRootBlanks (hx.isBlankText_eq_false hopens)
    (htext'.isBlankText_eq_false hx'.opens)
  have himports (s : Token) (hs : s ∈ dropRootBlanks nodes) :
      ∀ i ∈ s.rootEntry.imports, i.span.stop ≤ s.span.stop := by
    obtain ⟨j, y, hnode⟩ := h.exists_nodeText (dropRootBlanks_subset nodes hs)
    exact hnode.imports_stop_le
  exact ⟨_, Document.ofText_eq_ok_iff.mpr ⟨nodes', hreads, rfl⟩, hroots.document himports hentry⟩

/-- In what is read of a source, a comment can be replaced by another one. -/
theorem Reads.opaqueComment (h : Reads limit 0 0 source nodes)
    (hl : Token.literal l ∈ markupNodesOf nodes) (hcomment : commentOpening <+: l.raw.toList) :
    (Document.ofNodes (dropRootBlanks nodes)).OpaqueComment source limit l := by
  have hclosed : IsClosed (.literal l) :=
    not_isPlain_of_prefix ((List.prefix_append ['<', '!'] ['-', '-']).trans hcomment)
  obtain ⟨depth, before, x, after, rfl, hx, hedited⟩ := h.exists_edited hl hclosed
  obtain ⟨old, rfl, heq⟩ := hx.exists_comment hcomment
  refine ⟨before, old, after, rfl, heq, ?_⟩
  intro new hnew
  exact hedited _ _ (.comment hnew) (.markup .here)

/-- In what is read of a source, the content of a raw-text element can be replaced, unless the
element closes itself. -/
theorem Reads.opaqueElement (h : Reads limit 0 0 source nodes)
    (he : Token.element e ∈ markupNodesOf nodes) (hraw : isRawTextElement e.name.toList = true) :
    e.ClosesItself source ∨
      (Document.ofNodes (dropRootBlanks nodes)).OpaqueElement source limit e := by
  obtain ⟨depth, before, x, after, rfl, hx, hedited⟩ := h.exists_edited he trivial
  have hspan : e.span = ⟨byteSize before, byteSize before + byteSize x⟩ := hx.span_eq
  have hstart : e.span.start = byteSize before := congrArg Span.start hspan
  have hcovers := hx.covers
  cases hcovers with
  | @tag inner closesItself hopening hend hchildren =>
    rw [Element.isVoidElement_eq_false hraw, Bool.or_false] at hend
    subst hend
    refine Or.inl ⟨inner, hopening, ?_⟩
    rw [hspan]
    exact Span.slice?_append before _ after
  | @rawText inner content closing _ hopening hclosing hfirst hchildren =>
    have heq : e = e.withRawText inner content closing := by
      rw [Element.withRawText, ← hchildren, hstart, ← hspan]
      cases e
      rfl
    refine Or.inr ⟨before, inner, content, closing, after, rfl, hstart, hopening, hclosing, heq, ?_⟩
    intro new hnew
    refine hedited _ _ ?_ (Element.rootEntry_withRawText hraw inner new closing)
    rw [← hstart]
    exact Element.construct_withRawText hraw hopening hclosing hnew
  | nested hmarkup =>
    rw [hraw] at hmarkup
    cases hmarkup

end

/-- In every document that is read, comments and raw text are opaque. -/
theorem Document.opaque_of_ofText {source : List Char} {limit : Nat} {d : Document}
    (h : Document.ofText source limit = .ok d) : d.Opaque source limit := by
  obtain ⟨nodes, hreads, rfl⟩ := Document.ofText_eq_ok_iff.mp h
  have hnodes : (Document.ofNodes (dropRootBlanks nodes)).markupNodes ⊆ markupNodesOf nodes := by
    refine markupNodesOf_subset fun t ht => dropRootBlanks_subset nodes ?_
    rcases List.mem_append.mp ht with ht | ht
    · obtain ⟨e, he, rfl⟩ := List.mem_map.mp ht
      exact Document.mem_roots_of_mem_components he
    · exact Document.mem_roots_of_mem_markup ht
  have hroot {e : Element} (he : Token.element e ∈ dropRootBlanks nodes) :
      Token.element e ∈ markupNodesOf nodes :=
    mem_markupNodesOf_iff.mpr ⟨_, dropRootBlanks_subset nodes he, List.mem_cons_self⟩
  refine ⟨?_, ?_, ?_⟩
  · intro l hl hcomment
    exact hreads.opaqueComment (hnodes hl) hcomment
  · intro e he hraw
    exact hreads.opaqueElement (hnodes he) hraw
  · intro block hblock
    rcases List.mem_append.mp hblock with hblock | hblock
    · obtain ⟨e, he, hentry, heq⟩ := Document.exists_of_mem_scripts hblock
      exact ⟨e, heq, hreads.opaqueElement (hroot he) (Element.isRawTextElement_of_script hentry)⟩
    · obtain ⟨e, he, hentry, heq⟩ := Document.exists_of_mem_styles hblock
      exact ⟨e, heq, hreads.opaqueElement (hroot he) (Element.isRawTextElement_of_style hentry)⟩

private def enclosedSource : List Char :=
  "<!--a--><ul>\n<li><!--é--><script>x</script></li></ul>".toList ++
    "<script/><script>import 'e';</script>{p}<style></style>".toList

/-- Comments, raw text at two depths and blocks, with and without content, are opaque. -/
theorem Document.opaque_enclosed :
    ∃ d, Document.ofText enclosedSource 2 = .ok d ∧
      d.markupNodes.map Token.kind = ["Literal", "MarkupExpression", "MarkupExpression", "Literal",
        "MarkupExpression", "ProgramExpression"] ∧
      (d.scripts ++ d.styles).map RawBlock.source = ["", "import 'e';", ""] ∧
      d.Opaque enclosedSource 2 := by
  have hread : (Document.ofText enclosedSource 2).toOption.any (fun d =>
      decide (d.markupNodes.map Token.kind = ["Literal", "MarkupExpression", "MarkupExpression",
        "Literal", "MarkupExpression", "ProgramExpression"] ∧
        (d.scripts ++ d.styles).map RawBlock.source = ["", "import 'e';", ""])) = true := by
    decide +kernel
  obtain ⟨d, hd, htest⟩ := Document.exists_of_any hread
  obtain ⟨hkinds, hblocks⟩ := of_decide_eq_true htest
  exact ⟨d, hd, hkinds, hblocks, Document.opaque_of_ofText hd⟩

end TemplateReader
