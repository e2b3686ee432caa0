import TemplateReader.Proofs.Template.Tiling

/-!
# Losslessness

Nothing of a template is lost in its document but blanks. The root entries, put
in order, tile the source up to blank stretches. Each element covers its slice
of the source: with its opening tag alone, with its raw text between two tags,
or with two tags around a content that its children tile up to layout. Texts
and expressions say what stands in their slices.
-/

namespace TemplateReader

/-- A stretch that layout may leave uncovered: nothing, or blanks with a line feed among them. -/
def IsLayout (text : List Char) : Prop :=
  text = [] ∨ (isBlank text = true ∧ '\n' ∈ text)

/-- Two texts of layout one behind the other are layout. -/
theorem IsLayout.append {a b : List Char} (ha : IsLayout a) (hb : IsLayout b) :
    IsLayout (a ++ b) := by
  rcases ha with rfl | ⟨hblank, hfeed⟩
  · exact hb
  · rcases hb with rfl | ⟨hblank', -⟩
    · rw [List.append_nil]
      exact Or.inr ⟨hblank, hfeed⟩
    · refine Or.inr ⟨?_, List.mem_append_left b hfeed⟩
      rw [isBlank, List.all_append, Bool.and_eq_true]
      exact ⟨hblank, hblank'⟩

/-- The tag around `inner` at the start of an element is an opening tag with the element's name and
attributes. -/
def Element.OpensWith (e : Element) (inner : List Char) (closesItself : Bool) : Prop :=
  IsOpeningTag e.span.start inner
    ⟨e.name.toList, e.attributes, ⟨e.span.start, e.span.start + byteSize (tagText inner)⟩⟩
    closesItself

/-- How an element covers a text: by its opening tag alone; by its raw text between the opening tag
and the first close tag of its name; or by children that lie in order between the opening tag and a
close tag of its name and leave only layout uncovered. -/
inductive Element.Covers (e : Element) : List Char → Prop
  | tag {inner : List Char} {closesItself : Bool} (hopening : e.OpensWith inner closesItself)
    (hend : (closesItself || isVoidElement e.name.toList) = true) (hchildren : e.children = []) :
    e.Covers (tagText inner)
  | rawText {inner content closing : List Char} (hraw : isRawTextElement e.name.toList = true)
    (hopening : e.OpensWith inner false) (hclosing : IsCloseTag e.name.toList closing)
    (hfirst : ∀ earlier, IsCloseTag e.name.toList earlier → ¬earlier <:+: content)
    (hchildren : e.children = if content.isEmpty then [] else
      [.literal (.ofText (e.span.start + byteSize (tagText inner)) content)]) :
    e.Covers (tagText inner ++ (content ++ closing))
  | nested {inner content closing : List Char} (hraw : isRawTextElement e.name.toList = false)
    (hopening : e.OpensWith inner false) (hclosing : FillsTag ('/' :: closing))
    (hname : eqIgnoreCase e.name.toList (tagName closing) = true)
    (hchildren : Tiled IsLayout (e.span.start + byteSize (tagText inner))
      (e.children.map Token.span) content)
    (hlayout : ∀ t ∈ e.children, isBlankText t = true → hasLineFeed t = true → e.children = [t]) :
    e.Covers (tagText inner ++ (content ++ tagText ('/' :: closing)))

/-- No part of a template is lost in its document but blanks, and its nodes are nested in each other
as their texts are. -/
structure Document.Lossless (source : List Char) (d : Document) : Prop where
  roots : Tiled (fun text => isBlank text = true) 0 d.sortedSpans source
  components : d.components.Pairwise fun e e' => e.span.start < e'.span.start
  scripts : d.scripts.Pairwise fun block block' => block.span.start < block'.span.start
  styles : d.styles.Pairwise fun block block' => block.span.start < block'.span.start
  markup : d.markup.Pairwise fun t t' => t.span.start < t'.span.start
  element : ∀ e, Token.element e ∈ d.nodes →
    ∃ text, e.span.slice? source = some text ∧ e.Covers text
  block : ∀ block ∈ d.scripts ++ d.styles, ∃ (e : Element) (text : List Char),
    block = e.rawBlock ∧ e.span.slice? source = some text ∧ e.Covers text
  literal : ∀ l, Token.literal l ∈ d.nodes →
    l.span.slice? source = some l.raw.toList ∧ l.value = .string l.raw ∧ l.escape = false
  program : ∀ p, Token.program p ∈ d.nodes → ∃ inner, FillsBraces inner ∧
    p.span.slice? source = some ('{' :: inner ++ ['}']) ∧ p.source = String.ofList (trim inner)

/-- An element opens with the tag that it was read from. -/
theorem Element.opensWith_of_tag {k : Nat} {inner : List Char} {tag : OpenTag}
    {closesItself : Bool} (htag : IsOpeningTag k inner tag closesItself) {children : List Token}
    {stop : Nat} :
    Element.OpensWith ⟨String.ofList tag.name, tag.attributes, children, ⟨k, stop⟩⟩ inner
      closesItself := by
  rw [Element.OpensWith, String.toList_ofList, ← htag.span]
  exact htag

private theorem Construct.covers {k : Nat} {x : List Char} {p : Piece} {e : Element}
    (h : Construct k x p) (hp : p = .node (.element e)) : e.Covers x := by
  cases h with
  | comment | declaration | program | closeTag | openTag => cases hp
  | childless htag hname =>
    cases hp
    rw [htag.span]
    refine .tag (Element.opensWith_of_tag htag) ?_ rfl
    rwa [String.toList_ofList]
  | rawText htag hvoid hname hclose hcontent =>
    cases hp
    refine .rawText ?_ (Element.opensWith_of_tag htag) ?_ ?_ rfl
    all_goals rwa [String.toList_ofList]

private theorem Reads.tiled_dropLayout {limit depth k : Nat} {text : List Char}
    {nodes : List Token} (h : Reads limit depth k text nodes) :
    Tiled IsLayout k ((dropLayout nodes).map Token.span) text := by
  have happend : ∀ a b, IsLayout a → IsLayout b → IsLayout (a ++ b) := fun _ _ => IsLayout.append
  unfold dropLayout
  split
  · have htiled := h.tiled IsLayout (fun _ => true) (Or.inl rfl) happend fun _ => nofun
    rwa [List.filter_eq_self.mpr fun _ _ => rfl] at htiled
  · refine h.tiled IsLayout _ (Or.inl rfl) happend ?_
    intro t ht
    rw [Bool.not_eq_false', Bool.and_eq_true] at ht
    obtain ⟨hblank, hfeed⟩ := ht
    cases t with
    | literal l => exact ⟨l, rfl, Or.inr ⟨hblank, List.contains_iff_mem.mp hfeed⟩⟩
    | identifier | object | property | array | program | element | importDeclaration =>
      cases hblank

private theorem dropLayout_eq_singleton {nodes : List Token} {t : Token}
    (ht : t ∈ dropLayout nodes) (hblank : isBlankText t = true) (hfeed : hasLineFeed t = true) :
    dropLayout nodes = [t] := by
  unfold dropLayout at ht ⊢
  split
  · next hlength =>
    rw [if_pos hlength] at ht
    obtain ⟨s, rfl⟩ := List.length_eq_one_iff.mp hlength
    rw [List.mem_singleton.mp ht]
  · next hlength =>
    rw [if_neg hlength] at ht
    have hkeep := (List.mem_filter.mp ht).2
    rw [hblank, hfeed] at hkeep
    cases hkeep

/-- Every element covers its text. -/
theorem NodeText.covers {limit depth k : Nat} {x : List Char} {e : Element}
    (h : NodeText limit depth k x (.element e)) : e.Covers x := by
  generalize ht : Token.element e = t at h
  cases h with
  | plain => cases ht
  | construct hx =>
    subst ht
    exact hx.covers rfl
  | @element opening content closing name tag span children hdepth hopening hcontent hclosing hname =>
    obtain ⟨inner, rfl, htag, -, hraw⟩ := hopening.openTag_eq
    obtain ⟨inner', rfl, hfills, rfl, rfl⟩ := hclosing.closeTag_eq
    obtain rfl := Token.element.inj ht
    refine .nested ?_ ?_ hfills ?_ ?_ ?_
    · rwa [String.toList_ofList]
    · rw [htag.span]
      exact Element.opensWith_of_tag htag
    · rwa [String.toList_ofList]
    · rw [htag.span]
      exact hcontent.tiled_dropLayout
    · intro t ht hblank hfeed
      exact dropLayout_eq_singleton ht hblank hfeed

private theorem NodeText.program_eq {limit depth k : Nat} {x : List Char} {p : Program}
    (h : NodeText limit depth k x (.program p)) :
    ∃ inner, FillsBraces inner ∧ x = '{' :: inner ++ ['}'] ∧
      p.source = String.ofList (trim inner) := by
  generalize ht : Token.program p = t at h
  cases h with
  | plain => cases ht
  | construct hx =>
    subst ht
    generalize hp : Piece.node (.program p) = piece at hx
    cases hx with
    | program hfills =>
      cases hp
      exact ⟨_, hfills, rfl, rfl⟩
    | comment | declaration | closeTag | childless | rawText | openTag => cases hp
  | element => cases ht

private theorem Occurs.literal_eq {limit k : Nat} {x : List Char} {l : Literal}
    (h : Occurs limit k x (.literal l)) : l = .ofText k x := by
  rcases h with ⟨depth, htext⟩ | ⟨-, heq⟩
  · exact htext.literal_eq
  · exact Token.literal.inj heq

section

variable {source : List Char} {limit : Nat} {nodes : List Token}

private theorem Reads.tiled_dropRootBlanks {depth k : Nat} {text : List Char}
    (h : Reads limit depth k text nodes) :
    Tiled (fun text => isBlank text = true) k ((dropRootBlanks nodes).map Token.span) text := by
  refine h.tiled _ _ rfl ?_ ?_
  · intro a b ha hb
    rw [isBlank, List.all_append, Bool.and_eq_true]
    exact ⟨ha, hb⟩
  · intro t ht
    rw [Bool.not_eq_false'] at ht
    cases t with
    | literal l => exact ⟨l, rfl, ht⟩
    | identifier | object | property | array | program | element | importDeclaration => cases ht

private theorem Reads.slice_of_mem_roots (h : Reads limit 0 0 source nodes) {t : Token}
    (ht : t ∈ tokenNodes (dropRootBlanks nodes)) :
    ∃ text, t.span.slice? source = some text ∧ Occurs limit t.span.start text t :=
  h.slice_of_mem (tokenNodes_subset (dropRootBlanks_subset nodes) ht)

/-- An element among the nodes of a template covers its slice of the source. -/
theorem Reads.covers_of_mem_roots (h : Reads limit 0 0 source nodes) {e : Element}
    (he : Token.element e ∈ tokenNodes (dropRootBlanks nodes)) :
    ∃ text, e.span.slice? source = some text ∧ e.Covers text := by
  obtain ⟨text, hslice, hoccurs⟩ := h.slice_of_mem_roots he
  rcases hoccurs with ⟨depth, htext⟩ | ⟨-, heq⟩
  · exact ⟨text, hslice, htext.covers⟩
  · cases heq

/-- A script or a style at the root covers its text as an element does. -/
theorem Reads.covers_of_mem_blocks (h : Reads limit 0 0 source nodes) {block : RawBlock}
    (hblock : block ∈ (Document.ofNodes (dropRootBlanks nodes)).scripts ++
      (Document.ofNodes (dropRootBlanks nodes)).styles) :
    ∃ (e : Element) (text : List Char), block = e.rawBlock ∧ e.span.slice? source = some text ∧
      e.Covers text := by
  have hroot {e : Element} (he : Token.element e ∈ dropRootBlanks nodes) :
      Token.element e ∈ tokenNodes (dropRootBlanks nodes) :=
    mem_tokenNodes_iff.mpr ⟨_, he, List.mem_cons_self⟩
  rcases List.mem_append.mp hblock with hblock | hblock
  · obtain ⟨e, he, -, heq⟩ := Document.exists_of_mem_scripts hblock
    obtain ⟨text, hslice, hcovers⟩ := h.covers_of_mem_roots (hroot he)
    exact ⟨e, text, heq, hslice, hcovers⟩
  · obtain ⟨e, he, -, heq⟩ := Document.exists_of_mem_styles hblock
    obtain ⟨text, hslice, hcovers⟩ := h.covers_of_mem_roots (hroot he)
    exact ⟨e, text, heq, hslice, hcovers⟩

private theorem Reads.literal_of_mem_roots (h : Reads limit 0 0 source nodes) {l : Literal}
    (hl : Token.literal l ∈ tokenNodes (dropRootBlanks nodes)) :
    l.span.slice? source = some l.raw.toList ∧ l.value = .string l.raw ∧ l.escape = false := by
  obtain ⟨text, hslice, hoccurs⟩ := h.slice_of_mem_roots hl
  have heq := hoccurs.literal_eq
  have hraw : l.raw = String.ofList text := congrArg Literal.raw heq
  refine ⟨?_, ?_, congrArg Literal.escape heq⟩
  · rw [hraw, String.toList_ofList]
    exact hslice
  · rw [hraw]
    exact congrArg Literal.value heq

private theorem Reads.program_of_mem_roots (h : Reads limit 0 0 source nodes) {p : Program}
    (hp : Token.program p ∈ tokenNodes (dropRootBlanks nodes)) :
    ∃ inner, FillsBraces inner ∧ p.span.slice? source = some ('{' :: inner ++ ['}']) ∧
      p.source = String.ofList (trim inner) := by
  obtain ⟨text, hslice, hoccurs⟩ := h.slice_of_mem_roots hp
  rcases hoccurs with ⟨depth, htext⟩ | ⟨-, heq⟩
  · obtain ⟨inner, hfills, rfl, hsource⟩ := htext.program_eq
    exact ⟨inner, hfills, hslice, hsource⟩
  · cases heq

end

/-- Nothing is lost in any document that is read. -/
theorem Document.lossless_of_ofText {source : List Char} {limit : Nat} {d : Document}
    (h : Document.ofText source limit = .ok d) : d.Lossless source := by
  obtain ⟨nodes, hreads, rfl⟩ := Document.ofText_eq_ok_iff.mp h
  have htiled := hreads.tiled_dropRootBlanks
  have hordered := htiled.pairwise_start
  refine ⟨?_, ?_, ?_, ?_, ?_, ?_, ?_, ?_, ?_⟩
  · rw [Document.sortedSpans_eq hordered]
    exact htiled
  · refine Document.pairwise_filterMap _ Element.span ?_ hordered
    rintro (_ | _ | _ | _) a ha <;> cases ha
    rfl
  · refine Document.pairwise_filterMap _ RawBlock.span ?_ hordered
    rintro (_ | _ | _ | _) a ha <;> cases ha
    rfl
  · refine Document.pairwise_filterMap _ RawBlock.span ?_ hordered
    rintro (_ | _ | _ | _) a ha <;> cases ha
    rfl
  · refine Document.pairwise_filterMap _ Token.span ?_ hordered
    rintro (_ | _ | _ | _) a ha <;> cases ha
    rfl
  · intro e he
    exact hreads.covers_of_mem_roots (Document.mem_tokenNodes_of_mem_nodes he)
  · intro block hblock
    exact hreads.covers_of_mem_blocks hblock
  · intro l hl
    exact hreads.literal_of_mem_roots (Document.mem_tokenNodes_of_mem_nodes hl)
  · intro p hp
    exact hreads.program_of_mem_roots (Document.mem_tokenNodes_of_mem_nodes hp)

private def layeredSource : List Char :=
  "<link rel=import/>\n<ul>\n<li>é {a}\n</li>\n\n<li>\n</li></ul><!--b--> <script>c</script>".toList

/-- A source with layout, nested elements and a raw-text block is covered by what is read of it. -/
theorem Document.lossless_layered :
    ∃ d, Document.ofText layeredSource 2 = .ok d ∧ d.entrySpans.length = 4 ∧
      d.nodes.map Token.kind =
        ["MarkupExpression", "MarkupExpression", "MarkupExpression", "Literal", "ProgramExpression",
          "MarkupExpression", "Literal", "Literal"] ∧
      d.Lossless layeredSource := by
  have hread : (Document.ofText layeredSource 2).toOption.any (fun d =>
      decide (d.entrySpans.length = 4 ∧ d.nodes.map Token.kind =
        ["MarkupExpression", "MarkupExpression", "MarkupExpression", "Literal", "ProgramExpression",
          "MarkupExpression", "Literal", "Literal"])) = true := by
    decide +kernel
  obtain ⟨d, hd, htest⟩ := Document.exists_of_any hread
  obtain ⟨hspans, hkinds⟩ := of_decide_eq_true htest
  exact ⟨d, hd, hspans, hkinds, Document.lossless_of_ofText hd⟩

end TemplateReader
