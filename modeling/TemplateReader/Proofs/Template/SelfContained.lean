import TemplateReader.Proofs.Template.Stretch

/-!
# Elements on their own

An element is determined by the slice of the source that it spans. Cut out and
read alone, under the same nesting limit, the slice is a template whose only
root entry is that element, with every offset counted from the start of the
slice. The same holds of the scripts and styles at the root.
-/

namespace TemplateReader

/-- The only root entry of a document is the element, or else the block of its content. -/
def Document.HoldsOnly (d : Document) (e : Element) : Prop :=
  d = ⟨[e], [], [], [], []⟩ ∨ d = ⟨[], [e.rawBlock], [], [], e.scriptImports⟩ ∨
    d = ⟨[], [], [e.rawBlock], [], []⟩ ∨ d = ⟨[], [], [], [.element e], []⟩

/-- A root element alone is the only entry of its document. -/
theorem RootEntry.holdsOnly_document (e : Element) : e.rootEntry.document.HoldsOnly e := by
  have hof := (Token.element e).rootEntry_isOf
  rw [Token.rootEntry] at hof
  cases he : e.rootEntry with
  | component e' =>
    rw [he] at hof
    obtain rfl := Token.element.inj hof
    exact Or.inl rfl
  | script block imports =>
    rw [he] at hof
    obtain ⟨e', heq, rfl, rfl⟩ := hof
    obtain rfl := Token.element.inj heq
    exact Or.inr (Or.inl rfl)
  | style block =>
    rw [he] at hof
    obtain ⟨e', heq, rfl⟩ := hof
    obtain rfl := Token.element.inj heq
    exact Or.inr (Or.inr (Or.inl rfl))
  | markup t =>
    rw [he] at hof
    obtain rfl : t = .element e := hof
    exact Or.inr (Or.inr (Or.inr rfl))

/-- The slice of an element, at any depth of a template, is read alone as that element. -/
theorem Reads.element_alone {limit : Nat} {source : List Char} {nodes : List Token} {e : Element}
    (h : Reads limit 0 0 source nodes) (he : Token.element e ∈ tokenNodes nodes) :
    ∃ (text : List Char) (e' : Element), e.span.slice? source = some text ∧
      Document.ofText text limit = .ok e'.rootEntry.document ∧ e'.move (· + e.span.start) = e := by
  obtain ⟨text, hslice, hoccurs⟩ := h.slice_of_mem he
  obtain ⟨depth, htext⟩ : ∃ depth, NodeText limit depth e.span.start text (.element e) := by
    rcases hoccurs with htext | ⟨-, heq⟩
    · exact htext
    · cases heq
  have hread : readOn limit [] [] ((⟨0, text⟩ : Cursor).shift e.span.start) =
      .ok [.element e] := by
    rw [Cursor.shift, Nat.zero_add]
    exact readOn_eq_ok_iff.mpr ⟨_, htext.reads.of_le (Nat.zero_le depth), rfl⟩
  rw [readOn_shift] at hread
  cases hroots : readOn limit [] [] ⟨0, text⟩ with
  | error fault =>
    rw [hroots] at hread
    cases hread
  | ok roots =>
    rw [hroots] at hread
    have hmap := Except.ok.inj hread
    obtain ⟨t, rfl, ht⟩ := List.map_eq_singleton_iff.mp hmap
    cases t with
    | element e' =>
      refine ⟨text, e', hslice, ?_, Token.element.inj ht⟩
      rw [Document.ofText_eq_map, hroots]
      exact congrArg Except.ok (Document.ofNodes_singleton _)
    | literal | identifier | object | property | array | program | importDeclaration => cases ht

/-- Each element of a document, at any depth, and each script and style at its root is the only root
entry of the slice of the source that it spans, with its offsets counted from there. -/
structure Document.SelfContained (source : List Char) (limit : Nat) (d : Document) : Prop where
  element : ∀ e, Token.element e ∈ d.nodes →
    ∃ (text : List Char) (e' : Element) (d' : Document), e.span.slice? source = some text ∧
      Document.ofText text limit = .ok d' ∧ d'.HoldsOnly e' ∧ e'.move (· + e.span.start) = e
  script : ∀ block ∈ d.scripts,
    ∃ (text : List Char) (block' : RawBlock) (imports : List Import),
      block.span.slice? source = some text ∧
      Document.ofText text limit = .ok ⟨[], [block'], [], [], imports⟩ ∧
      block'.move (· + block.span.start) = block
  style : ∀ block ∈ d.styles,
    ∃ (text : List Char) (block' : RawBlock), block.span.slice? source = some text ∧
      Document.ofText text limit = .ok ⟨[], [], [block'], [], []⟩ ∧
      block'.move (· + block.span.start) = block

/-- Every document that is read is self-contained in its elements and blocks. -/
theorem Document.selfContained_of_ofText {source : List Char} {limit : Nat} {d : Document}
    (h : Document.ofText source limit = .ok d) : d.SelfContained source limit := by
  obtain ⟨nodes, hreads, rfl⟩ := Document.ofText_eq_ok_iff.mp h
  have alone {e : Element} (he : Token.element e ∈ dropRootBlanks nodes) :=
    hreads.element_alone
      (mem_tokenNodes_iff.mpr ⟨_, dropRootBlanks_subset nodes he, List.mem_cons_self⟩)
  refine ⟨?_, ?_, ?_⟩
  · intro e he
    have hnodes := tokenNodes_subset (dropRootBlanks_subset nodes)
      (Document.mem_tokenNodes_of_mem_nodes he)
    obtain ⟨text, e', hslice, hread, hmove⟩ := hreads.element_alone hnodes
    exact ⟨text, e', _, hslice, hread, RootEntry.holdsOnly_document e', hmove⟩
  · intro block hblock
    obtain ⟨e, he, hentry, rfl⟩ := Document.exists_of_mem_scripts hblock
    obtain ⟨text, e', hslice, hread, hmove⟩ := alone he
    have hshift := Token.rootEntry_shift e.span.start (.element e')
    rw [Token.move, Token.rootEntry, Token.rootEntry, hmove, hentry] at hshift
    cases hentry' : e'.rootEntry with
    | script block' imports =>
      rw [hentry'] at hread hshift
      exact ⟨text, block', imports, hslice, hread, (RootEntry.script.inj hshift).1.symm⟩
    | component | style | markup =>
      rw [hentry'] at hshift
      cases hshift
  · intro block hblock
    obtain ⟨e, he, hentry, rfl⟩ := Document.exists_of_mem_styles hblock
    obtain ⟨text, e', hslice, hread, hmove⟩ := alone he
    have hshift := Token.rootEntry_shift e.span.start (.element e')
    rw [Token.move, Token.rootEntry, Token.rootEntry, hmove, hentry] at hshift
    cases hentry' : e'.rootEntry with
    | style block' =>
      rw [hentry'] at hread hshift
      exact ⟨text, block', hslice, hread, (RootEntry.style.inj hshift).symm⟩
    | component | script | markup =>
      rw [hentry'] at hshift
      cases hshift

private def nestedSource : List Char :=
  "<ul><li a={b}>\n<br/> é</li></ul><div><script>x</script></div><style>p{}</style>".toList

/-- Nested elements and blocks of this source read alone as they do in it. -/
theorem Document.selfContained_nested :
    ∃ d, Document.ofText nestedSource 2 = .ok d ∧
      (d.nodes.filterMap Token.element?).map Element.name = ["ul", "li", "br", "div", "script"] ∧
      d.styles.map RawBlock.source = ["p{}"] ∧ d.SelfContained nestedSource 2 := by
  have hread : (Document.ofText nestedSource 2).toOption.any (fun d =>
      decide ((d.nodes.filterMap Token.element?).map Element.name =
        ["ul", "li", "br", "div", "script"] ∧ d.styles.map RawBlock.source = ["p{}"])) = true := by
    decide +kernel
  obtain ⟨d, hd, htest⟩ := Document.exists_of_any hread
  obtain ⟨hnames, hstyles⟩ := of_decide_eq_true htest
  exact ⟨d, hd, hnames, hstyles, Document.selfContained_of_ofText hd⟩

end TemplateReader
