import TemplateReader.Proofs.Script.Places
import TemplateReader.Proofs.Template.Lossless

/-!
# Imports of a template

The imports of a document are those of its root scripts, one script after the
other, each scanned where its content stands in the source. Their spans do not
overlap, and each says by itself which import it is.
-/

namespace TemplateReader

/-- The imports are those that the content of a script brings where it stands in the source: between
an opening tag and the close tag that its block spans, or behind a tag that closes itself. -/
def RawBlock.Brings (source : List Char) (block : RawBlock) (imports : List Import) : Prop :=
  ∃ before inner content closing after,
    source = before ++ (tagText inner ++ (content ++ (closing ++ after))) ∧ FillsTag inner ∧
    (IsCloseTag block.name.toList closing ∨ content = [] ∧ closing = []) ∧
    block.source = String.ofList content ∧
    block.span =
      ⟨byteSize before, byteSize (before ++ (tagText inner ++ (content ++ closing)))⟩ ∧
    imports = scriptImports (byteSize (before ++ tagText inner)) content ∧
    ∀ i ∈ imports, byteSize (before ++ tagText inner) ≤ i.span.start ∧
      i.span.stop ≤ byteSize (before ++ (tagText inner ++ content))

/-- The imports of a document are those of its scripts in their order, and their spans are exact. -/
structure Document.ExactImports (source : List Char) (d : Document) : Prop where
  scripts : ∃ found, d.imports = List.flatten found ∧
    List.Forall₂ (RawBlock.Brings source) d.scripts found
  nonempty : ∀ i ∈ d.imports, i.span.start < i.span.stop
  increasing : d.imports.Pairwise fun i j => i.span.start < j.span.start
  disjoint : d.imports.Pairwise fun i j => i.span.stop ≤ j.span.start
  alone : ∀ i ∈ d.imports, ∃ text, i.span.slice? source = some text ∧
    scriptImports i.span.start text = [i]

/-- An element with raw text holds its content as written, and that is scanned where it begins. -/
theorem Element.Covers.exists_content {e : Element} {x : List Char} (h : e.Covers x)
    (hraw : isRawTextElement e.name.toList = true) :
    ∃ inner content closing, x = tagText inner ++ (content ++ closing) ∧ FillsTag inner ∧
      (IsCloseTag e.name.toList closing ∨ content = [] ∧ closing = []) ∧
      e.rawContent = String.ofList content ∧
      e.scriptImports =
        TemplateReader.scriptImports (e.span.start + byteSize (tagText inner)) content := by
  have hnone (k : Nat) : TemplateReader.scriptImports k [] = [] := importsFrom_eq _ _
  cases h with
  | @tag inner _ hopening _ hchildren =>
    refine ⟨inner, [], [], ?_, hopening.fills, Or.inr ⟨rfl, rfl⟩, ?_, ?_⟩
    · simp only [List.append_nil]
    · rw [Element.rawContent, hchildren]
    · rw [Element.scriptImports, hchildren, hnone]
  | @rawText inner content closing _ hopening hclosing _ hchildren =>
    refine ⟨inner, content, closing, rfl, hopening.fills, Or.inl hclosing, ?_, ?_⟩
    · rw [Element.rawContent, hchildren]
      cases content <;> rfl
    · rw [Element.scriptImports, Element.rawContent, hchildren]
      cases content with
      | nil => exact (hnone _).symm
      | cons c content => exact congrArg (TemplateReader.scriptImports _) String.toList_ofList
  | nested hmarkup =>
    rw [hraw] at hmarkup
    cases hmarkup

section

variable {limit depth k : Nat} {x text source : List Char} {t : Token} {nodes : List Token}

/-- A root node brings the imports of its text. -/
theorem NodeText.imported (h : NodeText limit depth k x t) : Imported k x t.rootEntry.imports := by
  cases hentry : t.rootEntry with
  | component | style | markup => exact .nil
  | script block imports =>
    have hof := t.rootEntry_isOf
    rw [hentry] at hof
    obtain ⟨e, rfl, rfl, rfl⟩ := hof
    have hraw := Element.isRawTextElement_of_script hentry
    obtain ⟨inner, content, closing, rfl, -, -, -, himports⟩ := h.covers.exists_content hraw
    have hstart : e.span.start = k := congrArg Span.start h.span_eq
    rw [RootEntry.imports, himports, hstart, ← List.append_nil (TemplateReader.scriptImports _ _)]
    exact ((imported_scriptImports _ content).append .nil).prepend

/-- The imports of a template stand one behind the other in its text. -/
theorem Reads.imported (h : Reads limit depth k text nodes) :
    Imported k text (Document.ofNodes nodes).imports := by
  induction nodes generalizing k text with
  | nil => exact .nil
  | cons t nodes ih =>
    obtain ⟨x, rest, rfl, ht, hrest⟩ := h.uncons
    have hbrings := ht.imported
    rw [Document.ofNodes_cons]
    cases hentry : t.rootEntry with
    | component | style | markup =>
      rw [hentry] at hbrings
      exact hbrings.append (ih hrest)
    | script block imports =>
      rw [hentry] at hbrings
      exact hbrings.append (ih hrest)

/-- The blanks between root nodes bring no imports. -/
theorem Document.imports_dropRootBlanks (nodes : List Token) :
    (Document.ofNodes (dropRootBlanks nodes)).imports = (Document.ofNodes nodes).imports := by
  induction nodes with
  | nil => rfl
  | cons t nodes ih =>
    rw [dropRootBlanks, List.filter_cons]
    cases t with
    | literal l =>
      split
      · exact ih
      · exact ih
    | identifier | object | property | array | program | importDeclaration => exact ih
    | element e =>
      have hkeep : (!isBlankText (.element e)) = true := rfl
      rw [if_pos hkeep, ofNodes_cons, ofNodes_cons]
      exact congrArg (_ ++ ·) ih

/-- A script at the root brings its imports. -/
theorem Reads.brings (h : Reads limit 0 0 source nodes) (ht : t ∈ nodes) {block : RawBlock}
    {imports : List Import} (hentry : t.rootEntry = .script block imports) :
    block.Brings source imports := by
  have hof := t.rootEntry_isOf
  rw [hentry] at hof
  obtain ⟨e, rfl, rfl, rfl⟩ := hof
  have hraw := Element.isRawTextElement_of_script hentry
  obtain ⟨before, y, after, rfl, hoccurs⟩ :=
    h.occurs_of_mem (mem_tokenNodes_iff.mpr ⟨_, ht, List.mem_cons_self⟩)
  rw [Nat.zero_add] at hoccurs
  obtain ⟨depth, htext⟩ : ∃ depth, NodeText limit depth (byteSize before) y (.element e) := by
    rcases hoccurs with htext | ⟨-, heq⟩
    · exact htext
    · cases heq
  obtain ⟨inner, content, closing, rfl, hfills, hclosing, hcontent, himports⟩ :=
    htext.covers.exists_content hraw
  have hspan : e.span = ⟨byteSize before, _⟩ := htext.span_eq
  have hstart : e.span.start = byteSize before := by rw [hspan]
  rw [hstart, ← byteSize_append] at himports
  refine ⟨before, inner, content, closing, after, ?_, hfills, hclosing, hcontent, ?_, himports, ?_⟩
  · simp only [List.append_assoc]
  · rw [byteSize_append]
    exact hspan
  · intro i hi
    rw [himports] at hi
    obtain ⟨hstart, -, hstop⟩ := (imported_scriptImports _ content).span_of_mem hi
    rw [← byteSize_append, List.append_assoc] at hstop
    exact ⟨hstart, hstop⟩

end

/-- Scripts that bring their imports bring those of the document together. -/
theorem Document.exists_found {source : List Char} {roots : List Token}
    (h : ∀ t ∈ roots, ∀ block imports, t.rootEntry = .script block imports →
      block.Brings source imports) :
    ∃ found, (ofNodes roots).imports = List.flatten found ∧
      List.Forall₂ (RawBlock.Brings source) (ofNodes roots).scripts found := by
  induction roots with
  | nil => exact ⟨[], rfl, .nil⟩
  | cons t roots ih =>
    obtain ⟨ht, hroots⟩ := List.forall_mem_cons.mp h
    obtain ⟨found, himports, hfound⟩ := ih hroots
    rw [ofNodes_cons]
    cases hentry : t.rootEntry with
    | component | style | markup => exact ⟨found, himports, hfound⟩
    | script block imports =>
      exact ⟨imports :: found, congrArg (imports ++ ·) himports, .cons (ht _ _ hentry) hfound⟩

/-- The imports of every document that is read are exact. -/
theorem Document.exactImports_of_ofText {source : List Char} {limit : Nat} {d : Document}
    (h : Document.ofText source limit = .ok d) : d.ExactImports source := by
  obtain ⟨nodes, hreads, rfl⟩ := Document.ofText_eq_ok_iff.mp h
  have himported := hreads.imported
  rw [← Document.imports_dropRootBlanks] at himported
  refine ⟨?_, ?_, ?_, himported.pairwise, ?_⟩
  · exact Document.exists_found fun t ht block imports =>
      hreads.brings (dropRootBlanks_subset nodes ht)
  · intro i hi
    exact (himported.span_of_mem hi).2.1
  · refine himported.pairwise.imp_of_mem ?_
    intro i j hi hj hstop
    exact Nat.lt_of_lt_of_le (himported.span_of_mem hi).2.1 hstop
  · intro i hi
    obtain ⟨before, y, after, rfl, hy⟩ := himported.exists_of_mem hi
    rw [Nat.zero_add] at hy
    refine ⟨y, ?_, ?_⟩
    · rw [hy.span_eq]
      exact Span.slice?_append before y after
    · rw [hy.span_eq]
      exact hy.scriptImports_eq

private def scatteredSource : List Char :=
  "<script>import {type as} from 'a';\nimport b from 'c'</script><p>é</p>".toList ++
    "<script/><script>let d = /import '/g\nimport 'e';</script>".toList

/-- Imports of two scripts are collected in order, with the places that they have in the source. -/
theorem Document.exactImports_scattered :
    ∃ d, Document.ofText scatteredSource 1 = .ok d ∧
      d.imports.map Import.span = [⟨35, 52⟩, ⟨107, 118⟩] ∧ d.ExactImports scatteredSource := by
  have hread : (Document.ofText scatteredSource 1).toOption.any (fun d =>
      decide (d.imports.map Import.span = [⟨35, 52⟩, ⟨107, 118⟩])) = true := by
    decide +kernel
  obtain ⟨d, hd, hspans⟩ := Document.exists_of_any hread
  exact ⟨d, hd, of_decide_eq_true hspans, Document.exactImports_of_ofText hd⟩

end TemplateReader
