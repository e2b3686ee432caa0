import TemplateReader.Template.Document

/-!
# Root entries

A document sorts the root nodes of a template by what they are for. Each node
contributes one entry, and a document is put together from those of its nodes
one after the other. Every entry is a root node, or the block of one.
-/

namespace TemplateReader

/-- Whether an entry is the node itself, or the block of the node with its imports. -/
def RootEntry.IsOf (t : Token) : RootEntry → Prop
  | .component e => t = .element e
  | .script block imports => ∃ e, t = .element e ∧ block = e.rawBlock ∧ imports = e.scriptImports
  | .style block => ∃ e, t = .element e ∧ block = e.rawBlock
  | .markup t' => t' = t

/-- The entry of a node has nothing in it but the node. -/
theorem Token.rootEntry_isOf (t : Token) : t.rootEntry.IsOf t := by
  cases t with
  | element e =>
    rw [Token.rootEntry, Element.rootEntry]
    by_cases hlink : e.isComponentLink = true
    · rw [if_pos hlink]
      rfl
    · rw [if_neg hlink]
      by_cases hscript : e.isInlineScript = true
      · rw [if_pos hscript]
        exact ⟨e, rfl, rfl, rfl⟩
      · rw [if_neg hscript]
        by_cases hstyle : e.isNamed "style" = true
        · rw [if_pos hstyle]
          exact ⟨e, rfl, rfl⟩
        · rw [if_neg hstyle]
          rfl
  | literal | identifier | object | property | array | program | importDeclaration => rfl

namespace Element

variable {e : Element}

private theorem contains_of_isNamed {names : List String} (name : String)
    (hname : String.ofList (name.toList.map Char.toLower) ∈ names) (h : e.isNamed name = true) :
    names.contains (String.ofList (e.name.toList.map Char.toLower)) = true := by
  rw [isNamed, eqIgnoreCase, beq_iff_eq] at h
  rw [h]
  exact List.contains_iff_mem.mpr hname

/-- A link to a component has no children. -/
theorem isVoidElement_of_isComponentLink (h : e.isComponentLink = true) :
    isVoidElement e.name.toList = true :=
  contains_of_isNamed "link" (by decide) (Bool.and_eq_true_iff.mp h).1

/-- An inline script is an element with raw text. -/
theorem isRawTextElement_of_isInlineScript (h : e.isInlineScript = true) :
    isRawTextElement e.name.toList = true :=
  contains_of_isNamed "script" (by decide) (Bool.and_eq_true_iff.mp h).1

/-- A style is an element with raw text. -/
theorem isRawTextElement_of_isNamed_style (h : e.isNamed "style" = true) :
    isRawTextElement e.name.toList = true :=
  contains_of_isNamed "style" (by decide) h

/-- An element with raw text is not one without content. -/
theorem isVoidElement_eq_false (h : isRawTextElement e.name.toList = true) :
    isVoidElement e.name.toList = false := by
  rw [isRawTextElement, List.contains_iff_mem] at h
  rw [isVoidElement]
  simp only [rawTextElements, List.mem_cons, List.not_mem_nil, or_false] at h
  rcases h with h | h
  · rw [h]
    decide
  · rw [h]
    decide

/-- An element that may hold other elements is markup. -/
theorem rootEntry_eq_markup (hvoid : isVoidElement e.name.toList = false)
    (hraw : isRawTextElement e.name.toList = false) : e.rootEntry = .markup (.element e) := by
  have hlink : ¬e.isComponentLink = true := fun h =>
    Bool.false_ne_true (hvoid.symm.trans (isVoidElement_of_isComponentLink h))
  have hscript : ¬e.isInlineScript = true := fun h =>
    Bool.false_ne_true (hraw.symm.trans (isRawTextElement_of_isInlineScript h))
  have hstyle : ¬e.isNamed "style" = true := fun h =>
    Bool.false_ne_true (hraw.symm.trans (isRawTextElement_of_isNamed_style h))
  rw [rootEntry, if_neg hlink, if_neg hscript, if_neg hstyle]

/-- Scripts have raw text. -/
theorem isRawTextElement_of_script {block : RawBlock} {imports : List Import}
    (h : e.rootEntry = .script block imports) : isRawTextElement e.name.toList = true := by
  rw [rootEntry] at h
  split at h
  · cases h
  · split at h
    · next hscript => exact isRawTextElement_of_isInlineScript hscript
    · split at h <;> cases h

/-- Styles have raw text. -/
theorem isRawTextElement_of_style {block : RawBlock} (h : e.rootEntry = .style block) :
    isRawTextElement e.name.toList = true := by
  rw [rootEntry] at h
  split at h
  · cases h
  · split at h
    · cases h
    · split at h
      · next hstyle => exact isRawTextElement_of_isNamed_style hstyle
      · cases h

end Element

/-- The document that holds one entry alone. -/
def RootEntry.document : RootEntry → Document
  | .component e => ⟨[e], [], [], [], []⟩
  | .script block imports => ⟨[], [block], [], [], imports⟩
  | .style block => ⟨[], [], [block], [], []⟩
  | .markup t => ⟨[], [], [], [t], []⟩

namespace Document

/-- The document with the entries of one document followed by those of another. -/
def append (d d' : Document) : Document where
  components := d.components ++ d'.components
  scripts := d.scripts ++ d'.scripts
  styles := d.styles ++ d'.styles
  markup := d.markup ++ d'.markup
  imports := d.imports ++ d'.imports

/-- The first node contributes its entry, the others follow. -/
theorem ofNodes_cons (t : Token) (ts : List Token) :
    ofNodes (t :: ts) = t.rootEntry.document.append (ofNodes ts) := by
  simp only [ofNodes, List.map_cons, List.flatMap_cons]
  cases t.rootEntry <;> rfl

/-- The document of a node alone holds its entry alone. -/
theorem ofNodes_singleton (t : Token) : ofNodes [t] = t.rootEntry.document := by
  rw [ofNodes_cons]
  cases t.rootEntry <;> simp [RootEntry.document, append, ofNodes]

/-- Nodes in two lists contribute their entries one list after the other. -/
theorem ofNodes_append (ts ts' : List Token) :
    ofNodes (ts ++ ts') = (ofNodes ts).append (ofNodes ts') := by
  simp only [ofNodes, append, List.map_append, List.filterMap_append, List.flatMap_append]

section

variable {roots : List Token}

private theorem exists_of_mem_filterMap {α : Type} {collect? : RootEntry → Option α} {a : α}
    (h : a ∈ (roots.map Token.rootEntry).filterMap collect?) :
    ∃ t ∈ roots, collect? t.rootEntry = some a ∧ t.rootEntry.IsOf t := by
  simp only [List.mem_filterMap, List.mem_map] at h
  obtain ⟨entry, ⟨t, ht, rfl⟩, hentry⟩ := h
  exact ⟨t, ht, hentry, t.rootEntry_isOf⟩

/-- The components of a document are elements at its root. -/
theorem mem_roots_of_mem_components {e : Element} (h : e ∈ (ofNodes roots).components) :
    Token.element e ∈ roots := by
  obtain ⟨t, ht, hentry, hof⟩ := exists_of_mem_filterMap h
  cases he : t.rootEntry with
  | component e' =>
    rw [he] at hof hentry
    obtain rfl := Option.some.inj hentry
    exact hof ▸ ht
  | script | style | markup =>
    rw [he] at hentry
    cases hentry

/-- The scripts of a document are the blocks of elements at its root. -/
theorem exists_of_mem_scripts {block : RawBlock} (h : block ∈ (ofNodes roots).scripts) :
    ∃ e, Token.element e ∈ roots ∧ e.rootEntry = .script block e.scriptImports ∧
      block = e.rawBlock := by
  obtain ⟨t, ht, hentry, hof⟩ := exists_of_mem_filterMap h
  cases he : t.rootEntry with
  | script block' imports =>
    rw [he] at hof hentry
    obtain rfl := Option.some.inj hentry
    obtain ⟨e, rfl, hblock, rfl⟩ := hof
    exact ⟨e, ht, he, hblock⟩
  | component | style | markup =>
    rw [he] at hentry
    cases hentry

/-- The styles of a document are the blocks of elements at its root. -/
theorem exists_of_mem_styles {block : RawBlock} (h : block ∈ (ofNodes roots).styles) :
    ∃ e, Token.element e ∈ roots ∧ e.rootEntry = .style block ∧ block = e.rawBlock := by
  obtain ⟨t, ht, hentry, hof⟩ := exists_of_mem_filterMap h
  cases he : t.rootEntry with
  | style block' =>
    rw [he] at hof hentry
    obtain rfl := Option.some.inj hentry
    obtain ⟨e, rfl, hblock⟩ := hof
    exact ⟨e, ht, he, hblock⟩
  | component | script | markup =>
    rw [he] at hentry
    cases hentry

/-- The scripts and styles of a document have raw text. -/
theorem isRawTextElement_of_mem_blocks {block : RawBlock}
    (h : block ∈ (ofNodes roots).scripts ++ (ofNodes roots).styles) :
    isRawTextElement block.name.toList = true := by
  rcases List.mem_append.mp h with hscript | hstyle
  · obtain ⟨e, -, hentry, rfl⟩ := exists_of_mem_scripts hscript
    exact Element.isRawTextElement_of_script hentry
  · obtain ⟨e, -, hentry, rfl⟩ := exists_of_mem_styles hstyle
    exact Element.isRawTextElement_of_style hentry

/-- A root that links a component is among the components. -/
theorem mem_components_of_mem_roots {t : Token} {e : Element} (ht : t ∈ roots)
    (h : t.rootEntry = .component e) : e ∈ (ofNodes roots).components :=
  List.mem_filterMap.mpr ⟨_, List.mem_map_of_mem ht, congrArg RootEntry.component? h⟩

/-- A root that is markup is among the markup. -/
theorem mem_markup_of_mem_roots {s t : Token} (hs : s ∈ roots) (h : s.rootEntry = .markup t) :
    t ∈ (ofNodes roots).markup :=
  List.mem_filterMap.mpr ⟨_, List.mem_map_of_mem hs, congrArg RootEntry.markup? h⟩

/-- The markup of a document consists of nodes at its root. -/
theorem mem_roots_of_mem_markup {t : Token} (h : t ∈ (ofNodes roots).markup) : t ∈ roots := by
  obtain ⟨s, hs, hentry, hof⟩ := exists_of_mem_filterMap h
  cases he : s.rootEntry with
  | markup t' =>
    rw [he] at hof hentry
    obtain rfl := Option.some.inj hentry
    exact hof ▸ hs
  | component | script | style =>
    rw [he] at hentry
    cases hentry

end

end Document

end TemplateReader
