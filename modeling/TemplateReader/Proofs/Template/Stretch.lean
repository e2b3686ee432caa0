import TemplateReader.Proofs.Template.Nesting

/-!
# Stretches of a template

Each node of a template is read from a stretch of its own: `NodeText` relates
the two. The stretches of a sequence of nodes make up its text one after the
other, and each node spans its stretch. The same is found again at every depth,
so that what a node is can be told from the slice of the source that it spans.
-/

namespace TemplateReader

/-- The text that a span covers, if its ends fall between the characters of the source. -/
def Span.slice? (s : Span) (source : List Char) : Option (List Char) := do
  let (_, rest) ← splitBytes? s.start source
  let (text, _) ← splitBytes? (s.stop - s.start) rest
  return text

/-- A text is split where its bytes are counted off. -/
theorem splitBytes?_append (text rest : List Char) :
    splitBytes? (byteSize text) (text ++ rest) = some (text, rest) := by
  induction text with
  | nil => rw [byteSize_nil, splitBytes?, List.nil_append]
  | cons c text ih =>
    have hc := c.utf8Size_pos
    obtain ⟨n, hn⟩ : ∃ n, byteSize (c :: text) = n + 1 := by
      refine ⟨byteSize (c :: text) - 1, ?_⟩
      rw [byteSize_cons]
      omega
    have hle : c.utf8Size ≤ n + 1 := by
      rw [← hn, byteSize_cons]
      omega
    have hrest : n + 1 - c.utf8Size = byteSize text := by
      rw [← hn, byteSize_cons]
      omega
    rw [hn, List.cons_append, splitBytes?, if_pos hle, hrest, ih]
    rfl

/-- The slice of a span is the stretch that it covers. -/
theorem Span.slice?_append (before text after : List Char) :
    Span.slice? ⟨byteSize before, byteSize before + byteSize text⟩ (before ++ (text ++ after)) =
      some text := by
  simp only [Span.slice?, Option.bind_eq_bind, splitBytes?_append, Option.bind_some,
    Nat.add_sub_cancel_left, Option.pure_def]

/-- A slice stands in its source at the start of the span. -/
theorem Span.exists_of_slice? {s : Span} {source text : List Char}
    (h : s.slice? source = some text) :
    ∃ before after, source = before ++ (text ++ after) ∧ s.start = byteSize before := by
  simp only [Span.slice?, Option.bind_eq_bind, Option.bind_eq_some_iff, Prod.exists,
    Option.pure_def, Option.some.injEq] at h
  obtain ⟨before, tail, hbefore, _, after, htext, rfl⟩ := h
  obtain ⟨rfl, hstart⟩ := eq_append_of_splitBytes? hbefore
  obtain ⟨rfl, -⟩ := eq_append_of_splitBytes? htext
  exact ⟨before, after, rfl, hstart.symm⟩

/-- The slices of a stretch are slices of the source. -/
theorem Span.slice?_part {s : Span} {source x text front back : List Char}
    (h : s.slice? source = some x) (hx : x = front ++ (text ++ back)) :
    Span.slice? ⟨s.start + byteSize front, s.start + byteSize front + byteSize text⟩ source =
      some text := by
  subst hx
  obtain ⟨before, after, rfl, hstart⟩ := Span.exists_of_slice? h
  have hslice := Span.slice?_append (before ++ front) text (back ++ after)
  rw [hstart, ← byteSize_append]
  simpa only [List.append_assoc] using hslice

/-- The text at a cursor is the slice of its span. -/
theorem Cursor.IsIn.slice?_eq {c : Cursor} {source text after : List Char} (h : c.IsIn source)
    (hc : c.rest = text ++ after) :
    Span.slice? ⟨c.offset, c.offset + byteSize text⟩ source = some text := by
  obtain ⟨before, rfl, hoffset⟩ := h
  rw [hoffset, hc]
  exact Span.slice?_append before text after

private theorem Construct.span_of_node {k : Nat} {x : List Char} {p : Piece} {t : Token}
    (h : Construct k x p) (hp : p = .node t) : t.span = ⟨k, k + byteSize x⟩ := by
  cases h with
  | comment => cases hp; rfl
  | declaration => cases hp; rfl
  | program => cases hp; rfl
  | closeTag => cases hp
  | childless htag => cases hp; exact htag.span
  | rawText => cases hp; rfl
  | openTag => cases hp

/-- A construct that is a node is spanned by it. -/
theorem Construct.node_span {k : Nat} {x : List Char} {t : Token}
    (h : Construct k x (.node t)) : t.span = ⟨k, k + byteSize x⟩ :=
  h.span_of_node rfl

/-- An opening tag is a tag that does not close itself and may hold children. -/
theorem Construct.openTag_eq {k : Nat} {x : List Char} {tag : OpenTag}
    (h : Construct k x (.openTag tag)) :
    ∃ inner, x = tagText inner ∧ IsOpeningTag k inner tag false ∧
      isVoidElement tag.name = false ∧ isRawTextElement tag.name = false := by
  cases h with
  | openTag htag hvoid hname => exact ⟨_, rfl, htag, hvoid, hname⟩

/-- A close tag is a tag whose name follows a slash. -/
theorem Construct.closeTag_eq {k : Nat} {x name : List Char} {span : Span}
    (h : Construct k x (.closeTag name span)) :
    ∃ inner, x = tagText ('/' :: inner) ∧ FillsTag ('/' :: inner) ∧ name = tagName inner ∧
      span = ⟨k, k + byteSize x⟩ := by
  cases h with
  | closeTag hc hfills => exact ⟨_, rfl, hfills, rfl, rfl⟩

/-- A literal that is read as a construct is the text of the construct. -/
theorem Construct.literal_eq {k : Nat} {x : List Char} {l : Literal}
    (h : Construct k x (.node (.literal l))) : l = .ofText k x := by
  generalize hp : Piece.node (.literal l) = p at h
  cases h with
  | comment => cases hp; rfl
  | declaration => cases hp; rfl
  | program => cases hp
  | closeTag => cases hp
  | childless => cases hp
  | rawText => cases hp
  | openTag => cases hp

/-- At offset `k`, inside `depth` open elements, the whole text is one node. -/
inductive NodeText (limit depth k : Nat) : List Char → Token → Prop
  | plain {x : List Char} (hx : IsPlain x) : NodeText limit depth k x (.literal (.ofText k x))
  | construct {x : List Char} {t : Token} (hx : Construct k x (.node t)) :
    NodeText limit depth k x t
  | element {opening content closing name : List Char} {tag : OpenTag} {span : Span}
    {children : List Token} (hdepth : depth < limit)
    (hopening : Construct k opening (.openTag tag))
    (hcontent : Reads limit (depth + 1) (k + byteSize opening) content children)
    (hclosing : Construct (k + byteSize (opening ++ content)) closing (.closeTag name span))
    (hname : eqIgnoreCase tag.name name = true) :
    NodeText limit depth k (opening ++ (content ++ closing))
      (OpenElement.close ⟨tag, []⟩ children span.stop)

section

variable {limit depth k : Nat} {x text : List Char} {t : Token} {nodes : List Token}

/-- The text of a node is read as that node. -/
theorem NodeText.reads (h : NodeText limit depth k x t) : Reads limit depth k x [t] := by
  cases h with
  | plain hx => simpa only [List.append_nil] using Reads.text hx Stops.nil .nil
  | construct hx => simpa only [List.append_nil] using Reads.node hx .nil
  | element hdepth hopening hcontent hclosing hname =>
    simpa only [List.append_nil] using Reads.element hdepth hopening hcontent hclosing hname .nil

/-- The text of a node is not empty. -/
theorem NodeText.ne_nil (h : NodeText limit depth k x t) : x ≠ [] := by
  cases h with
  | plain hx => exact hx.ne_nil
  | construct hx => exact hx.ne_nil
  | element _ hopening =>
    intro hnil
    exact hopening.ne_nil (List.append_eq_nil_iff.mp hnil).1

/-- A node spans its text. -/
theorem NodeText.span_eq (h : NodeText limit depth k x t) : t.span = ⟨k, k + byteSize x⟩ := by
  cases h with
  | plain => rfl
  | construct hx => exact hx.node_span
  | element hdepth hopening hcontent hclosing hname =>
    obtain ⟨inner, rfl, htag, -, -⟩ := hopening.openTag_eq
    obtain ⟨inner', rfl, -, -, rfl⟩ := hclosing.closeTag_eq
    simp only [OpenElement.close, Token.span, htag.span, byteSize_append, Nat.add_assoc]

/-- A text literal is the text that it spans. -/
theorem NodeText.literal_eq {l : Literal} (h : NodeText limit depth k x (.literal l)) :
    l = .ofText k x := by
  generalize ht : Token.literal l = t at h
  cases h with
  | plain => cases ht; rfl
  | construct hx =>
    subst ht
    exact hx.literal_eq
  | element => cases ht

/-- The first node of a sequence is read from the front of its text, and the others behind it. -/
theorem Reads.uncons (h : Reads limit depth k text (t :: nodes)) :
    ∃ x rest, text = x ++ rest ∧ NodeText limit depth k x t ∧
      Reads limit depth (k + byteSize x) rest nodes := by
  cases h with
  | text hx _ hrest => exact ⟨_, _, rfl, .plain hx, hrest⟩
  | node hx hrest => exact ⟨_, _, rfl, .construct hx, hrest⟩
  | @element _ _ opening content closing rest _ _ _ _ _ hdepth hopening hcontent hclosing hname
      hrest =>
    refine ⟨opening ++ (content ++ closing), rest, ?_,
      .element hdepth hopening hcontent hclosing hname, ?_⟩
    · simp only [List.append_assoc]
    · rw [List.append_assoc] at hrest
      exact hrest

/-- Every node of a sequence is read from a stretch of the text. -/
theorem Reads.exists_nodeText {s : Token} (h : Reads limit depth k text nodes) (hs : s ∈ nodes) :
    ∃ j x, NodeText limit depth j x s := by
  induction nodes generalizing k text with
  | nil => cases hs
  | cons t nodes ih =>
    obtain ⟨x, rest, rfl, ht, hrest⟩ := h.uncons
    rcases List.mem_cons.mp hs with rfl | hs
    · exact ⟨_, _, ht⟩
    · exact ih hrest hs

/-- A node goes in front of a sequence, plain text only where it stops. -/
theorem Reads.cons {rest : List Char} (ht : NodeText limit depth k x t)
    (hstops : IsPlain x → Stops rest) (hrest : Reads limit depth (k + byteSize x) rest nodes) :
    Reads limit depth k (x ++ rest) (t :: nodes) := by
  cases ht with
  | plain hx => exact .text hx (hstops hx) hrest
  | construct hx => exact .node hx hrest
  | element hdepth hopening hcontent hclosing hname =>
    rw [List.append_assoc, List.append_assoc]
    rw [← List.append_assoc] at hrest
    exact .element hdepth hopening hcontent hclosing hname hrest

/-- A text that is not empty has bytes. -/
theorem byteSize_pos (h : x ≠ []) : 0 < byteSize x :=
  Nat.lt_of_lt_of_le (List.length_pos_iff.mpr h) (length_le_byteSize x)

/-- Every node of a sequence spans some of its text. -/
theorem Reads.span_of_mem (h : Reads limit depth k text nodes) (ht : t ∈ nodes) :
    k ≤ t.span.start ∧ t.span.start < t.span.stop ∧ t.span.stop ≤ k + byteSize text := by
  induction nodes generalizing k text with
  | nil => cases ht
  | cons s nodes ih =>
    obtain ⟨x, rest, rfl, hs, hrest⟩ := h.uncons
    have hpos := byteSize_pos hs.ne_nil
    rw [byteSize_append]
    rcases List.mem_cons.mp ht with rfl | ht
    · rw [hs.span_eq]
      dsimp only
      omega
    · obtain ⟨hstart, hlt, hstop⟩ := ih hrest ht
      omega

/-- The node that ends where the text of a sequence ends is its last. -/
theorem Reads.getLast?_of_stop (h : Reads limit depth k text nodes) (ht : t ∈ nodes)
    (hstop : t.span.stop = k + byteSize text) : nodes.getLast? = some t := by
  induction nodes generalizing k text with
  | nil => cases ht
  | cons s nodes ih =>
    obtain ⟨x, rest, rfl, hs, hrest⟩ := h.uncons
    rw [byteSize_append] at hstop
    rcases List.mem_cons.mp ht with rfl | ht
    · cases nodes with
      | nil => rfl
      | cons u nodes =>
        have hu := hrest.span_of_mem List.mem_cons_self
        rw [hs.span_eq] at hstop
        dsimp only at hstop
        omega
    · rw [List.getLast?_cons, ih hrest ht (by omega)]
      rfl

/-- Without nodes there is no text. -/
theorem Reads.text_eq_nil (h : Reads limit depth k text []) : text = [] := by
  cases h
  rfl

end

mutual

/-- A node and the nodes inside it. -/
def Token.nodes : Token → List Token
  | .element e => .element e :: e.innerNodes
  | t => [t]

/-- The nodes inside an element. -/
def Element.innerNodes : Element → List Token
  | ⟨_, _, children, _⟩ => tokenNodes children

/-- Several nodes and the nodes inside them. -/
def tokenNodes : List Token → List Token
  | [] => []
  | t :: ts => t.nodes ++ tokenNodes ts

end

/-- The nodes inside some tokens are those inside each of them. -/
theorem mem_tokenNodes_iff {t : Token} {ts : List Token} :
    t ∈ tokenNodes ts ↔ ∃ s ∈ ts, t ∈ s.nodes := by
  induction ts with
  | nil => simp [tokenNodes]
  | cons s ts ih => simp [tokenNodes, ih]

/-- Fewer nodes have fewer nodes inside them. -/
theorem tokenNodes_subset {ts ts' : List Token} (h : ts ⊆ ts') : tokenNodes ts ⊆ tokenNodes ts' := by
  intro t ht
  obtain ⟨s, hs, ht⟩ := mem_tokenNodes_iff.mp ht
  exact mem_tokenNodes_iff.mpr ⟨s, h hs, ht⟩

/-- Dropping layout adds no node. -/
theorem dropLayout_subset (children : List Token) : dropLayout children ⊆ children := by
  unfold dropLayout
  split
  · exact List.Subset.refl _
  · intro t ht
    exact (List.mem_filter.mp ht).1

/-- Dropping blank roots adds no node. -/
theorem dropRootBlanks_subset (nodes : List Token) : dropRootBlanks nodes ⊆ nodes := by
  intro t ht
  exact (List.mem_filter.mp ht).1

/-- The nodes of a document at every depth: its components, its markup and the nodes inside them. -/
def Document.nodes (d : Document) : List Token :=
  tokenNodes (d.components.map Token.element ++ d.markup)

/-- The nodes of a document are among those of its roots. -/
theorem Document.mem_tokenNodes_of_mem_nodes {roots : List Token} {t : Token}
    (h : t ∈ (Document.ofNodes roots).nodes) : t ∈ tokenNodes roots := by
  refine tokenNodes_subset ?_ h
  intro s hs
  rcases List.mem_append.mp hs with hs | hs
  · obtain ⟨e, he, rfl⟩ := List.mem_map.mp hs
    exact mem_roots_of_mem_components he
  · exact mem_roots_of_mem_markup hs

/-- What stands at a stretch of a template: a whole node, or the content of a raw-text element. -/
def Occurs (limit k : Nat) (x : List Char) (t : Token) : Prop :=
  (∃ depth, NodeText limit depth k x t) ∨ (x ≠ [] ∧ t = .literal (.ofText k x))

section

variable {limit depth k : Nat} {x text : List Char} {t : Token} {nodes : List Token}

private theorem Construct.mem_nodes {p : Piece} {s : Token} (h : Construct k x p)
    (hp : p = .node s) (ht : t ∈ s.nodes) :
    t = s ∨ ∃ before content after, x = before ++ (content ++ after) ∧ content ≠ [] ∧
      t = .literal (.ofText (k + byteSize before) content) := by
  cases h with
  | comment | declaration | program | childless =>
    cases hp
    exact Or.inl (List.mem_singleton.mp ht)
  | closeTag | openTag => cases hp
  | @rawText inner content close tag htag hvoid hname hclose hcontent =>
    cases hp
    rcases List.mem_cons.mp ht with rfl | ht
    · exact Or.inl rfl
    · cases content with
      | nil => cases ht
      | cons c content =>
        refine Or.inr ⟨tagText inner, c :: content, close, rfl, List.cons_ne_nil _ _, ?_⟩
        exact List.mem_singleton.mp ht

private theorem Construct.occurs_of_mem {s : Token} (h : Construct k x (.node s))
    (ht : t ∈ s.nodes) :
    ∃ before y after, x = before ++ (y ++ after) ∧ Occurs limit (k + byteSize before) y t := by
  rcases h.mem_nodes rfl ht with rfl | ⟨before, content, after, rfl, hne, rfl⟩
  · exact ⟨[], x, [], by rw [List.append_nil, List.nil_append], Or.inl ⟨0, .construct h⟩⟩
  · exact ⟨before, content, after, rfl, Or.inr ⟨hne, rfl⟩⟩

/-- Every node of a template, at any depth, occurs at a stretch of its text. -/
theorem Reads.occurs_of_mem (h : Reads limit depth k text nodes) (ht : t ∈ tokenNodes nodes) :
    ∃ before y after, text = before ++ (y ++ after) ∧ Occurs limit (k + byteSize before) y t := by
  induction h with
  | nil => cases ht
  | @text depth k x rest nodes hx hstops hrest ih =>
    rcases List.mem_append.mp ht with ht | ht
    · obtain rfl := List.mem_singleton.mp ht
      exact ⟨[], x, rest, rfl, Or.inl ⟨depth, .plain hx⟩⟩
    · obtain ⟨before, y, after, rfl, hy⟩ := ih ht
      refine ⟨x ++ before, y, after, by rw [List.append_assoc], ?_⟩
      rwa [byteSize_append, ← Nat.add_assoc]
  | @node depth k x rest s nodes hx hrest ih =>
    rcases List.mem_append.mp ht with ht | ht
    · obtain ⟨before, y, after, rfl, hy⟩ := hx.occurs_of_mem ht
      exact ⟨before, y, after ++ rest, by simp only [List.append_assoc], hy⟩
    · obtain ⟨before, y, after, rfl, hy⟩ := ih ht
      refine ⟨x ++ before, y, after, by rw [List.append_assoc], ?_⟩
      rwa [byteSize_append, ← Nat.add_assoc]
  | @element depth k opening content closing rest name tag span children nodes hdepth hopening
      hcontent hclosing hname hrest ihcontent ihrest =>
    rcases List.mem_append.mp ht with ht | ht
    · rcases List.mem_cons.mp ht with rfl | ht
      · refine ⟨[], opening ++ (content ++ closing), rest, ?_,
          Or.inl ⟨depth, .element hdepth hopening hcontent hclosing hname⟩⟩
        simp only [List.nil_append, List.append_assoc]
      · obtain ⟨before, y, after, rfl, hy⟩ := ihcontent (tokenNodes_subset (dropLayout_subset _) ht)
        refine ⟨opening ++ before, y, after ++ (closing ++ rest), ?_, ?_⟩
        · simp only [List.append_assoc]
        · rwa [byteSize_append, ← Nat.add_assoc]
    · obtain ⟨before, y, after, rfl, hy⟩ := ihrest ht
      refine ⟨opening ++ content ++ closing ++ before, y, after, ?_, ?_⟩
      · simp only [List.append_assoc]
      · rwa [byteSize_append, ← Nat.add_assoc]

/-- The span of what occurs is that of its text. -/
theorem Occurs.span_eq (h : Occurs limit k x t) : t.span = ⟨k, k + byteSize x⟩ := by
  rcases h with ⟨depth, htext⟩ | ⟨-, rfl⟩
  · exact htext.span_eq
  · rfl

/-- Every node of a template, at any depth, occurs at the slice of the source that it spans. -/
theorem Reads.slice_of_mem {source : List Char} (h : Reads limit 0 0 source nodes)
    (ht : t ∈ tokenNodes nodes) :
    ∃ y, t.span.slice? source = some y ∧ Occurs limit t.span.start y t := by
  obtain ⟨before, y, after, rfl, hy⟩ := h.occurs_of_mem ht
  rw [Nat.zero_add] at hy
  refine ⟨y, ?_, ?_⟩
  · rw [hy.span_eq]
    exact Span.slice?_append before y after
  · rw [hy.span_eq]
    exact hy

end

end TemplateReader
