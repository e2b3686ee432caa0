import TemplateReader.Proofs.Template.Concatenation
import TemplateReader.Proofs.Template.Shift

/-!
# One node in place of another

Any node of a template that is no plain text can be replaced by another that is
read at its place. The nodes before it stay as they are, those behind it stand
at the same distance from its end, and the elements around it end as far behind
it as they did.
-/

namespace TemplateReader

mutual

/-- A node and the nodes inside it that are read as markup, which raw text is not. -/
def Token.markupNodes : Token → List Token
  | .element e => .element e :: e.innerMarkup
  | t => [t]

/-- The nodes inside an element that are read as markup. -/
def Element.innerMarkup : Element → List Token
  | ⟨name, _, children, _⟩ =>
    if isRawTextElement name.toList then [] else markupNodesOf children

/-- Several nodes and the nodes inside them that are read as markup. -/
def markupNodesOf : List Token → List Token
  | [] => []
  | t :: ts => t.markupNodes ++ markupNodesOf ts

end

/-- The nodes that are read as markup are those of each node of a list. -/
theorem mem_markupNodesOf_iff {t : Token} {ts : List Token} :
    t ∈ markupNodesOf ts ↔ ∃ s ∈ ts, t ∈ s.markupNodes := by
  induction ts with
  | nil => simp [markupNodesOf]
  | cons s ts ih => simp [markupNodesOf, ih]

/-- Fewer nodes have fewer nodes inside them. -/
theorem markupNodesOf_subset {ts ts' : List Token} (h : ts ⊆ ts') :
    markupNodesOf ts ⊆ markupNodesOf ts' := by
  intro t ht
  obtain ⟨s, hs, ht⟩ := mem_markupNodesOf_iff.mp ht
  exact mem_markupNodesOf_iff.mpr ⟨s, h hs, ht⟩

/-- One token with another in place of a node that is it or stands inside it. What ends in front of
the node stays as it is, and what follows the node follows the other at the same distance from their
ends. -/
inductive Token.Edited (t t' : Token) : Token → Token → Prop
  | here : Edited t t' t t'
  | inside {name : String} {attributes : Object} {start stop : Nat} {before behind : List Token}
    {s s' : Token} (hvoid : isVoidElement name.toList = false)
    (hraw : isRawTextElement name.toList = false)
    (hbefore : ∀ b ∈ before, b.span.stop ≤ t.span.start) (h : Edited t t' s s') :
    Edited t t'
      (.element ⟨name, attributes, before ++ s :: behind.map (Token.move (· + t.span.stop)),
        ⟨start, stop + t.span.stop⟩⟩)
      (.element ⟨name, attributes, before ++ s' :: behind.map (Token.move (· + t'.span.stop)),
        ⟨start, stop + t'.span.stop⟩⟩)

/-- Several tokens, one of them with another in place of a node. -/
inductive EditedNodes (t t' : Token) : List Token → List Token → Prop
  | mk {before behind : List Token} {s s' : Token}
    (hbefore : ∀ b ∈ before, b.span.stop ≤ t.span.start) (h : Token.Edited t t' s s') :
    EditedNodes t t' (before ++ s :: behind.map (Token.move (· + t.span.stop)))
      (before ++ s' :: behind.map (Token.move (· + t'.span.stop)))

section

variable {t t' s s' : Token} {nodes nodes' : List Token}

/-- What is not blank on either side is not blank when it is edited. -/
theorem Token.Edited.isBlankText_eq_false (h : Token.Edited t t' s s')
    (ht : isBlankText t = false) (ht' : isBlankText t' = false) :
    isBlankText s = false ∧ isBlankText s' = false := by
  cases h with
  | here => exact ⟨ht, ht'⟩
  | inside => exact ⟨rfl, rfl⟩

/-- The first of some nodes can be edited. -/
theorem EditedNodes.head (h : Token.Edited t t' s s') {behind : List Token} :
    EditedNodes t t' (s :: behind.map (Token.move (· + t.span.stop)))
      (s' :: behind.map (Token.move (· + t'.span.stop))) := by
  rw [← List.nil_append (s :: _), ← List.nil_append (s' :: _)]
  exact .mk (List.forall_mem_nil _) h

/-- Behind a node that ends in front of the edited one, the others can be edited. -/
theorem EditedNodes.cons (h : EditedNodes t t' nodes nodes') (hs : s.span.stop ≤ t.span.start) :
    EditedNodes t t' (s :: nodes) (s :: nodes') := by
  cases h with
  | mk hbefore h =>
    rw [← List.cons_append, ← List.cons_append]
    exact .mk (List.forall_mem_cons.mpr ⟨hs, hbefore⟩) h

/-- Leaving out nodes that are blank leaves the same nodes out on both sides. -/
theorem EditedNodes.filter (h : EditedNodes t t' nodes nodes') (ht : isBlankText t = false)
    (ht' : isBlankText t' = false) {keep : Token → Bool}
    (hblank : ∀ s, isBlankText s = false → keep s = true)
    (hmove : ∀ (k : Nat) (s : Token), keep (s.move (· + k)) = keep s) :
    EditedNodes t t' (nodes.filter keep) (nodes'.filter keep) := by
  cases h with
  | @mk before behind s s' hbefore h =>
    obtain ⟨hs, hs'⟩ := h.isBlankText_eq_false ht ht'
    have hbehind (k : Nat) : (behind.map (Token.move (· + k))).filter keep =
        (behind.filter keep).map (Token.move (· + k)) := by
      rw [List.filter_map]
      exact congrArg _ (List.filter_congr fun s _ => hmove k s)
    rw [List.filter_append, List.filter_append, List.filter_cons, List.filter_cons,
      if_pos (hblank s hs), if_pos (hblank s' hs'), hbehind, hbehind]
    exact .mk (fun b hb => hbefore b (List.mem_filter.mp hb).1) h

/-- Editing one node leaves as many as there were. -/
theorem EditedNodes.length_eq (h : EditedNodes t t' nodes nodes') :
    nodes.length = nodes'.length := by
  cases h with
  | mk _ h => simp only [List.length_append, List.length_cons, List.length_map]

/-- Layout is recognised around a node whatever stands in its place. -/
theorem EditedNodes.dropLayout (h : EditedNodes t t' nodes nodes') (ht : isBlankText t = false)
    (ht' : isBlankText t' = false) :
    EditedNodes t t' (dropLayout nodes) (dropLayout nodes') := by
  unfold TemplateReader.dropLayout
  rw [← h.length_eq]
  split
  · exact h
  · refine h.filter ht ht' ?_ ?_
    · intro s hs
      rw [hs]
      rfl
    · intro k s
      rw [isBlankText_move, hasLineFeed_move]

/-- So are the blanks between the root nodes. -/
theorem EditedNodes.dropRootBlanks (h : EditedNodes t t' nodes nodes')
    (ht : isBlankText t = false) (ht' : isBlankText t' = false) :
    EditedNodes t t' (dropRootBlanks nodes) (dropRootBlanks nodes') := by
  refine h.filter ht ht' ?_ ?_
  · intro s hs
    rw [hs]
    rfl
  · intro k s
    rw [isBlankText_move]

/-- An element around edited children is edited. -/
theorem EditedNodes.close (h : EditedNodes t t' nodes nodes') (ht : isBlankText t = false)
    (ht' : isBlankText t' = false) {tag : OpenTag} (hvoid : isVoidElement tag.name = false)
    (hraw : isRawTextElement tag.name = false) (stop : Nat) :
    Token.Edited t t' (OpenElement.close ⟨tag, []⟩ nodes (stop + t.span.stop))
      (OpenElement.close ⟨tag, []⟩ nodes' (stop + t'.span.stop)) := by
  have hchildren := h.dropLayout ht ht'
  unfold OpenElement.close
  generalize TemplateReader.dropLayout nodes = children at hchildren
  generalize TemplateReader.dropLayout nodes' = children' at hchildren
  rw [← String.toList_ofList (l := tag.name)] at hvoid hraw
  cases hchildren with
  | mk hbefore h => exact .inside hvoid hraw hbefore h

end

section

variable {limit depth k : Nat} {x y text : List Char} {t : Token} {nodes : List Token}

/-- A node ends where its text ends. -/
theorem NodeText.stop_eq (h : NodeText limit depth k x t) : t.span.stop = k + byteSize x := by
  rw [h.span_eq]

/-- A construct or an element begins with an opening. -/
theorem NodeText.opens (h : NodeText limit depth k x t) (ht : IsClosed t) :
    (opening? x).isSome := by
  cases h with
  | plain hx =>
    rw [IsClosed, Literal.ofText, String.toList_ofList] at ht
    exact absurd hx ht
  | construct hx => exact hx.opens
  | element _ hopening => exact opening?_append_isSome hopening.opens _

/-- What begins with an opening is not blank. -/
theorem NodeText.isBlankText_eq_false (h : NodeText limit depth k x t) (hx : (opening? x).isSome) :
    isBlankText t = false := by
  cases t with
  | literal l =>
    rw [h.literal_eq, isBlankText, Literal.ofText, String.toList_ofList]
    rcases opening?_isSome_iff.mp hx with ⟨_, rfl⟩ | ⟨_, rfl⟩ | ⟨_, _, rfl, -⟩ | ⟨_, _, rfl, -⟩
    all_goals rfl
  | identifier | object | property | array | program | element | importDeclaration => rfl

/-- A construct has no markup inside it. -/
theorem Construct.eq_of_mem_markupNodes {p : Piece} {s : Token} (h : Construct k x p)
    (hp : p = .node s) (ht : t ∈ s.markupNodes) : t = s := by
  cases h with
  | comment | declaration | program =>
    cases hp
    exact List.mem_singleton.mp ht
  | closeTag | openTag => cases hp
  | childless =>
    cases hp
    rw [Token.markupNodes, Element.innerMarkup, markupNodesOf, ite_self] at ht
    exact List.mem_singleton.mp ht
  | rawText _ _ hname =>
    cases hp
    rw [Token.markupNodes, Element.innerMarkup, String.toList_ofList, if_pos hname] at ht
    exact List.mem_singleton.mp ht

/-- A node of a sequence is read from a stretch of its text, and any other node that is read from a
text in the place of the stretch, and is no plain text, may stand there instead. -/
def Replaceable (limit depth k : Nat) (text : List Char) (nodes : List Token) (t : Token) : Prop :=
  ∃ depth' before x after, text = before ++ (x ++ after) ∧
    NodeText limit depth' (k + byteSize before) x t ∧ (opening? x).isSome ∧
    ∀ x' t', NodeText limit depth' (k + byteSize before) x' t' → (opening? x').isSome →
      ∃ nodes', Reads limit depth k (before ++ (x' ++ after)) nodes' ∧
        EditedNodes t t' nodes nodes' ∧ (Stops text → Stops (before ++ (x' ++ after)))

private theorem NodeText.stops_append {rest rest' : List Char} (h : NodeText limit depth k x t)
    (hstops : IsPlain x → Stops rest) (htext : Stops (x ++ rest)) : Stops (x ++ rest') := by
  by_cases hopens : (opening? x).isSome
  · exact Or.inr (opening?_append_isSome hopens rest')
  · have hnone : opening? x = none := by simpa using hopens
    have hplain : IsPlain x := by
      cases h with
      | plain hx => exact hx
      | construct hx => exact absurd hx.opens hopens
      | element _ hopening => exact absurd (opening?_append_isSome hopening.opens _) hopens
    rcases htext with hnil | hsome
    · exact absurd (List.append_eq_nil_iff.mp hnil).1 h.ne_nil
    · rw [opening?_append_of_stops h.ne_nil (hstops hplain) hnone] at hsome
      cases hsome

/-- The first node of a sequence can be replaced. -/
theorem Replaceable.here {rest : List Char} (h : NodeText limit depth k x t)
    (hopens : (opening? x).isSome) (hrest : Reads limit depth (k + byteSize x) rest nodes) :
    Replaceable limit depth k (x ++ rest) (t :: nodes) t := by
  refine ⟨depth, [], x, rest, rfl, h, hopens, ?_⟩
  intro x' t' hx' hopens'
  have hx' : NodeText limit depth k x' t' := hx'
  rw [← Nat.zero_add (k + byteSize x)] at hrest
  obtain ⟨base, hbase, rfl⟩ := hrest.exists_base
  have hbehind := hbase.shift (k + byteSize x')
  rw [Nat.zero_add] at hbehind
  have hreads := hbehind.cons hx' fun hplain => absurd hplain (not_isPlain_of_opens hopens')
  refine ⟨_, hreads, ?_, fun _ => Or.inr (opening?_append_isSome hopens' rest)⟩
  rw [← h.stop_eq, ← hx'.stop_eq]
  exact .head .here

/-- What can be replaced in a sequence can be replaced behind one more node. -/
theorem Replaceable.behind {rest : List Char} {s : Token} (hs : NodeText limit depth k x s)
    (hstops : IsPlain x → Stops rest) (h : Replaceable limit depth (k + byteSize x) rest nodes t) :
    Replaceable limit depth k (x ++ rest) (s :: nodes) t := by
  obtain ⟨depth', before, y, after, rfl, hy, hopens, hreplace⟩ := h
  have hoffset : k + byteSize x + byteSize before = k + byteSize (x ++ before) := by
    rw [byteSize_append, Nat.add_assoc]
  rw [hoffset] at hy hreplace
  refine ⟨depth', x ++ before, y, after, by simp only [List.append_assoc], hy, hopens, ?_⟩
  intro y' t' hy' hopens'
  obtain ⟨nodes', hreads, hedited, hstops'⟩ := hreplace y' t' hy' hopens'
  have hfront : s.span.stop ≤ t.span.start := by
    rw [hs.stop_eq, hy.span_eq, ← hoffset]
    exact Nat.le_add_right _ _
  rw [List.append_assoc]
  exact ⟨s :: nodes', hreads.cons hs fun hplain => hstops' (hstops hplain), hedited.cons hfront,
    hs.stops_append hstops⟩

/-- What can be replaced in the content of an element can be replaced in the element. -/
theorem Replaceable.inside {opening content closing rest name : List Char} {tag : OpenTag}
    {span : Span} {children : List Token} (hdepth : depth < limit)
    (hopening : Construct k opening (.openTag tag))
    (h : Replaceable limit (depth + 1) (k + byteSize opening) content children t)
    (hclosing : Construct (k + byteSize (opening ++ content)) closing (.closeTag name span))
    (hname : eqIgnoreCase tag.name name = true)
    (hrest : Reads limit depth (k + byteSize (opening ++ content ++ closing)) rest nodes) :
    Replaceable limit depth k (opening ++ (content ++ (closing ++ rest)))
      (OpenElement.close ⟨tag, []⟩ children span.stop :: nodes) t := by
  obtain ⟨-, -, -, hvoid, hraw⟩ := hopening.openTag_eq
  obtain ⟨depth', before, y, after, rfl, hy, hopens, hreplace⟩ := h
  have hoffset : k + byteSize opening + byteSize before = k + byteSize (opening ++ before) := by
    rw [byteSize_append, Nat.add_assoc]
  rw [hoffset] at hy hreplace
  -- The content ends as far behind the node as it did, whichever node stands there.
  have hend {x : List Char} {s : Token}
      (hx : NodeText limit depth' (k + byteSize (opening ++ before)) x s) :
      k + byteSize (opening ++ (before ++ (x ++ after))) = byteSize after + s.span.stop := by
    rw [hx.stop_eq]
    simp only [byteSize_append]
    omega
  rw [byteSize_append, ← Nat.add_assoc, hend hy, Nat.add_right_comm] at hrest
  rw [hend hy] at hclosing
  obtain ⟨span, hspan, rfl⟩ := hclosing.exists_base_closeTag
  obtain ⟨base, hbase, rfl⟩ := hrest.exists_base
  refine ⟨depth', opening ++ before, y, after ++ (closing ++ rest), ?_, hy, hopens, ?_⟩
  · simp only [List.append_assoc]
  intro y' t' hy' hopens'
  obtain ⟨children', hcontent, hedited, -⟩ := hreplace y' t' hy' hopens'
  have hclosing' := hspan.shift t'.span.stop
  have hrest' := hbase.shift t'.span.stop
  rw [Nat.add_right_comm, ← hend hy', Nat.add_assoc, ← byteSize_append] at hrest'
  rw [← hend hy'] at hclosing'
  have hreads := Reads.element hdepth hopening hcontent hclosing' hname hrest'
  have helement := hedited.close (hy.isBlankText_eq_false hopens)
    (hy'.isBlankText_eq_false hopens') hvoid hraw span.stop
  refine ⟨_, ?_, .head helement, fun _ => ?_⟩
  · rw [List.append_assoc, List.append_assoc] at hreads
    rw [List.append_assoc]
    exact hreads
  · rw [List.append_assoc]
    exact hopening.stops _

/-- Every node that is read as markup, at any depth, can be replaced unless it is plain text. -/
theorem Reads.replaceable (h : Reads limit depth k text nodes) (ht : t ∈ markupNodesOf nodes)
    (hclosed : IsClosed t) : Replaceable limit depth k text nodes t := by
  induction h with
  | nil => cases ht
  | @text depth k x rest nodes hx hstops hrest ih =>
    rcases List.mem_append.mp ht with ht | ht
    · obtain rfl := List.mem_singleton.mp ht
      rw [IsClosed, Literal.ofText, String.toList_ofList] at hclosed
      exact absurd hx hclosed
    · exact (ih ht).behind (.plain hx) fun _ => hstops
  | @node depth k x rest s nodes hx hrest ih =>
    rcases List.mem_append.mp ht with ht | ht
    · obtain rfl := hx.eq_of_mem_markupNodes rfl ht
      exact .here (.construct hx) hx.opens hrest
    · exact (ih ht).behind (.construct hx) fun hplain =>
        absurd hplain (not_isPlain_of_opens hx.opens)
  | @element depth k opening content closing rest name tag span children nodes hdepth hopening
      hcontent hclosing hname hrest ihcontent ihrest =>
    have helement := NodeText.element hdepth hopening hcontent hclosing hname
    have hopens := helement.opens trivial
    have htext : opening ++ (content ++ (closing ++ rest)) =
        opening ++ (content ++ closing) ++ rest := by simp only [List.append_assoc]
    rcases List.mem_append.mp ht with ht | ht
    · rcases List.mem_cons.mp ht with rfl | ht
      · rw [List.append_assoc] at hrest
        rw [htext]
        exact .here helement hopens hrest
      · obtain ⟨-, -, -, -, hraw⟩ := hopening.openTag_eq
        rw [Element.innerMarkup, String.toList_ofList, hraw] at ht
        have hinside := ihcontent (markupNodesOf_subset (dropLayout_subset children) ht)
        exact hinside.inside hdepth hopening hclosing hname hrest
    · rw [List.append_assoc] at ihrest
      rw [htext]
      exact (ihrest ht).behind helement fun hplain => absurd hplain (not_isPlain_of_opens hopens)

end

end TemplateReader
