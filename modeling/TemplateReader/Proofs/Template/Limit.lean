import Mathlib.Order.Bounds.Defs
import TemplateReader.Proofs.Template.Ancestors
import TemplateReader.Proofs.Template.History

/-!
# The nesting limit

The nesting limit has no part in how a template is read except that it refuses
the first element that would nest its children too deeply. Such an element is
one that is not raw text and has a close tag of its own. Any other element may
stand inside as many elements as the limit allows, and what belongs to its tag
then stands inside one more.
-/

namespace TemplateReader

/-- An element nests its children: it is not raw text, and in the source it is closed by a close tag
of its own. -/
def Element.Nests (e : Element) (source : List Char) : Prop :=
  isRawTextElement e.name.toList = false ∧ ∃ inner content closing,
    e.span.slice? source = some (tagText inner ++ (content ++ tagText ('/' :: closing))) ∧
      e.OpensWith inner false ∧ FillsTag ('/' :: closing) ∧
      eqIgnoreCase e.name.toList (tagName closing) = true

/-- Where the elements begin that nest their children and stand inside exactly `n` elements of some
nodes. -/
def nestingStarts (source : List Char) (nodes : List Token) (n : Nat) : Set Nat :=
  {start | ∃ e, Element.Nests e source ∧ e.span.start = start ∧
    ∃ s ∈ nodes, ∃ above, above.length = n ∧ (Token.element e).Within above s}

/-- The reading of a text inside `depth` elements is refused at the first element that would nest
its children inside `n` further ones. -/
def CutsOff (limit depth n k : Nat) (source text back : List Char) (nodes : List Token) : Prop :=
  ∃ span : Span, IsLeast (nestingStarts source nodes n) span.start ∧
    ∀ stack before, stack.length = depth →
      readOn limit stack before ⟨k, text ++ back⟩ = .error ⟨.nestingTooDeep limit, span⟩

section

variable {limit limit' depth k n start : Nat} {source x text rest back : List Char} {s t : Token}
  {nodes children : List Token} {e : Element}

/-- A text begins with one tag at most. -/
theorem tagText_append_inj {a b r r' : List Char} (ha : FillsTag a) (hb : FillsTag b)
    (h : tagText a ++ r = tagText b ++ r') : a = b ∧ r = r' := by
  rw [tagText_append, tagText_append, List.cons.injEq] at h
  have hsplit : splitTag (a ++ '>' :: r) = .ok (b, r') := splitTag_eq_ok_iff.mpr ⟨h.2, hb⟩
  rw [splitTag_eq_ok_iff.mpr ⟨rfl, ha⟩] at hsplit
  exact Prod.mk.inj (Except.ok.inj hsplit)

/-- An element that nests its children is not read as a construct, so there is room for them. -/
theorem NodeText.lt_of_nests (h : NodeText limit depth k x (.element e))
    (hslice : e.span.slice? source = some x) (hnests : e.Nests source) : depth < limit := by
  obtain ⟨hraw, inner, content, closing, hslice', hopens, -, -⟩ := hnests
  rw [hslice] at hslice'
  have hx := Option.some.inj hslice'
  generalize ht : Token.element e = t at h
  cases h with
  | plain => cases ht
  | construct hconstruct =>
    subst ht
    generalize hp : Piece.node (.element e) = p at hconstruct
    cases hconstruct with
    | comment | declaration | program | closeTag | openTag => cases hp
    | @childless inner' _ _ htag =>
      -- Its text is one tag, with no close tag behind it.
      rw [← List.append_nil (tagText inner')] at hx
      have hrest := (tagText_append_inj htag.fills hopens.fills hx).2
      exact absurd (List.append_eq_nil_iff.mp hrest.symm).2 (tagText_ne_nil _)
    | rawText _ _ hname =>
      cases hp
      rw [String.toList_ofList, hname] at hraw
      cases hraw
  | element hdepth => exact hdepth

/-- An element that nests its children begins in the text that holds it, and there is room for
them. -/
theorem HoldsNode.of_nests (h : HoldsNode limit depth k text (.element e))
    (hc : Cursor.IsIn ⟨k, text ++ back⟩ source) (hnests : e.Nests source) :
    k ≤ e.span.start ∧ e.span.start ≤ k + byteSize text ∧ depth < limit := by
  obtain ⟨before, x, after, rfl, hx⟩ := h
  have hspan := hx.span_eq
  have hpasses : Cursor.Passes ⟨k, before ++ (x ++ after) ++ back⟩ before
      ⟨k + byteSize before, x ++ (after ++ back)⟩ := by
    refine ⟨?_, rfl⟩
    simp only [List.append_assoc]
  have hslice := (hc.passes hpasses).slice?_eq rfl
  rw [← hspan] at hslice
  have hstart : e.span.start = k + byteSize before := congrArg Span.start hspan
  refine ⟨?_, ?_, hx.lt_of_nests hslice hnests⟩
  · rw [hstart]
    exact Nat.le_add_right _ _
  · rw [hstart, byteSize_append]
    omega

/-- The same of the elements that nest their children further inside a text. -/
theorem Reads.of_mem_nestingStarts (h : Reads limit depth k text nodes) (hdepth : depth ≤ limit)
    (hc : Cursor.IsIn ⟨k, text ++ back⟩ source) (hstart : start ∈ nestingStarts source nodes n) :
    k ≤ start ∧ start ≤ k + byteSize text ∧ depth + n < limit := by
  obtain ⟨e, hnests, rfl, s, hs, above, rfl, hwithin⟩ := hstart
  cases h.sits hdepth hs hwithin with
  | node _ hnode => exact hnode.of_nests hc hnests
  | detail _ _ _ hne => exact absurd rfl (hne e)

/-- Elements that nest begin in the first of some nodes or in the others. -/
theorem mem_nestingStarts_cons :
    start ∈ nestingStarts source (s :: nodes) n ↔
      start ∈ nestingStarts source [s] n ∨ start ∈ nestingStarts source nodes n := by
  constructor
  · rintro ⟨e, hnests, hstart, s', hs', hwithin⟩
    rcases List.mem_cons.mp hs' with rfl | hs'
    · exact Or.inl ⟨e, hnests, hstart, s', List.mem_singleton_self _, hwithin⟩
    · exact Or.inr ⟨e, hnests, hstart, s', hs', hwithin⟩
  · rintro (⟨e, hnests, hstart, s', hs', hwithin⟩ | ⟨e, hnests, hstart, s', hs', hwithin⟩)
    · obtain rfl := List.mem_singleton.mp hs'
      exact ⟨e, hnests, hstart, s', List.mem_cons_self, hwithin⟩
    · exact ⟨e, hnests, hstart, s', List.mem_cons_of_mem _ hs', hwithin⟩

/-- The elements inside an element are those of its children, layout or not, one element deeper. -/
theorem mem_nestingStarts_close {tag : OpenTag} {stop : Nat} (hflat : tag.attributes.IsFlat) :
    start ∈ nestingStarts source [OpenElement.close ⟨tag, []⟩ children stop] (n + 1) ↔
      start ∈ nestingStarts source children n := by
  constructor
  · rintro ⟨e, hnests, hstart, s, hs, above, hlength, hwithin⟩
    obtain rfl := List.mem_singleton.mp hs
    cases hwithin with
    | refl => cases hlength
    | attributes h => exact absurd rfl ((hflat.within h).2 e)
    | @child _ s above hs h =>
      rw [List.length_append, List.length_singleton, Nat.add_right_cancel_iff] at hlength
      exact ⟨e, hnests, hstart, s, dropLayout_subset _ hs, above, hlength, h⟩
  · rintro ⟨e, hnests, hstart, s, hs, above, rfl, hwithin⟩
    have hkeep : s ∈ dropLayout children := by
      unfold dropLayout
      split
      · exact hs
      · rw [List.mem_filter, isBlankText_of_within hwithin]
        exact ⟨hs, rfl⟩
    refine ⟨e, hnests, hstart, _, List.mem_singleton_self _, _, ?_, .child hkeep hwithin⟩
    rw [List.length_append, List.length_singleton]

/-- A node is read, and added to those before it. -/
theorem NodeText.readOn_append {stack : List OpenElement} {before : List Token}
    (h : NodeText limit depth k x t) (hstops : IsPlain x → Stops rest)
    (hstack : stack.length = depth) :
    readOn limit stack before ⟨k, x ++ rest⟩ =
      readOn limit stack (t :: before) ⟨k + byteSize x, rest⟩ := by
  refine h.reads.readOn_append stack hstack before rest ?_
  rintro ⟨l, hl, hplain⟩
  obtain rfl : t = .literal l := Option.some.inj hl
  rw [h.literal_eq, Literal.ofText, String.toList_ofList] at hplain
  exact hstops hplain

/-- A reading that is cut off is cut off behind a further node as well: all elements of the node
have room for their children. -/
theorem CutsOff.behind (h : CutsOff limit depth n (k + byteSize x) source rest back nodes)
    (hs : NodeText limit depth k x s) (hstops : IsPlain x → Stops (rest ++ back))
    (hn : depth + n = limit) (hc : Cursor.IsIn ⟨k, x ++ (rest ++ back)⟩ source) :
    CutsOff limit depth n k source (x ++ rest) back (s :: nodes) := by
  obtain ⟨span, ⟨hmem, hlower⟩, hread⟩ := h
  refine ⟨span, ⟨mem_nestingStarts_cons.mpr (Or.inr hmem), fun start hstart => ?_⟩, ?_⟩
  · rcases mem_nestingStarts_cons.mp hstart with hstart | hstart
    · obtain ⟨-, -, hroom⟩ := hs.reads.of_mem_nestingStarts (by omega) hc hstart
      omega
    · exact hlower hstart
  · intro stack before hstack
    rw [List.append_assoc, hs.readOn_append hstops hstack]
    exact hread stack _ hstack

section

variable {opening content closing name : List Char} {tag : OpenTag} {span : Span}

/-- An element with a content and a close tag nests its children. -/
theorem nests_close (children : List Token) (hopening : Construct k opening (.openTag tag))
    (hclosing : Construct (k + byteSize (opening ++ content)) closing (.closeTag name span))
    (hname : eqIgnoreCase tag.name name = true)
    (hc : Cursor.IsIn ⟨k, opening ++ (content ++ (closing ++ rest))⟩ source) :
    ∃ e : Element, OpenElement.close ⟨tag, []⟩ children span.stop = .element e ∧
      e.Nests source ∧ e.span.start = k := by
  obtain ⟨inner, rfl, htag, -, hraw⟩ := hopening.openTag_eq
  obtain ⟨inner', rfl, hfills, rfl, rfl⟩ := hclosing.closeTag_eq
  have hslice := hc.slice?_eq
    (show _ = (tagText inner ++ (content ++ tagText ('/' :: inner'))) ++ rest by
      simp only [List.append_assoc])
  have hstop : k + byteSize (tagText inner ++ content) + byteSize (tagText ('/' :: inner')) =
      k + byteSize (tagText inner ++ (content ++ tagText ('/' :: inner'))) := by
    simp only [byteSize_append, Nat.add_assoc]
  refine ⟨_, rfl, ⟨?_, inner, content, inner', ?_, ?_, hfills, ?_⟩, ?_⟩
  · rwa [String.toList_ofList]
  · rw [htag.span, hstop]
    exact hslice
  · rw [htag.span]
    exact Element.opensWith_of_tag htag
  · rwa [String.toList_ofList]
  · rw [htag.span]

/-- Without room for the children of any element, a reading is cut off at the first element that
nests its children. -/
theorem cutsOff_close (hopening : Construct k opening (.openTag tag))
    (hclosing : Construct (k + byteSize (opening ++ content)) closing (.closeTag name span))
    (hname : eqIgnoreCase tag.name name = true)
    (hc : Cursor.IsIn ⟨k, opening ++ (content ++ (closing ++ (rest ++ back)))⟩ source)
    (hlower : ∀ start ∈ nestingStarts source
      (OpenElement.close ⟨tag, []⟩ children span.stop :: nodes) 0, k ≤ start) :
    CutsOff depth depth 0 k source (opening ++ (content ++ (closing ++ rest))) back
      (OpenElement.close ⟨tag, []⟩ children span.stop :: nodes) := by
  obtain ⟨e, he, hnests, hstart⟩ := nests_close children hopening hclosing hname hc
  obtain ⟨inner, -, htag, -, -⟩ := hopening.openTag_eq
  have hspan : tag.span.start = k := congrArg Span.start htag.span
  refine ⟨tag.span, ?_, ?_⟩
  · rw [hspan]
    exact ⟨⟨e, hnests, hstart, _, List.mem_cons_self, [], rfl, he ▸ .refl⟩, hlower⟩
  · intro stack before hstack
    simp only [List.append_assoc]
    rw [readOn_construct hopening, growTree, if_pos (Nat.le_of_eq hstack.symm)]

/-- A reading that is cut off inside an element is cut off there for the text around the element. -/
theorem CutsOff.inside {stop : Nat}
    (h : CutsOff limit (depth + 1) n (k + byteSize opening) source content
      (closing ++ (rest ++ back)) children)
    (hdepth : depth < limit) (hopening : Construct k opening (.openTag tag))
    (hbefore : ∀ start ∈ nestingStarts source children n, start ≤ k + byteSize (opening ++ content))
    (hbehind : ∀ start ∈ nestingStarts source nodes (n + 1),
      k + byteSize (opening ++ content) ≤ start) :
    CutsOff limit depth (n + 1) k source (opening ++ (content ++ (closing ++ rest))) back
      (OpenElement.close ⟨tag, []⟩ children stop :: nodes) := by
  obtain ⟨span, ⟨hmem, hlower⟩, hread⟩ := h
  obtain ⟨inner, -, htag, -, -⟩ := hopening.openTag_eq
  refine ⟨span, ⟨?_, fun start hstart => ?_⟩, ?_⟩
  · exact mem_nestingStarts_cons.mpr (Or.inl ((mem_nestingStarts_close htag.isFlat).mpr hmem))
  · rcases mem_nestingStarts_cons.mp hstart with hstart | hstart
    · exact hlower ((mem_nestingStarts_close htag.isFlat).mp hstart)
    · exact Nat.le_trans (hbefore _ hmem) (hbehind _ hstart)
  · intro stack before hstack
    simp only [List.append_assoc]
    rw [readOn_construct hopening, growTree, if_neg (by omega)]
    exact hread (⟨tag, before⟩ :: stack) [] (by rw [List.length_cons, hstack])

end

/-- What is read under one limit is read under any other, or cut off at the first element that nests
its children too deeply. -/
theorem Reads.limited (h : Reads limit' depth k text nodes) (hn : depth + n = limit)
    (hc : Cursor.IsIn ⟨k, text ++ back⟩ source) (hstops : EndsInText nodes → Stops back) :
    Reads limit depth k text nodes ∨ CutsOff limit depth n k source text back nodes := by
  -- Going into an element spends one of the `n` elements left; what is cut off inside it comes
  -- before what is cut off behind it.
  induction h generalizing n back with
  | nil => exact Or.inl .nil
  | @text depth k x rest nodes hx hstops' hrest ih =>
    rw [List.append_assoc] at hc
    rcases ih hn (hc.passes ⟨rfl, rfl⟩) (fun he => hstops (he.cons _)) with hrest' | hcut
    · exact Or.inl (.text hx hstops' hrest')
    · refine Or.inr (hcut.behind (.plain hx) (fun _ => ?_) hn hc)
      refine hstops'.append fun hnil => hstops ?_
      rw [hrest.nodes_eq_nil hnil]
      exact hx.endsInText k
  | @node depth k x rest t nodes hx hrest ih =>
    rw [List.append_assoc] at hc
    rcases ih hn (hc.passes ⟨rfl, rfl⟩) (fun he => hstops (he.cons _)) with hrest' | hcut
    · exact Or.inl (.node hx hrest')
    · refine Or.inr (hcut.behind (.construct hx) (fun hplain => ?_) hn hc)
      exact absurd hplain (not_isPlain_of_opens hx.opens)
  | @element depth k opening content closing rest name tag span children nodes hdepth hopening
      hcontent hclosing hname hrest ihcontent ihrest =>
    have hwhole : Reads limit' depth k (opening ++ (content ++ (closing ++ rest)))
        (OpenElement.close ⟨tag, []⟩ children span.stop :: nodes) :=
      .element hdepth hopening hcontent hclosing hname hrest
    have hlower : ∀ start ∈ nestingStarts source
        (OpenElement.close ⟨tag, []⟩ children span.stop :: nodes) n, k ≤ start := fun _ hstart =>
      (hwhole.of_mem_nestingStarts (Nat.le_of_lt hdepth) hc hstart).1
    simp only [List.append_assoc] at hc
    cases n with
    | zero =>
      obtain rfl : depth = limit := hn
      exact Or.inr (cutsOff_close hopening hclosing hname hc hlower)
    | succ n =>
      have hlt : depth < limit := by omega
      have hcin : Cursor.IsIn ⟨k + byteSize opening, content ++ (closing ++ (rest ++ back))⟩
          source := hc.passes ⟨rfl, rfl⟩
      have hcbehind : Cursor.IsIn ⟨k + byteSize (opening ++ content ++ closing), rest ++ back⟩
          source := hc.passes ⟨by simp only [List.append_assoc], rfl⟩
      rcases ihcontent (n := n) (by omega) hcin (fun _ => hclosing.stops _) with hcontent' | hcut
      · have helement := NodeText.element hlt hopening hcontent' hclosing hname
        rcases ihrest hn hcbehind (fun he => hstops (he.cons _)) with hrest' | hcut
        · exact Or.inl (.element hlt hopening hcontent' hclosing hname hrest')
        · refine Or.inr ?_
          have hassoc : opening ++ (content ++ (closing ++ rest)) =
              opening ++ (content ++ closing) ++ rest := by simp only [List.append_assoc]
          rw [hassoc]
          rw [List.append_assoc] at hcut
          refine hcut.behind helement (fun hplain => ?_) hn ?_
          · refine absurd hplain (not_isPlain_of_opens ?_)
            exact opening?_append_isSome hopening.opens _
          · simpa only [List.append_assoc] using hc
      · refine Or.inr (hcut.inside hlt hopening (fun start hstart => ?_) fun start hstart => ?_)
        · obtain ⟨-, hstop, -⟩ := hcontent.of_mem_nestingStarts hdepth hcin hstart
          rwa [Nat.add_assoc, ← byteSize_append] at hstop
        · obtain ⟨hstart, -, -⟩ := hrest.of_mem_nestingStarts (Nat.le_of_lt hdepth) hcbehind hstart
          rw [byteSize_append (opening ++ content)] at hstart
          omega

end

/-- An element of a document nests its children and stands inside exactly `n` elements. -/
def Document.NestsAt (d : Document) (source : List Char) (n : Nat) (e : Element) : Prop :=
  e.Nests source ∧ ∃ above, above.length = n ∧ d.Within above (.element e)

/-- Next to a larger limit, a nesting limit changes nothing in how a template is read, but cuts off
what is nested more deeply. -/
structure LimitCutsOff (source : List Char) (limit limit' : Nat) : Prop where
  /-- A document is the document under the larger limit. -/
  document : ∀ d, Document.ofText source limit = .ok d → Document.ofText source limit' = .ok d
  /-- An error about anything else is the error under the larger limit. -/
  error : ∀ e, Document.ofText source limit = .error e → e.diagnostic.kind ≠ .nestingTooDeep →
    Document.ofText source limit' = .error e
  /-- In a document only details of elements that do not nest children are deeper than the limit, by
  one. -/
  depth : ∀ d, Document.ofText source limit = .ok d → ∀ above t, d.Within above t →
    above.length ≤ limit ∨ ∃ e outer, above = e :: outer ∧ outer.length = limit ∧
      ¬e.Nests source ∧ e.HasDetail t
  /-- Where the larger limit leaves a document, it is lost exactly if in it an element nests its
  children inside as many elements as the limit allows. -/
  cut : ∀ d, Document.ofText source limit' = .ok d →
    ((∃ e, Document.ofText source limit = .error e) ↔ ∃ e, d.NestsAt source limit e)
  /-- The error is then about the first of these elements. -/
  first : ∀ d, Document.ofText source limit' = .ok d → ∀ e,
    Document.ofText source limit = .error e → e.diagnostic.kind = .nestingTooDeep ∧
      IsLeast {start | ∃ e', d.NestsAt source limit e' ∧ e'.span.start = start} e.span.start

section

variable {limit limit' n : Nat} {source : List Char} {nodes : List Token} {d : Document}

/-- The elements of a document that nest their children are those of the nodes of its text. -/
theorem Reads.setOf_nestsAt_eq (h : Reads limit 0 0 source nodes) :
    {start | ∃ e, (Document.ofNodes (dropRootBlanks nodes)).NestsAt source n e ∧
      e.span.start = start} = nestingStarts source nodes n := by
  ext start
  constructor
  · rintro ⟨e, ⟨hnests, above, hlength, hwithin⟩, hstart⟩
    rcases hwithin.exists_node h with ⟨-, hne⟩ | ⟨s, hs, hwithin⟩
    · exact absurd rfl (hne e)
    · exact ⟨e, hnests, hstart, s, hs, above, hlength, hwithin⟩
  · rintro ⟨e, hnests, hstart, s, hs, above, hlength, hwithin⟩
    exact ⟨e, ⟨hnests, above, hlength, Document.within_of_mem h hnests.1 hs hwithin⟩, hstart⟩

/-- What stands deeper in a document than the limit is a detail of an element without room for
children. -/
theorem Document.Within.length_le {above : List Element} {t : Token} (h : d.Within above t)
    (hd : Document.ofText source limit = .ok d) :
    above.length ≤ limit ∨ ∃ e outer, above = e :: outer ∧ outer.length = limit ∧
      ¬e.Nests source ∧ e.HasDetail t := by
  obtain ⟨nodes, hreads, rfl⟩ := Document.ofText_eq_ok_iff.mp hd
  rcases h.exists_node hreads with ⟨rfl, -⟩ | ⟨s, hs, hwithin⟩
  · exact Or.inl (Nat.zero_le _)
  · cases hreads.sits (Nat.zero_le _) hs hwithin with
    | node hdepth =>
      rw [Nat.zero_add] at hdepth
      exact Or.inl hdepth
    | @detail e outer _ hdepth hnode hdetail =>
      rcases Nat.lt_or_ge outer.length limit with hlt | hge
      · exact Or.inl hlt
      · refine Or.inr ⟨e, outer, rfl, by omega, fun hnests => ?_, hdetail⟩
        have hc : Cursor.IsIn ⟨0, source ++ []⟩ source :=
          ⟨[], (List.append_nil source).symm, rfl⟩
        obtain ⟨-, -, hroom⟩ := hnode.of_nests hc hnests
        omega

/-- A document under one limit is the document under another, or it has elements that nest their
children too deeply for it and the error is about the first of them. -/
theorem Document.ofText_limited (limit : Nat) (hd : Document.ofText source limit' = .ok d) :
    (Document.ofText source limit = .ok d ∧ ∀ e, ¬d.NestsAt source limit e) ∨
      ∃ span, Document.ofText source limit = .error ⟨.nestingTooDeep limit, span⟩ ∧
        IsLeast {start | ∃ e, d.NestsAt source limit e ∧ e.span.start = start} span.start := by
  obtain ⟨nodes, hreads, rfl⟩ := Document.ofText_eq_ok_iff.mp hd
  have hc : Cursor.IsIn ⟨0, source ++ []⟩ source := ⟨[], (List.append_nil source).symm, rfl⟩
  rw [hreads.setOf_nestsAt_eq]
  have hlimited := hreads.limited (Nat.zero_add limit) hc fun _ => Stops.nil
  rcases hlimited with hreads' | ⟨span, hleast, hread⟩
  · refine Or.inl ⟨Document.ofText_eq_ok_iff.mpr ⟨nodes, hreads', rfl⟩, fun e hnests => ?_⟩
    have hmem : e.span.start ∈ nestingStarts source nodes limit := by
      rw [← hreads'.setOf_nestsAt_eq]
      exact ⟨e, hnests, rfl⟩
    obtain ⟨-, -, hroom⟩ := hreads'.of_mem_nestingStarts (Nat.zero_le _) hc hmem
    omega
  · refine Or.inr ⟨span, ?_, hleast⟩
    rw [Document.ofText_eq_error_iff, ← List.append_nil source]
    exact hread [] [] rfl

end

/-- A nesting limit only ever cuts off. -/
theorem Document.limitCutsOff_of_le {limit limit' : Nat} (hle : limit ≤ limit')
    (source : List Char) : LimitCutsOff source limit limit' where
  document d hd := by
    obtain ⟨nodes, hreads, rfl⟩ := Document.ofText_eq_ok_iff.mp hd
    exact Document.ofText_eq_ok_iff.mpr ⟨nodes, hreads.of_limit_le hle, rfl⟩
  error e he hkind := by
    obtain ⟨tags, c, hopen, hfails⟩ := Document.ofText_eq_error_iff_failsAt.mp he
    exact Document.ofText_eq_error_iff_failsAt.mpr
      ⟨tags, c, hopen.of_le hle, hfails.of_kind_ne hkind limit'⟩
  depth d hd above t hwithin := hwithin.length_le hd
  cut d hd := by
    rcases Document.ofText_limited limit hd with ⟨hok, hnone⟩ | ⟨span, herror, hleast⟩
    · rw [hok]
      constructor
      · rintro ⟨e, he⟩
        cases he
      · rintro ⟨e, hnests⟩
        exact absurd hnests (hnone e)
    · obtain ⟨e, hnests, -⟩ := hleast.1
      exact ⟨fun _ => ⟨e, hnests⟩, fun _ => ⟨_, herror⟩⟩
  first d hd e he := by
    rcases Document.ofText_limited limit hd with ⟨hok, -⟩ | ⟨span, herror, hleast⟩
    · rw [hok] at he
      cases he
    · rw [herror] at he
      obtain rfl := Except.error.inj he
      exact ⟨rfl, hleast⟩

private def limitedSource : List Char :=
  "<script src=a>é</script><ul><li><br>x</li><LI>{y}</li></ul>".toList

/-- A list inside a list is refused at its item under the limit of one, and read under the limit of
two. -/
theorem Document.limitCutsOff_nested :
    1 ≤ 2 ∧ Document.ofText limitedSource 1 = .error ⟨.nestingTooDeep 1, ⟨29, 33⟩⟩ ∧
      (∃ d, Document.ofText limitedSource 2 = .ok d ∧ ∃ e, d.NestsAt limitedSource 1 e) ∧
      LimitCutsOff limitedSource 1 2 := by
  have hle : 1 ≤ 2 := by decide
  have hcut := Document.limitCutsOff_of_le hle limitedSource
  have herror : Document.ofText limitedSource 1 = .error ⟨.nestingTooDeep 1, ⟨29, 33⟩⟩ :=
    Document.ofText_eq_error_of_decide (by decide +kernel)
  have hread : (Document.ofText limitedSource 2).toOption.any (fun _ => true) = true := by
    decide +kernel
  obtain ⟨d, hd, -⟩ := Document.exists_of_any hread
  exact ⟨hle, herror, ⟨d, hd, (hcut.cut d hd).mp ⟨_, herror⟩⟩, hcut⟩

private def scriptSource : List Char := "<script src=a>b</script>".toList

/-- Under a limit of no elements, the text of a script stands inside one. -/
theorem Document.exists_deeper_text :
    ∃ d above t, Document.ofText scriptSource 0 = .ok d ∧ d.Within above t ∧ ¬above.length ≤ 0 := by
  have hread : (Document.ofText scriptSource 0).toOption.any (fun d =>
      d.markup.any fun t => t.element?.any fun e => e.children.any fun _ => true) = true := by
    decide +kernel
  obtain ⟨d, hd, htest⟩ := Document.exists_of_any hread
  obtain ⟨t, ht, htest⟩ := List.any_eq_true.mp htest
  cases t with
  | element e =>
    obtain ⟨s, hs, -⟩ := List.any_eq_true.mp htest
    exact ⟨d, [e], s, hd, .markup ht (.child hs .refl), Nat.not_succ_le_zero 0⟩
  | literal | identifier | object | property | array | program | importDeclaration => cases htest

end TemplateReader
