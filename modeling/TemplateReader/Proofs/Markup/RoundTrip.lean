import TemplateReader.Proofs.Markup.Attributes
import TemplateReader.Proofs.Template.Stretch

/-!
# Reading undoes printing

The printed form of a well-formed markup tree is read to the tokens of the tree
and to nothing else, however the tree is built, as long as it is not nested
deeper than allowed. The induction follows the tree: each node in print is the
text of its token, and nodes side by side are a sequence, because a text is
never followed by another.
-/

namespace TemplateReader.Markup

/-- The name of an element is made of the characters of names of tags. -/
theorem IsElementName.isTagNameChar {name : List Char} (h : IsElementName name) :
    ∀ c ∈ name, TemplateReader.isTagNameChar c = true := by
  obtain ⟨c, rest, rfl, hc, hrest⟩ := h
  intro d hd
  rcases List.mem_cons.mp hd with rfl | hd
  · simp only [TemplateReader.isTagNameChar, Char.isAlphanum, hc, Bool.true_or]
  · exact hrest d hd

/-- The tag of an element in print is an opening tag with its name and its attributes. -/
theorem isOpeningTag_print {name tail : List Char} {attributes : List Attribute} {closing : Bool}
    (hname : IsElementName name) (h : ∀ a ∈ attributes, a.WellFormed) (hfills : FillsTag tail)
    (htail : EndsAttribute tail) (hend : ∀ k, readAttributes ⟨k, tail⟩ = .ok ([], closing))
    (k : Nat) :
    IsOpeningTag k (name ++ printAttributes attributes ++ tail)
      ⟨name, objectAt (k + 1 + byteSize name) attributes,
        ⟨k, k + byteSize (tagText (name ++ printAttributes attributes ++ tail))⟩⟩ closing := by
  have hchars := hname.isTagNameChar
  have hstop : ∀ c ∈ (printAttributes attributes ++ tail).head?, isTagNameChar c = false := by
    intro c hc
    rw [(endsAttribute_printAttributes h htail).blank c hc]
    rfl
  obtain ⟨hskip, htake⟩ := Cursor.skipWhile_append isTagNameChar 0 name _ hchars hstop
  have hdrop : (name ++ (printAttributes attributes ++ tail)).dropWhile isTagNameChar =
      printAttributes attributes ++ tail := congrArg Cursor.rest hskip
  have hoffset : k + byteSize ('<' :: name) = k + 1 + byteSize name := by
    have hsize : ('<' : Char).utf8Size = 1 := rfl
    rw [byteSize_cons, hsize, Nat.add_assoc]
  refine ⟨?_, ?_, ?_, ⟨propertiesAt (k + 1 + byteSize name) attributes, ?_, ?_⟩, rfl⟩
  · exact ((fillsTag_of_isTagNameChar hchars).append (fillsTag_printAttributes h)).append hfills
  · obtain ⟨c, rest, rfl, hc, -⟩ := hname
    exact ⟨c, _, rfl, hc⟩
  · rw [List.append_assoc]
    exact htake.symm
  · rw [List.append_assoc, hdrop, hoffset]
    exact readAttributes_printAttributes h htail hend _
  · rw [hoffset]
    exact (attributeObject_propertiesAt h _).symm

/-- A tag without a slash of its own. -/
theorem isOpeningTag_print_open {name : List Char} {attributes : List Attribute}
    (hname : IsElementName name) (h : ∀ a ∈ attributes, a.WellFormed) (k : Nat) :
    IsOpeningTag k (name ++ printAttributes attributes)
      ⟨name, objectAt (k + 1 + byteSize name) attributes,
        ⟨k, k + byteSize (tagText (name ++ printAttributes attributes))⟩⟩ false := by
  have htag := isOpeningTag_print hname h FillsTag.nil endsAttribute_nil readAttributes_nil k
  rwa [List.append_nil] at htag

/-- The close tag of a name is read to that name. -/
theorem closeTag_print {name : List Char} (hname : IsElementName name) (k : Nat) :
    Construct k (tagText ('/' :: name))
      (.closeTag name ⟨k, k + byteSize (tagText ('/' :: name))⟩) := by
  have hslash : FillsTag ['/'] := fillsTag_singleton rfl (by decide) (by decide)
  have hfills := hslash.append (fillsTag_of_isTagNameChar hname.isTagNameChar)
  have htake : tagName name = name := List.takeWhile_eq_self_iff.mpr hname.isTagNameChar
  obtain ⟨c, rest, rfl, hc, -⟩ := hname
  have hclose := Construct.closeTag (k := k) hc hfills
  rwa [htake] at hclose

/-- What is written to close an element is a close tag of its name. -/
theorem isCloseTag_print (name : List Char) : IsCloseTag name (tagText ('/' :: name)) :=
  ⟨name, [], rfl, beq_self_eq_true _, nofun⟩

/-- No name is both that of an element without content and that of one with raw text. -/
theorem isVoidElement_eq_false_of_isRawTextElement {name : List Char}
    (h : isRawTextElement name = true) : isVoidElement name = false := by
  simp only [isRawTextElement, rawTextElements, List.contains_cons, List.contains_nil,
    Bool.or_false, Bool.or_eq_true, beq_iff_eq] at h
  rw [isVoidElement]
  rcases h with h | h <;> rw [h] <;> rfl

/-- A text without `<` and `{` is plain. -/
theorem isPlain_text {text : List Char} (hne : text ≠ []) (hlt : '<' ∉ text) (hbrace : '{' ∉ text) :
    IsPlain text := by
  refine ⟨hne, fun suffix hsuffix => ?_⟩
  rw [← Option.not_isSome_iff_eq_none, opening?_isSome_iff]
  rintro (⟨tail, rfl⟩ | ⟨tail, rfl⟩ | ⟨c, tail, rfl, -⟩ | ⟨c, tail, rfl, -⟩)
  · exact hbrace (hsuffix.subset List.mem_cons_self)
  all_goals exact hlt (hsuffix.subset List.mem_cons_self)

/-- A node in print that is no text begins with an opening. -/
theorem Node.WellFormed.opening_print {node : Node} (h : node.WellFormed)
    (hnot : node.isText = false) : (opening? node.print).isSome := by
  rw [opening?_isSome_iff]
  cases node with
  | text text => cases hnot
  | comment inner =>
    rw [Node.print]
    exact Or.inr (Or.inl ⟨_, rfl⟩)
  | program expression =>
    rw [Node.print]
    exact Or.inl ⟨_, rfl⟩
  | selfClosing name attributes =>
    rw [Node.WellFormed] at h
    obtain ⟨⟨c, rest, rfl, hc, -⟩, -⟩ := h
    rw [Node.print]
    exact Or.inr (Or.inr (Or.inr ⟨c, _, rfl, hc⟩))
  | void name attributes =>
    rw [Node.WellFormed] at h
    obtain ⟨⟨c, rest, rfl, hc, -⟩, -⟩ := h
    rw [Node.print]
    exact Or.inr (Or.inr (Or.inr ⟨c, _, rfl, hc⟩))
  | rawText name attributes content =>
    rw [Node.WellFormed] at h
    obtain ⟨⟨c, rest, rfl, hc, -⟩, -⟩ := h
    rw [Node.print]
    exact Or.inr (Or.inr (Or.inr ⟨c, _, rfl, hc⟩))
  | element name attributes children =>
    rw [Node.WellFormed] at h
    obtain ⟨⟨c, rest, rfl, hc, -⟩, -⟩ := h
    rw [Node.print]
    exact Or.inr (Or.inr (Or.inr ⟨c, _, rfl, hc⟩))

/-- A text in print stops before what follows it in a well-formed tree. -/
theorem stops_printNodes {node : Node} {rest : List Node} (h : WellFormedNodes (node :: rest))
    (hplain : IsPlain node.print) : Stops (printNodes rest) := by
  rw [WellFormedNodes] at h
  obtain ⟨hnode, hnext, hrest⟩ := h
  cases rest with
  | nil => exact Stops.nil
  | cons next rest =>
    rw [WellFormedNodes] at hrest
    have htext : node.isText = true := by
      by_contra hnot
      have hopening := hnode.opening_print (Bool.eq_false_iff.mpr hnot)
      rw [hplain.opening?_suffix _ List.suffix_rfl] at hopening
      cases hopening
    have hopening := hrest.1.opening_print (hnext htext next rfl)
    rw [printNodes]
    exact Or.inr (opening?_append_isSome hopening _)

/-- No node of a well-formed tree is blank. -/
theorem Node.WellFormed.isBlankText_token {node : Node} (h : node.WellFormed) (k : Nat) :
    isBlankText (node.token k) = false := by
  cases node with
  | text text =>
    rw [Node.WellFormed] at h
    obtain ⟨⟨c, hc, hblank⟩, -⟩ := h
    rw [Node.token, isBlankText, Literal.ofText, String.toList_ofList, isBlank,
      List.all_eq_false]
    exact ⟨c, hc, by rw [hblank]; exact Bool.false_ne_true⟩
  | comment inner =>
    rw [Node.token, isBlankText, Literal.ofText, String.toList_ofList, isBlank,
      List.all_eq_false]
    exact ⟨'<', List.mem_cons_self, by decide⟩
  | program | selfClosing | void | rawText | element =>
    rw [Node.token]
    rfl

/-- None of the tokens of a well-formed tree is blank text. -/
theorem isBlankText_of_mem_tokensAt {nodes : List Node} (h : WellFormedNodes nodes) {k : Nat}
    {t : Token} (ht : t ∈ tokensAt k nodes) : isBlankText t = false := by
  induction nodes generalizing k with
  | nil =>
    rw [tokensAt] at ht
    cases ht
  | cons node rest ih =>
    rw [WellFormedNodes] at h
    rw [tokensAt] at ht
    rcases List.mem_cons.mp ht with rfl | ht
    · exact h.1.isBlankText_token k
    · exact ih h.2.2 ht

/-- In a well-formed tree nothing is left out as layout. -/
theorem dropLayout_tokensAt {nodes : List Node} (h : WellFormedNodes nodes) (k : Nat) :
    dropLayout (tokensAt k nodes) = tokensAt k nodes := by
  unfold dropLayout
  split
  · rfl
  · refine List.filter_eq_self.mpr fun t ht => ?_
    rw [isBlankText_of_mem_tokensAt h ht]
    rfl

/-- From the tokens of a well-formed tree no blanks are dropped. -/
theorem dropRootBlanks_tokensAt {nodes : List Node} (h : WellFormedNodes nodes) (k : Nat) :
    dropRootBlanks (tokensAt k nodes) = tokensAt k nodes := by
  refine List.filter_eq_self.mpr fun t ht => ?_
  rw [isBlankText_of_mem_tokensAt h ht]
  rfl

section

variable {limit : Nat}

private theorem nodeText_text {text : List Char} (h : (Node.text text).WellFormed)
    (depth k : Nat) : NodeText limit depth k (Node.text text).print ((Node.text text).token k) := by
  rw [Node.WellFormed] at h
  obtain ⟨⟨c, hc, -⟩, hlt, hbrace⟩ := h
  rw [Node.token, Node.print]
  exact .plain (isPlain_text (List.ne_nil_of_mem hc) hlt hbrace)

private theorem nodeText_comment {inner : List Char} (h : (Node.comment inner).WellFormed)
    (depth k : Nat) :
    NodeText limit depth k (Node.comment inner).print ((Node.comment inner).token k) := by
  rw [Node.WellFormed] at h
  rw [Node.token, Node.print]
  exact .construct (.comment h)

private theorem nodeText_program {expression : List Char}
    (h : (Node.program expression).WellFormed) (depth k : Nat) :
    NodeText limit depth k (Node.program expression).print
      ((Node.program expression).token k) := by
  rw [Node.WellFormed] at h
  rw [Node.token, Node.print, ← byteSize_braced]
  exact .construct (.program h)

private theorem nodeText_selfClosing {name : List Char} {attributes : List Attribute}
    (h : (Node.selfClosing name attributes).WellFormed) (depth k : Nat) :
    NodeText limit depth k (Node.selfClosing name attributes).print
      ((Node.selfClosing name attributes).token k) := by
  rw [Node.WellFormed] at h
  obtain ⟨hname, hattributes⟩ := h
  have hblank : FillsTag [' '] := fillsTag_singleton rfl (by decide) (by decide)
  have hslash : FillsTag ['/'] := fillsTag_singleton rfl (by decide) (by decide)
  have htag := isOpeningTag_print hname hattributes (hblank.append hslash) endsAttribute_slash
    readAttributes_slash k
  rw [Node.token, Node.print]
  exact .construct (.childless htag rfl)

private theorem nodeText_void {name : List Char} {attributes : List Attribute}
    (h : (Node.void name attributes).WellFormed) (depth k : Nat) :
    NodeText limit depth k (Node.void name attributes).print
      ((Node.void name attributes).token k) := by
  rw [Node.WellFormed] at h
  obtain ⟨hname, hvoid, hattributes⟩ := h
  rw [Node.token, Node.print]
  exact .construct (.childless (isOpeningTag_print_open hname hattributes k) hvoid)

private theorem nodeText_rawText {name content : List Char} {attributes : List Attribute}
    (h : (Node.rawText name attributes content).WellFormed) (depth k : Nat) :
    NodeText limit depth k (Node.rawText name attributes content).print
      ((Node.rawText name attributes content).token k) := by
  rw [Node.WellFormed] at h
  obtain ⟨hname, hraw, hattributes, hcontent⟩ := h
  rw [Node.token, Node.print]
  exact .construct (.rawText (isOpeningTag_print_open hname hattributes k)
    (isVoidElement_eq_false_of_isRawTextElement hraw) hraw (isCloseTag_print name) hcontent)

private theorem nodeText_element {name : List Char} {attributes : List Attribute}
    {children : List Node} (h : (Node.element name attributes children).WellFormed)
    {depth : Nat} (hdepth : depth < limit) (k : Nat)
    (hchildren : Reads limit (depth + 1)
      (k + byteSize (tagText (name ++ printAttributes attributes))) (printNodes children)
      (tokensAt (k + byteSize (tagText (name ++ printAttributes attributes))) children)) :
    NodeText limit depth k (Node.element name attributes children).print
      ((Node.element name attributes children).token k) := by
  rw [Node.WellFormed] at h
  obtain ⟨hname, hvoid, hraw, hattributes, hnodes⟩ := h
  have helement := NodeText.element hdepth
    (.openTag (isOpeningTag_print_open hname hattributes k) hvoid hraw) hchildren
    (closeTag_print hname _) (beq_self_eq_true _)
  have hstop : k + byteSize (tagText (name ++ printAttributes attributes) ++ printNodes children) +
        byteSize (tagText ('/' :: name)) =
      k + byteSize (tagText (name ++ printAttributes attributes) ++
        (printNodes children ++ tagText ('/' :: name))) := by
    rw [Nat.add_assoc, ← byteSize_append, List.append_assoc]
  rw [Node.token, Node.print]
  simp only [OpenElement.close, dropLayout_tokensAt hnodes, hstop] at helement
  exact helement

end

mutual

/-- A node in print is the text of its token. -/
theorem Node.WellFormed.nodeText {limit : Nat} : {node : Node} → node.WellFormed →
    (depth k : Nat) → depth + node.nesting ≤ limit →
    NodeText limit depth k node.print (node.token k)
  | .text _, h, depth, k, _ => nodeText_text h depth k
  | .comment _, h, depth, k, _ => nodeText_comment h depth k
  | .program _, h, depth, k, _ => nodeText_program h depth k
  | .selfClosing _ _, h, depth, k, _ => nodeText_selfClosing h depth k
  | .void _ _, h, depth, k, _ => nodeText_void h depth k
  | .rawText _ _ _, h, depth, k, _ => nodeText_rawText h depth k
  | .element _ _ children, h, depth, k, hlimit => by
    rw [Node.nesting] at hlimit
    have hnodes : WellFormedNodes children := by
      rw [Node.WellFormed] at h
      exact h.2.2.2.2
    exact nodeText_element h (by omega) k (hnodes.reads (depth + 1) _ (by omega))

/-- Nodes in print are a sequence of their tokens. -/
theorem WellFormedNodes.reads {limit : Nat} : {nodes : List Node} → WellFormedNodes nodes →
    (depth k : Nat) → depth + nestingOf nodes ≤ limit →
    Reads limit depth k (printNodes nodes) (tokensAt k nodes)
  | [], _, _, _, _ => by
    rw [printNodes, tokensAt]
    exact .nil
  | node :: rest, h, depth, k, hlimit => by
    have hstops := stops_printNodes h
    rw [WellFormedNodes] at h
    rw [nestingOf] at hlimit
    rw [printNodes, tokensAt]
    exact .cons (h.1.nodeText depth k (by omega)) hstops (h.2.2.reads depth _ (by omega))

end

/-- A well-formed tree that is nested no deeper than allowed is read back from its printed form: to
the document of its tokens at the bytes where they are printed. -/
theorem ofText_printNodes {nodes : List Node} (h : WellFormedNodes nodes) {limit : Nat}
    (hlimit : nestingOf nodes ≤ limit) :
    Document.ofText (printNodes nodes) limit = .ok (Document.ofNodes (tokensAt 0 nodes)) := by
  refine Document.ofText_eq_ok_iff.mpr ⟨tokensAt 0 nodes, ?_, ?_⟩
  · exact h.reads 0 0 (by omega)
  · rw [dropRootBlanks_tokensAt h]

private def sampleTree : List Node :=
  [.text ['é', ' '],
    .element ['u', '1']
      [.flag ['x'], .quoted ['y'] '"' ['>'], .bare ['z'] ['/'], .braced ['w'] ['{', '}'],
        .computed [' ', 'k'], .spread ['r', ' ']]
      [.comment ['-'], .selfClosing ['b'] [.bare ['n'] ['/']], .program ['p']],
    .void ['b', 'r'] [.flag ['x'], .flag ['x']],
    .rawText ['s', 't', 'y', 'l', 'e'] [] ['<', '/']]

/-- A tree with every kind of node and attribute is written and read back. -/
theorem ofText_printNodes_sample :
    String.ofList (printNodes sampleTree) =
        "é <u1 x y=\">\" z=/ w={{}} { k} {...r }><!-----><b n=/ />{p}</u1><br x x><style></</style>" ∧
      Document.ofText (printNodes sampleTree) 1 =
        .ok (Document.ofNodes (tokensAt 0 sampleTree)) := by
  have named (c : Char) (hc : isAttributeNameChar c = true) : IsAttributeName [c] :=
    ⟨List.cons_ne_nil _ _, List.forall_mem_singleton.mpr hc⟩
  have hbare (c : Char) (hc : isAttributeNameChar c = true) :
      (Attribute.bare [c] ['/']).WellFormed :=
    ⟨named c hc, List.forall_mem_singleton.mpr rfl, fillsTag_singleton rfl (by decide) (by decide),
      '/', [], rfl, rfl, by decide⟩
  have hbraces : FillsBraces ['{', '}'] ∧ FillsBraces [' ', 'k'] ∧ FillsBraces ['r', ' '] := by
    decide +kernel
  have hall : ∀ a ∈ [Attribute.flag ['x'], .quoted ['y'] '"' ['>'], .bare ['z'] ['/'],
      .braced ['w'] ['{', '}'], .computed [' ', 'k'], .spread ['r', ' ']], a.WellFormed := by
    simp only [List.forall_mem_cons]
    exact ⟨named 'x' rfl, ⟨named 'y' rfl, rfl, rfl⟩, hbare 'z' rfl,
      ⟨named 'w' rfl, hbraces.1⟩, ⟨hbraces.2.1, by decide⟩, hbraces.2.2, nofun⟩
  have htwice : ∀ a ∈ [Attribute.flag ['x'], .flag ['x']], a.WellFormed :=
    List.forall_mem_cons.mpr ⟨named 'x' rfl, List.forall_mem_singleton.mpr (named 'x' rfl)⟩
  have hraw : ∀ closing, IsCloseTag ['s', 't', 'y', 'l', 'e'] closing → ¬closing <:+: ['<', '/'] := by
    rintro closing ⟨found, spaces, rfl, -, -⟩ hinfix
    have hend : '>' ∈ ['<', '/'] := hinfix.subset (by simp)
    revert hend
    decide
  have hwell : WellFormedNodes sampleTree := by
    have hu : IsElementName ['u', '1'] := ⟨'u', _, rfl, rfl, List.forall_mem_singleton.mpr rfl⟩
    have hb : IsElementName ['b'] := ⟨'b', [], rfl, rfl, nofun⟩
    have hbr : IsElementName ['b', 'r'] := ⟨'b', _, rfl, rfl, List.forall_mem_singleton.mpr rfl⟩
    have hstyle : IsElementName ['s', 't', 'y', 'l', 'e'] := by
      refine ⟨'s', _, rfl, rfl, ?_⟩
      simp only [List.forall_mem_cons]
      exact ⟨rfl, rfl, rfl, rfl, nofun⟩
    simp only [sampleTree, WellFormedNodes, Node.WellFormed, Node.isText]
    exact ⟨⟨⟨'é', by decide, by decide⟩, by decide, by decide⟩, by simp,
      ⟨hu, by decide +kernel, by decide +kernel, hall, by decide, nofun,
        ⟨hb, List.forall_mem_singleton.mpr (hbare 'n' rfl)⟩, nofun, by decide +kernel, nofun,
        trivial⟩, nofun, ⟨hbr, by decide +kernel, htwice⟩, nofun,
      ⟨hstyle, by decide +kernel, nofun, hraw⟩, nofun, trivial⟩
  exact ⟨by decide +kernel, ofText_printNodes hwell (by decide)⟩

end TemplateReader.Markup
