import TemplateReader.Proofs.Template.Attributes
import TemplateReader.Proofs.Template.Lossless

/-!
# Spans of attributes

Every attribute of a tag tells what stands in the source: its key names the
slice that the key spans, and its value means what the value's slice spells. The
attributes lie one behind the other between the name of their tag and its `>`,
and leave uncovered only whitespace and stray delimiters.
-/

namespace TemplateReader

/-- What a value means, told from the slice that it spans, for each way of writing an attribute: a
name alone is true, a quoted value is the text between its quotes, an unquoted one its whole text,
and a program the trimmed text between its braces, without the dots of a spread. -/
inductive Property.Means (source : List Char) (p : Property) : Token → Prop
  | flag {key : Identifier} {l : Literal} (hkey : p.key = some key) (hproperty : p.span = key.span)
    (hspan : l.span = key.span) (hvalue : l.value = .boolean true) : p.Means source (.literal l)
  | quoted {key : Identifier} {l : Literal} {quote : Char} {inner : List Char}
    (hkey : p.key = some key) (hstart : key.span.stop < l.span.start)
    (hquote : isTagQuote quote = true) (hinner : FillsQuote quote inner)
    (hraw : l.raw.toList = quote :: inner ++ [quote])
    (hvalue : l.value = .string (String.ofList inner)) : p.Means source (.literal l)
  | bare {key : Identifier} {l : Literal} (hkey : p.key = some key)
    (hstart : key.span.stop < l.span.start)
    (hraw : ∀ c ∈ l.raw.toList.head?, isTagQuote c = false ∧ c ≠ '{')
    (hvalue : l.value = .string l.raw) : p.Means source (.literal l)
  | program {g : Program} {inner : List Char} (hform : p.form ≠ .spread)
    (hinner : FillsBraces inner) (hslice : g.span.slice? source = some ('{' :: inner ++ ['}']))
    (hsource : g.source = String.ofList (trim inner)) : p.Means source (.program g)
  | spread {g : Program} {inner expression : List Char} (hform : p.form = .spread)
    (hinner : FillsBraces inner) (hslice : g.span.slice? source = some ('{' :: inner ++ ['}']))
    (hdots : trim inner = '.' :: '.' :: '.' :: expression)
    (hsource : g.source = String.ofList (trim expression)) : p.Means source (.program g)

/-- A property and its parts stand in the source where they claim to, and mean what stands there. -/
structure Property.IsExact (source : List Char) (p : Property) : Prop where
  key_eq_none_iff : p.key = none ↔ p.form = .spread
  key : ∀ key, p.key = some key → key.span.slice? source = some key.name.toList ∧
    p.span.start ≤ key.span.start ∧ key.span.stop ≤ p.span.stop
  within : p.span.start ≤ p.value.span.start ∧ p.value.span.stop ≤ p.span.stop
  literal : ∀ l, p.value = .literal l →
    l.span.slice? source = some l.raw.toList ∧ l.escape = false
  means : p.Means source p.value

section

variable {source rest x text front back : List Char} {k : Nat} {p : Property} {s : Span}
  {properties : List Property}

/-- A text is what is left of it without the blanks at its end, and those blanks. -/
theorem trimEnd_append_trailing (text : List Char) :
    trimEnd text ++ (text.reverse.takeWhile isBlankChar).reverse = text := by
  rw [trimEnd, ← List.reverse_append, List.takeWhile_append_dropWhile, List.reverse_reverse]

/-- A trimmed text stands behind the blanks in front of it. -/
theorem exists_trim (text : List Char) :
    ∃ leading trailing, text = leading ++ (trim text ++ trailing) ∧
      byteSize leading = byteSize text - byteSize (trimStart text) := by
  have hstart : text = text.takeWhile isBlankChar ++ trimStart text :=
    List.takeWhile_append_dropWhile.symm
  refine ⟨text.takeWhile isBlankChar, ((trimStart text).reverse.takeWhile isBlankChar).reverse,
    ?_, ?_⟩
  · rw [trim, trimEnd_append_trailing]
    exact hstart
  · have hsize := congrArg byteSize hstart
    rw [byteSize_append] at hsize
    omega

private theorem isExact_braced {inner : List Char} (hinner : FillsBraces inner)
    (h : Span.slice? ⟨k, k + byteSize ('{' :: inner ++ ['}'])⟩ source =
      some ('{' :: inner ++ ['}'])) :
    (bracedAttribute ⟨k, k + byteSize ('{' :: inner ++ ['}'])⟩ inner).IsExact source := by
  unfold bracedAttribute
  dsimp only
  split
  · next expression hdots =>
    refine ⟨iff_of_true rfl rfl, nofun, ⟨Nat.le_refl _, Nat.le_refl _⟩, nofun, ?_⟩
    exact .spread rfl hinner h hdots rfl
  · refine ⟨iff_of_false nofun nofun, ?_, ⟨Nat.le_refl _, Nat.le_refl _⟩, nofun, ?_⟩
    · rintro key ⟨⟩
      obtain ⟨leading, trailing, hsplit, hleading⟩ := exists_trim inner
      have hparts : '{' :: inner ++ ['}'] =
          ('{' :: leading) ++ (trim inner ++ (trailing ++ ['}'])) :=
        calc
          '{' :: inner ++ ['}'] = '{' :: (leading ++ (trim inner ++ trailing)) ++ ['}'] :=
            congrArg (fun text => '{' :: text ++ ['}']) hsplit
          _ = ('{' :: leading) ++ (trim inner ++ (trailing ++ ['}'])) := by
            simp only [List.cons_append, List.append_assoc]
      have hbrace : byteSize ['{'] = 1 := rfl
      have hfront : byteSize ('{' :: leading) =
          1 + (byteSize inner - byteSize (trimStart inner)) := by
        rw [← List.singleton_append, byteSize_append, hbrace, hleading]
      have hkey := Span.slice?_part h hparts
      have hsize : byteSize ('{' :: inner ++ ['}']) =
          1 + (byteSize inner - byteSize (trimStart inner)) +
            (byteSize (trim inner) + byteSize (trailing ++ ['}'])) := by
        rw [hparts, byteSize_append, byteSize_append, hfront]
      rw [hfront, ← Nat.add_assoc] at hkey
      rw [String.toList_ofList]
      refine ⟨hkey, ?_, ?_⟩
      · dsimp only
        omega
      · dsimp only
        omega
    · exact .program nofun hinner h rfl

private theorem ValueText.means {key : Identifier} {token : Token}
    (hvalue : ValueText k rest x token)
    (h : Span.slice? ⟨k, k + byteSize x⟩ source = some x) (hkey : key.span.stop < k) :
    (Property.plain key token).Means source token ∧
      ∀ l, token = .literal l → l.span.slice? source = some l.raw.toList ∧ l.escape = false := by
  cases hvalue with
  | quoted hquote hinner =>
    refine ⟨.quoted rfl hkey hquote hinner String.toList_ofList rfl, ?_⟩
    rintro l ⟨⟩
    rw [String.toList_ofList]
    exact ⟨h, rfl⟩
  | braced hinner => exact ⟨.program nofun hinner h rfl, nofun⟩
  | bare hbare =>
    refine ⟨.bare rfl hkey ?_ rfl, ?_⟩
    · rw [Literal.ofText, String.toList_ofList]
      exact hbare.opens
    · rintro l ⟨⟩
      rw [Literal.ofText, String.toList_ofList]
      exact ⟨h, rfl⟩

/-- What is read of an attribute's text is exact, wherever the text stands. -/
theorem AttributeText.isExact (htext : AttributeText k rest x p)
    (h : Span.slice? ⟨k, k + byteSize x⟩ source = some x) : p.IsExact source := by
  cases htext with
  | braced hinner => exact isExact_braced hinner h
  | flag hname hrest =>
    refine ⟨iff_of_false nofun nofun, ?_, ⟨Nat.le_refl _, Nat.le_refl _⟩, ?_, ?_⟩
    · rintro key ⟨⟩
      rw [String.toList_ofList]
      exact ⟨h, Nat.le_refl _, Nat.le_refl _⟩
    · rintro l ⟨⟩
      rw [String.toList_ofList]
      exact ⟨h, rfl⟩
    · exact .flag rfl rfl rfl rfl
  | @valued name before after value token hname hbefore hafter hvalue =>
    have hlt : k + byteSize name < k + byteSize (name ++ (before ++ '=' :: after)) := by
      have hequals : byteSize ['='] = 1 := rfl
      rw [← List.singleton_append, byteSize_append, byteSize_append, byteSize_append, hequals]
      omega
    have hkey : Span.slice? ⟨k, k + byteSize name⟩ source = some name := by
      have hparts : name ++ (before ++ '=' :: after) ++ value =
          [] ++ (name ++ (before ++ '=' :: after ++ value)) := by
        rw [List.nil_append, List.append_assoc]
      exact Span.slice?_part h hparts
    have hslice : Span.slice? ⟨k + byteSize (name ++ (before ++ '=' :: after)),
        k + byteSize (name ++ (before ++ '=' :: after)) + byteSize value⟩ source = some value := by
      have hparts : name ++ (before ++ '=' :: after) ++ value =
          name ++ (before ++ '=' :: after) ++ (value ++ []) := by
        rw [List.append_nil]
      exact Span.slice?_part h hparts
    obtain ⟨hmeans, hliteral⟩ :=
      @ValueText.means _ _ _ _ ⟨String.ofList name, ⟨k, k + byteSize name⟩⟩ _ hvalue hslice hlt
    refine ⟨iff_of_false nofun nofun, ?_, ?_, hliteral, hmeans⟩
    · rintro key ⟨⟩
      rw [String.toList_ofList]
      refine ⟨hkey, Nat.le_refl _, ?_⟩
      rw [Property.plain, hvalue.span_eq]
      dsimp only
      omega
    · rw [Property.plain, hvalue.span_eq]
      dsimp only
      omega

/-- The attributes of a tag lie one behind the other in its text, and between them only what belongs
to none. -/
theorem AttributesText.tiled (h : AttributesText k text properties) :
    Tiled (fun gap => ∀ c ∈ gap, isBetween c = true) k (properties.map Property.span) text := by
  induction h with
  | nil => exact .nil nofun
  | @skip k c rest properties hc hrest ih =>
    have hgap : ∀ d ∈ [c], isBetween d = true := List.forall_mem_singleton.mpr hc
    refine ih.append_gap ?_ hgap
    intro a b ha hb
    exact List.forall_mem_append.mpr ⟨ha, hb⟩
  | @cons k x rest p properties hx hrest ih =>
    rw [List.map_cons, hx.span_eq]
    exact @Tiled.cons _ k [] x rest _ nofun hx.ne_nil ih

/-- The attributes of a tag are exact, wherever the tag stands. -/
theorem AttributesText.isExact (h : AttributesText k text properties)
    (hslice : Span.slice? ⟨k, k + byteSize text⟩ source = some text) :
    ∀ p ∈ properties, p.IsExact source := by
  induction h with
  | nil => exact nofun
  | @skip k c rest properties hc hrest ih =>
    apply ih
    have hparts : c :: rest = [c] ++ (rest ++ []) := by rw [List.append_nil, List.singleton_append]
    exact Span.slice?_part hslice hparts
  | @cons k x rest p properties hx hrest ih =>
    have hfront : x ++ rest = [] ++ (x ++ rest) := (List.nil_append _).symm
    have hback : x ++ rest = x ++ (rest ++ []) := by rw [List.append_nil]
    refine List.forall_mem_cons.mpr ⟨hx.isExact ?_, ih ?_⟩
    · exact Span.slice?_part hslice hfront
    · exact Span.slice?_part hslice hback

end

/-- The attributes lie in the tag around `inner`, which begins at `start` in the source, between its
name and its `>`: they are exact, none is empty, each follows the one before, and between them
stands only what belongs to none. Together they span from the first to the last, or nothing at the
end of the name. -/
structure Object.LiesInTag (source : List Char) (start : Nat) (name inner : List Char)
    (attributes : Object) : Prop where
  tag : Span.slice? ⟨start, start + byteSize (tagText inner)⟩ source = some (tagText inner)
  fills : FillsTag inner
  name_eq : name = tagName inner
  tiled : Tiled (fun gap => ∀ c ∈ gap, isBetween c = true) (start + byteSize ('<' :: name))
    (attributes.properties.map Property.span) (inner.dropWhile isTagNameChar)
  isExact : ∀ p ∈ attributes.properties, p.IsExact source
  span_of_nil : attributes.properties = [] →
    attributes.span = ⟨start + byteSize ('<' :: name), start + byteSize ('<' :: name)⟩
  span_of_ends : ∀ first last, attributes.properties.head? = some first →
    attributes.properties.getLast? = some last →
    attributes.span = ⟨first.span.start, last.span.stop⟩

/-- All attributes of a document lie in the tags of its elements and blocks. -/
structure Document.ExactAttributes (source : List Char) (d : Document) : Prop where
  element : ∀ e, Token.element e ∈ d.nodes →
    ∃ inner, e.attributes.LiesInTag source e.span.start e.name.toList inner
  block : ∀ b ∈ d.scripts ++ d.styles,
    ∃ inner, b.attributes.LiesInTag source b.span.start b.name.toList inner

section

variable {source : List Char} {k : Nat}

/-- The attributes of an opening tag lie in it. -/
theorem IsOpeningTag.liesInTag {inner : List Char} {tag : OpenTag} {closesItself : Bool}
    (h : IsOpeningTag k inner tag closesItself)
    (hslice : Span.slice? ⟨k, k + byteSize (tagText inner)⟩ source = some (tagText inner)) :
    tag.attributes.LiesInTag source k tag.name inner := by
  obtain ⟨properties, hread, hobject⟩ := h.attributes
  have htext := attributesText_of_readAttributes hread
  have hparts : tagText inner = ('<' :: tag.name) ++ (inner.dropWhile isTagNameChar ++ ['>']) := by
    rw [h.name, tagName, tagText, List.cons_append, ← List.append_assoc,
      List.takeWhile_append_dropWhile]
  have hproperties : tag.attributes.properties = properties := by
    rw [hobject, attributeObject_properties]
  refine ⟨hslice, h.fills, h.name, ?_, ?_, ?_, ?_⟩
  · rw [hproperties]
    exact htext.tiled
  · rw [hproperties]
    exact htext.isExact (Span.slice?_part hslice hparts)
  · intro hnil
    rw [hproperties] at hnil
    rw [hobject, hnil]
    rfl
  · intro first last hfirst hlast
    rw [hproperties] at hfirst hlast
    rw [hobject, attributeObject, hfirst, hlast]

/-- An element begins with its opening tag. -/
theorem Element.Covers.exists_opensWith {e : Element} {text : List Char} (h : e.Covers text) :
    ∃ inner closesItself rest, e.OpensWith inner closesItself ∧ text = tagText inner ++ rest := by
  cases h with
  | tag hopening => exact ⟨_, _, [], hopening, (List.append_nil _).symm⟩
  | rawText _ hopening => exact ⟨_, _, _, hopening, rfl⟩
  | nested _ hopening => exact ⟨_, _, _, hopening, rfl⟩

/-- The attributes of an element lie in its tag. -/
theorem Element.Covers.liesInTag {e : Element} {text : List Char} (h : e.Covers text)
    (hslice : e.span.slice? source = some text) :
    ∃ inner, e.attributes.LiesInTag source e.span.start e.name.toList inner := by
  obtain ⟨inner, closesItself, rest, hopening, rfl⟩ := h.exists_opensWith
  have hparts : tagText inner ++ rest = [] ++ (tagText inner ++ rest) := (List.nil_append _).symm
  exact ⟨inner, IsOpeningTag.liesInTag hopening (Span.slice?_part hslice hparts)⟩

end

/-- In every document that is read, the attributes of all elements and blocks lie in their tags. -/
theorem Document.exactAttributes_of_ofText {source : List Char} {limit : Nat} {d : Document}
    (h : Document.ofText source limit = .ok d) : d.ExactAttributes source := by
  obtain ⟨nodes, hreads, rfl⟩ := Document.ofText_eq_ok_iff.mp h
  constructor
  · intro e he
    obtain ⟨text, hslice, hcovers⟩ :=
      hreads.covers_of_mem_roots (Document.mem_tokenNodes_of_mem_nodes he)
    exact hcovers.liesInTag hslice
  · intro b hb
    obtain ⟨e, text, rfl, hslice, hcovers⟩ := hreads.covers_of_mem_blocks hb
    exact hcovers.liesInTag hslice

private def strayedSource : List Char :=
  "<t = é = \"1\" \x7b \x7d \x7b w \x7d\x7b... r \x7d/ b= <c 'q' a=><p/></t>".toList ++
    "<script a='é'>x</script>".toList

/-- The names of the attributes of a node, nothing for a spread. -/
private def Token.attributeNames : Token → List (Option String)
  | .element e => e.attributes.properties.map fun p => p.key.map Identifier.name
  | _ => []

/-- Attributes with stray delimiters between them, spread, computed and without values, tile their
tags. -/
theorem Document.exactAttributes_strayed :
    ∃ d, Document.ofText strayedSource 2 = .ok d ∧ d.scripts.length = 1 ∧
      d.nodes.map Token.attributeNames =
        [[some "é", some "", some "w", none, some "b", some "q", some "a"], []] ∧
      d.ExactAttributes strayedSource := by
  have hread : (Document.ofText strayedSource 2).toOption.any (fun d =>
      decide (d.scripts.length = 1 ∧ d.nodes.map Token.attributeNames =
        [[some "é", some "", some "w", none, some "b", some "q", some "a"], []])) = true := by
    decide +kernel
  obtain ⟨d, hd, htest⟩ := Document.exists_of_any hread
  obtain ⟨hscripts, hnames⟩ := of_decide_eq_true htest
  exact ⟨d, hd, hscripts, hnames, Document.exactAttributes_of_ofText hd⟩

end TemplateReader
