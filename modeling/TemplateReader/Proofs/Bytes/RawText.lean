import Mathlib.Order.Bounds.Basic
import TemplateReader.Proofs.Bytes.Tree
import TemplateReader.Proofs.Grammar.Boundary
import TemplateReader.Proofs.Template.Lossless

/-!
# The end of raw text

The search for a close tag jumps from one `</` of a text to the next. It never
faults, it stops at the first close tag of the name, and it finds nothing only
where there is none. The raw text of a document therefore reaches from its
opening tag to the first close tag behind it, whole and as written.
-/

namespace TemplateReader

namespace Bytes

/-- A close tag of a name reaches from one offset of a text to another. -/
def CloseTagAt (s name : List Char) (i j : Nat) : Prop :=
  ∃ tag, slice? s i j = some tag ∧ IsCloseTag name tag

/-- Of the close tags of a name that begin at an offset or behind it, this is the first. -/
structure IsFirstCloseTag (s name : List Char) (start i j : Nat) : Prop where
  tag : CloseTagAt s name i j
  isLeast : IsLeast {i | start ≤ i ∧ ∃ j, CloseTagAt s name i j} i

section

variable {s name text tail rest content closing : List Char} {start i j : Nat}

/-- At the place of a final part stand the close tags that the part begins with. -/
theorem closeTagAt_place_iff (h : tail <:+ s) :
    CloseTagAt s name (place s tail) j ↔
      ∃ rest, closeTag? name tail = some rest ∧ j = place s rest := by
  simp only [CloseTagAt, closeTag?_eq_some_iff]
  constructor
  · rintro ⟨tag, hslice, htag⟩
    obtain ⟨rest, rfl, rfl⟩ := (slice?_place_eq_some_iff h).mp hslice
    exact ⟨rest, ⟨tag, rfl, htag⟩, (place_append h).symm⟩
  · rintro ⟨rest, ⟨tag, rfl, htag⟩, rfl⟩
    exact ⟨tag, slice?_place h, htag⟩

/-- A close tag begins at the place of a final part. -/
theorem CloseTagAt.exists_place (h : CloseTagAt s name i j) :
    ∃ tail, tail <:+ s ∧ i = place s tail := by
  obtain ⟨tag, hslice, -⟩ := h
  obtain ⟨before, after, rfl, rfl, -⟩ := slice?_eq_some_iff.mp hslice
  exact ⟨tag ++ after, List.suffix_append before _, (place_append_self before _).symm⟩

/-- Where a close tag begins determines where it ends. -/
theorem CloseTagAt.stop_unique {j' : Nat} (h : CloseTagAt s name i j)
    (h' : CloseTagAt s name i j') : j = j' := by
  obtain ⟨tail, htail, rfl⟩ := h.exists_place
  obtain ⟨rest, hrest, rfl⟩ := (closeTagAt_place_iff htail).mp h
  obtain ⟨rest', hrest', rfl⟩ := (closeTagAt_place_iff htail).mp h'
  rw [Option.some.inj (hrest.symm.trans hrest')]

/-- There is one first close tag at most. -/
theorem IsFirstCloseTag.unique {i' j' : Nat} (h : IsFirstCloseTag s name start i j)
    (h' : IsFirstCloseTag s name start i' j') : i = i' ∧ j = j' := by
  obtain rfl := h.isLeast.unique h'.isLeast
  exact ⟨rfl, h.tag.stop_unique h'.tag⟩

/-- Raw text is split at the first close tag behind its place. -/
theorem isFirstCloseTag_of_splitRawText (h : text <:+ s)
    (hs : splitRawText name text = some (content, rest)) :
    IsFirstCloseTag s name (place s text) (place s text + byteSize content) (place s rest) := by
  obtain ⟨tail, rfl, hrest, hnone⟩ := splitFirst_eq_some_iff.mp hs
  have htail := suffix_of_append h
  rw [← place_append h]
  have htag : CloseTagAt s name (place s tail) (place s rest) :=
    (closeTagAt_place_iff htail).mpr ⟨rest, hrest, rfl⟩
  refine ⟨htag, ⟨?_, _, htag⟩, ?_⟩
  · rw [place_append h]
    exact Nat.le_add_right _ _
  · rintro i ⟨hle, j, hj⟩
    obtain ⟨tail', htail', rfl⟩ := hj.exists_place
    obtain ⟨rest', hrest', -⟩ := (closeTagAt_place_iff htail').mp hj
    -- A close tag in front of this one would begin inside the content.
    by_contra hlt
    obtain ⟨later, rfl⟩ := suffix_of_place_le htail' htail (Nat.le_of_not_le hlt)
    obtain ⟨skipped, hskipped⟩ := suffix_of_place_le h htail' hle
    rw [← List.append_assoc, List.append_cancel_right_eq] at hskipped
    have hne : later ≠ [] := by
      rintro rfl
      exact hlt (Nat.le_refl _)
    rw [hnone skipped later hskipped.symm hne] at hrest'
    cases hrest'

/-- Raw text that is not split has no close tag behind its place. -/
theorem not_closeTagAt_of_splitRawText (h : text <:+ s) (hs : splitRawText name text = none)
    (hle : place s text ≤ i) : ¬CloseTagAt s name i j := by
  intro htag
  obtain ⟨tail, htail, rfl⟩ := htag.exists_place
  obtain ⟨rest, hrest, -⟩ := (closeTagAt_place_iff htail).mp htag
  rw [splitFirst_eq_none_iff.mp hs tail (suffix_of_place_le h htail hle)] at hrest
  cases hrest

/-- The search for a close tag comes to the first one, or to nothing where there is none. -/
theorem exists_findCloseTag (hstart : IsBoundary s start) (name : List Char) :
    ∃ found, findCloseTag s start name = .ok found ∧
      (∀ i j, found = some (i, j) ↔ IsFirstCloseTag s name start i j) ∧
      (found = none ↔ ∀ i j, start ≤ i → ¬CloseTagAt s name i j) := by
  obtain ⟨before, text, rfl, rfl⟩ := hstart
  have htext : text <:+ before ++ text := List.suffix_append before text
  rw [← place_append_self before text, findCloseTag_place htext]
  refine ⟨_, rfl, ?_⟩
  cases hs : splitRawText name text with
  | none =>
    have hnone : ∀ i j, place (before ++ text) text ≤ i → ¬CloseTagAt (before ++ text) name i j :=
      fun i j => not_closeTagAt_of_splitRawText htext hs
    refine ⟨fun i j => ⟨nofun, fun hfirst => ?_⟩, iff_of_true rfl hnone⟩
    exact absurd hfirst.tag (hnone i j hfirst.isLeast.1.1)
  | some p =>
    obtain ⟨content, rest⟩ := p
    have hfirst := isFirstCloseTag_of_splitRawText htext hs
    refine ⟨fun i j => ⟨?_, fun hother => ?_⟩, iff_of_false nofun fun hnone => ?_⟩
    · rintro ⟨⟩
      exact hfirst
    · obtain ⟨rfl, rfl⟩ := hfirst.unique hother
      rfl
    · exact hnone _ _ hfirst.isLeast.1.1 hfirst.tag

end

/-- From the start of a span stands a tag of raw text with a name and attributes, which ends at
`tagStop`. The span ends with the tag, if the tag closes itself, and has no content; otherwise it
ends with the first close tag of the name behind the tag, and the content is all that stands between
the two. -/
structure SpansRawText (s name : List Char) (object : Object) (span : Span) (tagStop : Nat)
    (content : List Char) : Prop where
  findMarkup : findMarkup s span.start = .ok (some tagStop)
  tagNameAt : tagNameAt s (span.start + 1) = .ok name
  attributes : ∃ closesItself,
    attributes s (span.start + 1 + byteSize name) (tagStop - 1) = .ok (object, closesItself) ∧
      if closesItself then span.stop = tagStop ∧ content = []
      else ∃ closeStart, IsFirstCloseTag s name tagStop closeStart span.stop ∧
        slice? s tagStop closeStart = some content

section

variable {s text rest inner content : List Char} {c : Cursor} {tag : OpenTag}
  {closesItself : Bool} {e : Element}

/-- An opening tag is read with its name and its attributes where it stands. -/
theorem Stands.reads_of_isOpeningTag (h : Stands s [] c) (hc : c.rest = tagText inner ++ rest)
    (htag : IsOpeningTag c.offset inner tag closesItself) :
    findMarkup s c.offset = .ok (some (place s rest)) ∧
      tagNameAt s (c.offset + 1) = .ok tag.name ∧
      attributes s (c.offset + 1 + byteSize tag.name) (place s rest - 1) =
        .ok (tag.attributes, closesItself) := by
  have hsplit : splitTag (inner ++ '>' :: rest) = .ok (inner, rest) :=
    splitTag_eq_ok_iff.mpr ⟨rfl, htag.fills⟩
  rw [tagText_append] at hc
  obtain ⟨hsuffix, hoffset⟩ := h.whole
  rw [hc] at hsuffix hoffset
  refine ⟨?_, ?_, ?_⟩
  · rw [hoffset, findMarkup_place hsuffix, hsplit]
    rfl
  · rw [hoffset, place_cons_of_not_isWide hsuffix (by decide), htag.name,
      ← tagName_append_gt inner rest]
    exact tagNameAt_place (suffix_of_cons hsuffix)
  · have hreadTag : readTag c (inner ++ '>' :: rest) =
        .ok (inner, c.advance (tagText inner) rest) := by
      rw [readTag, hsplit]
      rfl
    obtain ⟨hd, -⟩ := h.of_readTag hc hreadTag
    obtain ⟨properties, hread, hattributes⟩ := htag.attributes
    have hpos : 0 < place s rest := by
      rw [← tagText_append] at hsuffix
      exact Nat.zero_lt_of_lt (place_lt_of_append hsuffix (tagText_ne_nil inner))
    have hrun := h.attributes_of_readTag hc hreadTag
    rw [hd.whole.2, Cursor.advance, minus_eq hpos, ok_bind, ← htag.name] at hrun
    rw [hrun, Cursor.advance, hread, hattributes]
    rfl

/-- A stretch that a span cuts out of a text stands between two places. -/
theorem exists_places_of_slice? {span : Span} (h : span.slice? s = some text) (hne : text ≠ []) :
    ∃ rest, text ++ rest <:+ s ∧ span.start = place s (text ++ rest) ∧
      span.stop = place s rest := by
  simp only [Span.slice?, Option.bind_eq_bind, Option.bind_eq_some_iff, Prod.exists,
    Option.pure_def, Option.some.injEq] at h
  obtain ⟨before, tail, hbefore, found, rest, htext, hfound⟩ := h
  obtain ⟨rfl, hstart⟩ := eq_append_of_splitBytes? hbefore
  obtain ⟨rfl, hsize⟩ := eq_append_of_splitBytes? htext
  subst hfound
  have hsuffix := List.suffix_append before (found ++ rest)
  have hplace := place_append hsuffix
  have hpos := byteSize_pos hne
  have hfirst : span.start = place (before ++ (found ++ rest)) (found ++ rest) := by
    rw [place_append_self, hstart]
  exact ⟨rest, hsuffix, hfirst, by omega⟩

/-- An element of raw text spans its tag alone or its content up to the first close tag. -/
theorem spansRawText_of_covers (hraw : isRawTextElement e.name.toList = true)
    (hslice : e.span.slice? s = some text) (hcovers : e.Covers text) :
    ∃ tagStop content, SpansRawText s e.name.toList e.attributes e.span tagStop content ∧
      e.children = if content.isEmpty then [] else [.literal (.ofText tagStop content)] := by
  cases hcovers with
  | @tag inner closesItself hopening hend hchildren =>
    have hne := tagText_ne_nil inner
    obtain ⟨rest, hsuffix, hstart, hstop⟩ := exists_places_of_slice? hslice hne
    rw [Element.isVoidElement_eq_false hraw, Bool.or_false] at hend
    subst hend
    rw [Element.OpensWith, hstart] at hopening
    obtain ⟨hmarkup, hname, hattributes⟩ :=
      (stands_place hsuffix).reads_of_isOpeningTag rfl hopening
    rw [← hstart] at hmarkup hname hattributes
    exact ⟨place s rest, [], ⟨hmarkup, hname, true, hattributes, hstop, rfl⟩, hchildren⟩
  | @rawText inner content closing _ hopening hclosing hfirst hchildren =>
    have hne : tagText inner ++ (content ++ closing) ≠ [] := List.cons_ne_nil _ _
    obtain ⟨rest, hsuffix, hstart, hstop⟩ := exists_places_of_slice? hslice hne
    rw [List.append_assoc, List.append_assoc] at hsuffix hstart
    rw [Element.OpensWith, hstart] at hopening
    obtain ⟨hmarkup, hname, hattributes⟩ :=
      (stands_place hsuffix).reads_of_isOpeningTag rfl hopening
    have hlt : '<' ∉ e.name.toList := by
      have hinner : e.name.toList = tagName inner := hopening.name
      rw [hinner]
      exact lt_notMem_tagName inner
    have hsplit : splitRawText e.name.toList (content ++ (closing ++ rest)) =
        some (content, rest) :=
      (splitRawText_eq_some_iff hlt).mpr ⟨closing, rfl, hclosing, hfirst⟩
    have hcontent := suffix_of_append hsuffix
    have hclose := isFirstCloseTag_of_splitRawText hcontent hsplit
    have htagStop : place s (content ++ (closing ++ rest)) =
        e.span.start + byteSize (tagText inner) := by
      rw [hstart, place_append hsuffix]
    rw [← hstart] at hmarkup hname hattributes
    rw [← hstop] at hclose
    refine ⟨_, content, ⟨hmarkup, hname, false, hattributes, _, hclose, ?_⟩, ?_⟩
    · rw [← place_append hcontent]
      exact slice?_place hcontent
    · rw [hchildren, htagStop]
  | nested hmarkup =>
    rw [hraw] at hmarkup
    cases hmarkup

end

end Bytes

/-- Every raw text of a document spans its source up to the first close tag of its name, and is kept
whole, as the only child of its element or as the source of its block. -/
structure Document.RawTextsEnd (source : List Char) (d : Document) : Prop where
  element : ∀ e, Token.element e ∈ d.nodes → isRawTextElement e.name.toList = true →
    ∃ tagStop content,
      Bytes.SpansRawText source e.name.toList e.attributes e.span tagStop content ∧
      e.children = if content.isEmpty then [] else [.literal (.ofText tagStop content)]
  block : ∀ block ∈ d.scripts ++ d.styles, ∃ tagStop content,
    Bytes.SpansRawText source block.name.toList block.attributes block.span tagStop content ∧
      block.source = String.ofList content

/-- In every document that is read, raw text ends at its first close tag. -/
theorem Document.rawTextsEnd_of_ofText {source : List Char} {limit : Nat} {d : Document}
    (h : Document.ofText source limit = .ok d) : d.RawTextsEnd source := by
  obtain ⟨nodes, hreads, rfl⟩ := Document.ofText_eq_ok_iff.mp h
  constructor
  · intro e he hraw
    obtain ⟨text, hslice, hcovers⟩ :=
      hreads.covers_of_mem_roots (Document.mem_tokenNodes_of_mem_nodes he)
    exact Bytes.spansRawText_of_covers hraw hslice hcovers
  · intro block hblock
    have hraw := Document.isRawTextElement_of_mem_blocks hblock
    obtain ⟨e, text, rfl, hslice, hcovers⟩ := hreads.covers_of_mem_blocks hblock
    obtain ⟨tagStop, content, hspans, hchildren⟩ :=
      Bytes.spansRawText_of_covers hraw hslice hcovers
    refine ⟨tagStop, content, hspans, ?_⟩
    rw [Element.rawBlock, Element.rawContent, hchildren]
    cases content <;> rfl

/-- From every boundary of a text the search for a close tag comes to the first one that begins
there or behind it, and to nothing only where there is none; and there ends all raw text of the
document that is read from the text. -/
theorem rawText_ends_at_firstCloseTag (source : List Char) :
    (∀ start, IsBoundary source start → ∀ name, ∃ found,
      Bytes.findCloseTag source start name = .ok found ∧
        (∀ i j, found = some (i, j) ↔ Bytes.IsFirstCloseTag source name start i j) ∧
        (found = none ↔ ∀ i j, start ≤ i → ¬Bytes.CloseTagAt source name i j)) ∧
      ∀ limit d, Document.ofText source limit = .ok d → d.RawTextsEnd source := by
  constructor
  · intro start hstart name
    exact Bytes.exists_findCloseTag hstart name
  · intro limit d h
    exact Document.rawTextsEnd_of_ofText h

private def nearMissSource : List Char :=
  ("<p><SCRIPT src=a>é</scripté></</script <</Script \n></p>" ++
    "<style>x</styles></style ><style/>").toList

/-- Near misses of a close tag inside raw text do not end it, at an element nor at a block. -/
theorem rawText_ends_at_firstCloseTag_nearMiss :
    Bytes.IsFirstCloseTag nearMissSource "SCRIPT".toList 17 42 53 ∧
      ∃ d, Document.ofText nearMissSource 1 = .ok d ∧
        d.styles.map RawBlock.source = ["x</styles>", ""] ∧ d.RawTextsEnd nearMissSource := by
  obtain ⟨hsearch, hdocument⟩ := rawText_ends_at_firstCloseTag nearMissSource
  have hread : (Document.ofText nearMissSource 1).toOption.any (fun d =>
      decide (d.styles.map RawBlock.source = ["x</styles>", ""])) = true := by
    decide +kernel
  obtain ⟨d, hd, hstyles⟩ := Document.exists_of_any hread
  have hboundary : IsBoundary nearMissSource 17 := isBoundary_iff.mpr (by decide +kernel)
  have hrun : Bytes.findCloseTag nearMissSource 17 "SCRIPT".toList = .ok (some (42, 53)) := by
    decide +kernel
  obtain ⟨found, hfound, hsome, -⟩ := hsearch 17 hboundary "SCRIPT".toList
  have hfirst := (hsome 42 53).mp (Except.ok.inj (hfound.symm.trans hrun))
  exact ⟨hfirst, d, hd, of_decide_eq_true hstyles, hdocument 1 d hd⟩

end TemplateReader
