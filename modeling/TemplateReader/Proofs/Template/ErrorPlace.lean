import TemplateReader.Proofs.Template.History
import TemplateReader.Proofs.Template.Unterminated

/-!
# Places of errors

A template that is refused is refused at a place in it. The span of the report
is a stretch of the source that is not empty, ends between characters and begins
with what the kind of the report speaks of. A second place is given for a close
tag of another name alone: the opening tag that stands before it.
-/

namespace TemplateReader

/-- What stands in a text where trouble of a kind is reported. -/
def DiagnosticKind.Opens : DiagnosticKind → List Char → Prop
  | mismatchedCloseTag, text | unexpectedCloseTag, text => Opening.closeTag.Begins text
  | unterminatedComment, text => Opening.comment.Begins text
  | unterminatedQuote, text => ∃ quote tail, text = quote :: tail ∧ isTagQuote quote = true
  | unterminatedProgram, text => Opening.program.Begins text
  | unclosedElement, text | unterminatedTag, text | unterminatedRawText, text
  | nestingTooDeep, text => ∃ tail, text = '<' :: tail

/-- At the place stands the opening tag of an element, and behind it, at `start`, a close tag of
another name. -/
def RelatedPlace.OpensBefore (r : RelatedPlace) (source : List Char) (start : Nat) : Prop :=
  ∃ (before inner text closing : List Char) (tag : OpenTag),
    source = before ++ (tagText inner ++ text ++ '<' :: '/' :: closing) ∧
      r.offset = byteSize before ∧ IsOpeningTag r.offset inner tag false ∧
      start = byteSize (before ++ (tagText inner ++ text)) ∧
      eqIgnoreCase tag.name (tagName closing) = false

/-- A report is about a place in a source. -/
structure Diagnostic.PointsInto (d : Diagnostic) (source : List Char) : Prop where
  /-- It spans some text. -/
  start_lt : d.span.start < d.span.stop
  /-- Its span lies in the source. -/
  stop_le : d.span.stop ≤ byteSize source
  /-- The span is a stretch of characters, and what its kind speaks of begins there. -/
  opens : ∃ before text after, source = before ++ (text ++ after) ∧
    d.span = ⟨byteSize before, byteSize (before ++ text)⟩ ∧ d.kind.Opens (text ++ after)
  /-- A second place is given for a close tag of another name alone. -/
  related_isSome_iff : d.related.isSome = true ↔ d.kind = .mismatchedCloseTag
  /-- It is that of an opening tag, smaller than the start of the close tag. -/
  related : ∀ r, d.related = some r →
    r.offset < d.span.start ∧ r.OpensBefore source d.span.start

/-- An error spans some of the text at offset `k`, and what its kind speaks of begins there. -/
def TemplateError.SpansIn (e : TemplateError) (k : Nat) (text : List Char) : Prop :=
  ∃ before found after, text = before ++ (found ++ after) ∧ found ≠ [] ∧
    e.span = ⟨k + byteSize before, k + byteSize (before ++ found)⟩ ∧
    e.fault.kind.Opens (found ++ after)

/-- An error marks some of the text at offset `k`: it spans that, and a carriage return, which may
belong to the end of a line, is not the last character of it. -/
def TemplateError.MarksIn (e : TemplateError) (k : Nat) (text : List Char) : Prop :=
  ∃ before found after, text = before ++ (found ++ after) ∧ found ≠ [] ∧
    found.getLast? ≠ some '\r' ∧ e.span = ⟨k + byteSize before, k + byteSize (before ++ found)⟩ ∧
    e.fault.kind.Opens (found ++ after)

section

variable {limit k : Nat} {source x text after : List Char} {tags : List OpenTag} {tag : OpenTag}
  {c d : Cursor} {e : TemplateError}

/-- What an error marks, it spans. -/
theorem TemplateError.MarksIn.spansIn (h : e.MarksIn k text) : e.SpansIn k text := by
  obtain ⟨before, found, after, htext, hne, -, hspan, hopens⟩ := h
  exact ⟨before, found, after, htext, hne, hspan, hopens⟩

/-- What an error marks in a text, it marks behind another text. -/
theorem TemplateError.MarksIn.append_left (h : e.MarksIn (k + byteSize x) text) :
    e.MarksIn k (x ++ text) := by
  obtain ⟨before, found, after, rfl, hne, hlast, hspan, hopens⟩ := h
  refine ⟨x ++ before, found, after, (List.append_assoc _ _ _).symm, hne, hlast, ?_, hopens⟩
  rw [hspan]
  simp only [byteSize_append, Nat.add_assoc]

/-- An error marks the stretch at the front of a text that it spans, unless that ends with a
carriage return. -/
theorem TemplateError.MarksIn.of_front (hc : c.rest = text ++ after) (hne : text ≠ [])
    (hlast : text.getLast? ≠ some '\r') (hspan : e.span = ⟨c.offset, c.offset + byteSize text⟩)
    (hopens : e.fault.kind.Opens c.rest) : e.MarksIn c.offset c.rest :=
  ⟨[], text, after, hc, hne, hlast, hspan, hc ▸ hopens⟩

/-- A tag does not end with a carriage return. -/
theorem getLast?_tagText_ne (inner : List Char) : (tagText inner).getLast? ≠ some '\r' := by
  rw [tagText, ← List.cons_append, List.getLast?_concat]
  decide

/-- No carriage return stands at the end of a name, or at the end of what is in front of it. -/
theorem getLast?_append_tagName_ne (front : List Char) (hfront : '\r' ∉ front)
    (text : List Char) : (front ++ tagName text).getLast? ≠ some '\r' := by
  intro h
  rcases List.mem_append.mp (List.mem_of_getLast? h) with h | h
  · exact hfront h
  · exact Bool.false_ne_true (List.all_eq_true.mp List.all_takeWhile _ h)

/-- A quote and a brace take up one byte. -/
theorem IsDelimiterError.marksIn (h : IsDelimiterError k text e) : e.MarksIn k text := by
  obtain ⟨before, ch, after, rfl, hopen⟩ := h
  have hspan (hch : ch.utf8Size = 1) : (⟨k + byteSize before, k + byteSize before + 1⟩ : Span) =
      ⟨k + byteSize before, k + byteSize (before ++ [ch])⟩ := by
    simp only [byteSize_append, byteSize_cons, byteSize_nil, hch, Nat.add_assoc]
  have hquote (hch : isTagQuote ch = true) : ch.utf8Size = 1 := by
    simp only [isTagQuote, Bool.or_eq_true, decide_eq_true_eq] at hch
    rcases hch with rfl | rfl <;> rfl
  have hlast (hch : isTagQuote ch = true) : [ch].getLast? ≠ some '\r' := by
    rintro ⟨⟩
    exact absurd hch (by decide)
  refine ⟨before, [ch], after, rfl, List.cons_ne_nil _ _, ?_⟩
  cases hopen with
  | quote hch => exact ⟨hlast hch, hspan (hquote hch), ch, after, rfl, hch⟩
  | overlong hch => exact ⟨hlast hch, hspan (hquote hch), ch, after, rfl, hch⟩
  | brace => exact ⟨by decide, hspan rfl, after, rfl⟩

/-- A tag without an end is spanned up to the end of its name. -/
theorem exists_name_of_openTagError (k : Nat) (text : List Char) :
    ∃ name rest, text = name ++ rest ∧ ('<' :: name).getLast? ≠ some '\r' ∧
      (openTagError k text .noEnd).span = ⟨k, k + byteSize ('<' :: name)⟩ ∧
      (openTagError k text .noEnd).fault.kind = .unterminatedTag := by
  have split (text : List Char) : text = tagName text ++ text.dropWhile isTagNameChar :=
    List.takeWhile_append_dropWhile.symm
  by_cases hslash : ∃ tail, text = '/' :: tail
  · obtain ⟨tail, rfl⟩ := hslash
    refine ⟨'/' :: tagName tail, _, congrArg ('/' :: ·) (split tail),
      getLast?_append_tagName_ne ['<', '/'] (by decide) tail, ?_, rfl⟩
    simp only [openTagError, byteSize_cons, Nat.add_assoc]
    rfl
  · refine ⟨tagName text, _, split text,
      getLast?_append_tagName_ne ['<'] (by decide) text, ?_⟩
    rw [openTagError]
    · simp only [byteSize_cons, Nat.add_assoc, Nat.zero_add, TemplateFault.kind, and_true]
      rfl
    · intro tail htext
      exact hslash ⟨tail, htext⟩

/-- The error of a construct without an end marks how the construct begins. -/
theorem Unterminated.marksIn (h : Unterminated c e) : e.MarksIn c.offset c.rest := by
  cases h with
  | comment hc => exact .of_front hc (List.cons_ne_nil _ _) (by decide) rfl ⟨_, hc⟩
  | delimiter h => exact h.marksIn
  | @tag text hc =>
    obtain ⟨name, rest, htext, hlast, hspan, hkind⟩ := exists_name_of_openTagError c.offset text
    have hrest : c.rest = ('<' :: name) ++ rest := by rw [hc, htext, List.cons_append]
    refine .of_front hrest (List.cons_ne_nil _ _) hlast hspan ?_
    rw [hkind]
    exact ⟨text, hc⟩
  | rawText hc htag =>
    exact .of_front hc (tagText_ne_nil _) (getLast?_tagText_ne _) htag.span
      ⟨_, hc.trans (tagText_append _ _)⟩

/-- A close tag is an opening with a name behind it. -/
theorem Construct.exists_of_closeTag {name : List Char} {span : Span}
    (h : Construct k x (.closeTag name span)) :
    ∃ ch inner, x = tagText ('/' :: ch :: inner) ∧ ch.isAlpha = true ∧
      name = tagName (ch :: inner) ∧ span = ⟨k, k + byteSize x⟩ := by
  cases h with
  | closeTag hc => exact ⟨_, _, rfl, hc, rfl, rfl⟩

/-- The error of a close tag marks the tag. -/
theorem marksIn_of_closeTag {name : List Char} {span : Span}
    (hx : c.Passes x d) (h : Construct c.offset x (.closeTag name span)) (hspan : e.span = span)
    (hkind : e.fault.kind = .mismatchedCloseTag ∨ e.fault.kind = .unexpectedCloseTag) :
    e.MarksIn c.offset c.rest := by
  obtain ⟨ch, inner, rfl, hch, -, rfl⟩ := h.exists_of_closeTag
  have hbegins : Opening.closeTag.Begins c.rest :=
    ⟨ch, inner ++ '>' :: d.rest, hx.rest.trans (tagText_append _ _), hch⟩
  refine .of_front hx.rest (tagText_ne_nil _) (getLast?_tagText_ne _) hspan ?_
  rcases hkind with hkind | hkind <;> rw [hkind] <;> exact hbegins

/-- An element that is not closed is spanned up to the end of its name. -/
theorem IsOpeningTag.marksIn_unclosedError {inner : List Char}
    (h : IsOpeningTag c.offset inner tag false) (hc : c.rest = tagText inner ++ after) :
    tag.unclosedError.MarksIn c.offset c.rest := by
  have hrest : c.rest = ('<' :: tag.name) ++ (inner.dropWhile isTagNameChar ++ '>' :: after) := by
    rw [hc, tagText_append, h.name, List.cons_append, ← List.append_assoc, tagName,
      List.takeWhile_append_dropWhile]
  have hlast : ('<' :: tag.name).getLast? ≠ some '\r' :=
    h.name ▸ getLast?_append_tagName_ne ['<'] (by decide) inner
  refine .of_front hrest (List.cons_ne_nil _ _) hlast ?_ ⟨_, hrest⟩
  simp only [OpenTag.unclosedError, OpenElement.unclosedError, h.span, byteSize_cons, Span.mk.injEq,
    true_and]
  change _ = c.offset + (1 + _)
  omega

/-- What an error marks behind the pieces that were read, it marks in the source. -/
theorem LeavesOpen.marksIn (h : LeavesOpen limit source tags c)
    (he : e.MarksIn c.offset c.rest) : e.MarksIn 0 source := by
  obtain ⟨before, rfl, hoffset⟩ := h.isIn
  rw [hoffset, ← Nat.zero_add (byteSize before)] at he
  exact he.append_left

/-- Where no piece can follow, the error marks some of the source. -/
theorem FailsAt.marksIn (h : FailsAt limit tags c e) (hopen : LeavesOpen limit source tags c) :
    e.MarksIn 0 source := by
  cases h with
  | piece hread => exact hopen.marksIn (unterminated_of_readPiece hread).marksIn
  | unclosed hc =>
    obtain ⟨d, inner, text, hopen', htag, hpasses⟩ := hopen.opened List.suffix_rfl
    have hd : d.rest = tagText inner ++ (text ++ c.rest) := by
      rw [hpasses.rest, List.append_assoc]
    exact hopen'.marksIn (htag.marksIn_unclosedError hd)
  | tooDeep hread =>
    obtain ⟨x, hx, hconstruct⟩ := construct_of_readPiece_tag hread (openTag_ne_node _)
    obtain ⟨inner, rfl, htag, -, -⟩ := hconstruct.openTag_eq
    have hrest := hx.rest
    exact hopen.marksIn (.of_front hrest (tagText_ne_nil _) (getLast?_tagText_ne _) htag.span
      ⟨_, hrest.trans (tagText_append _ _)⟩)
  | unexpected hread =>
    obtain ⟨x, hx, hconstruct⟩ := construct_of_readPiece_tag hread (closeTag_ne_node _ _)
    exact hopen.marksIn (marksIn_of_closeTag hx hconstruct rfl (Or.inr rfl))
  | mismatched hread =>
    obtain ⟨x, hx, hconstruct⟩ := construct_of_readPiece_tag hread (closeTag_ne_node _ _)
    exact hopen.marksIn (marksIn_of_closeTag hx hconstruct rfl (Or.inl rfl))

/-- The error that stops a source spans some of it. -/
theorem FailsAt.spansIn (h : FailsAt limit tags c e) (hopen : LeavesOpen limit source tags c) :
    e.SpansIn 0 source :=
  (h.marksIn hopen).spansIn

/-- A fault of no other kind has a second place. -/
theorem TemplateFault.related_isSome_iff (fault : TemplateFault) :
    fault.related.isSome = true ↔ fault.kind = .mismatchedCloseTag := by
  cases fault <;> simp [related, kind]

/-- The errors of readers of single pieces have no second place. -/
theorem Unterminated.related_eq_none (h : Unterminated c e) : e.fault.related = none := by
  cases h with
  | comment | rawText => rfl
  | delimiter h =>
    obtain ⟨before, ch, after, -, hopen⟩ := h
    cases hopen <;> rfl
  | tag => rfl

/-- The second place of an error is that of the opening tag that should have been closed. -/
theorem FailsAt.related_opensBefore {r : RelatedPlace} (h : FailsAt limit tags c e)
    (hopen : LeavesOpen limit source tags c) (hr : e.fault.related = some r) :
    r.offset < e.span.start ∧ r.OpensBefore source e.span.start := by
  cases h with
  | piece hread =>
    rw [(unterminated_of_readPiece hread).related_eq_none] at hr
    cases hr
  | unclosed | tooDeep | unexpected => cases hr
  | @mismatched tags tag c c' name span hread hname =>
    obtain rfl := Option.some.inj hr
    obtain ⟨x, hx, hconstruct⟩ := construct_of_readPiece_tag hread (closeTag_ne_node _ _)
    obtain ⟨ch, closing, rfl, -, rfl, rfl⟩ := hconstruct.exists_of_closeTag
    obtain ⟨d, inner, text, hopen', htag, hpasses⟩ := hopen.opened List.suffix_rfl
    obtain ⟨before, rfl, hoffset⟩ := hopen'.isIn
    have hstart : tag.span.start = d.offset := congrArg Span.start htag.span
    have hclosing : c.rest = '<' :: '/' :: (ch :: closing ++ '>' :: c'.rest) :=
      hx.rest.trans (tagText_append _ _)
    have hc := hpasses.offset
    refine ⟨?_, before, inner, text, ch :: closing ++ '>' :: c'.rest, tag, ?_, ?_, ?_, ?_, ?_⟩
    · have hpos := byteSize_pos (tagText_ne_nil inner)
      rw [byteSize_append] at hc
      simp only [hstart]
      omega
    · rw [hpasses.rest, hclosing]
    · rw [← hoffset, ← hstart]
    · simp only [hstart]
      exact htag
    · rw [byteSize_append, ← hoffset, ← hc]
    · rw [tagName_append_gt]
      exact hname

end

/-- Every template that is refused is refused at a place in it. -/
theorem Document.pointsInto_of_ofText_error {source : List Char} {limit : Nat} {e : TemplateError}
    (h : Document.ofText source limit = .error e) : e.diagnostic.PointsInto source := by
  obtain ⟨tags, c, hopen, hfails⟩ := Document.ofText_eq_error_iff_failsAt.mp h
  obtain ⟨before, text, after, hsource, hne, hspan, hopens⟩ := hfails.spansIn hopen
  have hpos := byteSize_pos hne
  have hsize := congrArg byteSize hsource
  simp only [Nat.zero_add] at hspan
  have hspan' : e.diagnostic.span = ⟨byteSize before, byteSize (before ++ text)⟩ := hspan
  refine ⟨?_, ?_, ⟨before, text, after, hsource, hspan', hopens⟩, ?_, fun r hr => ?_⟩
  · rw [hspan', byteSize_append]
    dsimp only
    omega
  · rw [hspan', hsize]
    simp only [byteSize_append]
    omega
  · exact e.fault.related_isSome_iff
  · exact hfails.related_opensBefore hopen hr

private def mismatchedSource : List Char := "é<div a='>'>ä</p >".toList

/-- A close tag of another name is marked, with the opening tag of the innermost element. -/
theorem Document.pointsInto_mismatched :
    ∃ e, Document.ofText mismatchedSource 1 = .error e ∧
      e = ⟨.mismatchedCloseTag "div" "p" 2, ⟨15, 20⟩⟩ ∧
      e.diagnostic.PointsInto mismatchedSource := by
  have h : Document.ofText mismatchedSource 1 =
      .error ⟨.mismatchedCloseTag "div" "p" 2, ⟨15, 20⟩⟩ :=
    Document.ofText_eq_error_of_decide (by decide +kernel)
  exact ⟨_, h, rfl, Document.pointsInto_of_ofText_error h⟩

end TemplateReader
