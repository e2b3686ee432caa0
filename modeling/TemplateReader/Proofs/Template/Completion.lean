import TemplateReader.Proofs.Template.Extension

/-!
# Closing what is open

A template that ends inside an element, a raw text or a comment is continued by
what closes it. A close tag behind the text closes the innermost open element and
leaves the others open, however the text ends, so the close tags of all of them,
from the innermost outwards, make a document. The closing of a raw text or of a
comment leaves open what was open around it.
-/

namespace TemplateReader

/-- The elements of `tags`, innermost first, are those open at the end of a source. -/
def OpenAtEnd (limit : Nat) (source : List Char) (tags : List OpenTag) : Prop :=
  LeavesOpen limit source tags ⟨byteSize source, []⟩

/-- The close tag of a name. -/
def closeTagText (name : List Char) : List Char := tagText ('/' :: name)

/-- The close tags of some elements, one behind the other. -/
def closeTagTexts (tags : List OpenTag) : List Char :=
  tags.flatMap fun tag => closeTagText tag.name

/-- What is read of a source at whose end the elements of `tags` are open: a document when there
are none, and else the error of the innermost. -/
def EndsOpen (tags : List OpenTag) (result : Except TemplateError Document) : Prop :=
  match tags with
  | [] => ∃ d, result = .ok d
  | tag :: _ => result = .error tag.unclosedError

section

variable {limit : Nat} {source text inner : List Char} {tags outer closed : List OpenTag}
  {tag o : OpenTag} {c d : Cursor} {e : TemplateError}

/-- What pieces leave open with no text left is open at the end of the source. -/
theorem LeavesOpen.openAtEnd (h : LeavesOpen limit source tags c) (hc : c.rest = []) :
    OpenAtEnd limit source tags := by
  obtain ⟨before, hsource, hoffset⟩ := h.isIn
  rw [hc, List.append_nil] at hsource
  rw [hsource] at h ⊢
  have hcursor : c = ⟨byteSize before, []⟩ := by
    cases c
    simp_all
  rw [OpenAtEnd, ← hcursor]
  exact h

/-- With elements open at its end a source is read to the error of the innermost, and else to a
document. -/
theorem OpenAtEnd.endsOpen (h : OpenAtEnd limit source tags) :
    EndsOpen tags (Document.ofText source limit) := by
  cases tags with
  | nil => exact LeavesOpen.exists_document h rfl
  | cons tag tags => exact Document.ofText_eq_error_iff_failsAt.mpr ⟨_, _, h, .unclosed rfl⟩

/-- An open element begins before the end of the pieces. -/
theorem LeavesOpen.start_lt_offset (h : LeavesOpen limit source tags c) (ho : o ∈ tags) :
    o.span.start < c.offset := by
  obtain ⟨after, before, rfl⟩ := List.append_of_mem ho
  obtain ⟨d, inner, text, -, htag, hpasses⟩ := h.opened (List.suffix_append after _)
  have hstart : o.span.start = d.offset := congrArg Span.start htag.span
  have hpos : 0 < byteSize (tagText inner ++ text) := byteSize_pos (List.cons_ne_nil _ _)
  have hoffset := hpasses.offset
  omega

/-- Of the elements that are open at once, the innermost begins last. -/
theorem LeavesOpen.start_lt (h : LeavesOpen limit source (tag :: tags) c) (ho : o ∈ tags) :
    o.span.start < tag.span.start := by
  obtain ⟨d, inner, text, hopen, htag, -⟩ := h.opened List.suffix_rfl
  rw [htag.span]
  exact hopen.start_lt_offset ho

/-- Where what was open at a place is open at the end, only an element opened before the place can
be missing its close tag. -/
theorem LeavesOpen.error_of_openAtEnd {source' : List Char} (h : LeavesOpen limit source tags c)
    (hend : OpenAtEnd limit source' tags) (he : Document.ofText source' limit = .error e) :
    e.diagnostic.kind = .unclosedElement ∧ e.span.start < c.offset := by
  have hends := hend.endsOpen
  rw [he] at hends
  cases tags with
  | nil =>
    obtain ⟨d, hd⟩ := hends
    cases hd
  | cons o tags =>
    obtain rfl := Except.error.inj hends
    exact ⟨rfl, h.start_lt_offset List.mem_cons_self⟩

/-- The name in an opening tag is one of an element. -/
theorem IsOpeningTag.isElementName {k : Nat} {closesItself : Bool}
    (h : IsOpeningTag k inner tag closesItself) : Markup.IsElementName tag.name := by
  obtain ⟨ch, tail, rfl, hch⟩ := h.begins
  refine ⟨ch, tagName tail, ?_, hch, fun d hd => ?_⟩
  · rw [h.name, tagName_cons hch]
  · exact List.all_eq_true.mp List.all_takeWhile d hd

/-- A close tag behind the text closes the innermost open element. -/
theorem OpenAtEnd.close (h : OpenAtEnd limit source (tag :: tags)) :
    OpenAtEnd limit (source ++ closeTagText tag.name) tags := by
  obtain ⟨d, inner, text, -, htag, -⟩ := LeavesOpen.opened h List.suffix_rfl
  have hclose := Markup.closeTag_print htag.isElementName (byteSize source)
  have hstops := hclose.stops []
  rw [List.append_nil] at hstops
  have hopen := LeavesOpen.extend h (closeTagText tag.name) fun _ => hstops
  have hread := (hclose.read []).2
  rw [List.append_nil] at hread
  exact (hopen.closeTag hread (beq_self_eq_true _)).openAtEnd rfl

/-- Close tags behind the text close open elements, from the innermost outwards. -/
theorem OpenAtEnd.closeAll (h : OpenAtEnd limit source (closed ++ outer)) :
    OpenAtEnd limit (source ++ closeTagTexts closed) outer := by
  induction closed generalizing source with
  | nil => rwa [closeTagTexts, List.flatMap_nil, List.append_nil]
  | cons tag closed ih =>
    rw [closeTagTexts, List.flatMap_cons, ← List.append_assoc]
    exact ih h.close

/-- What closes a construct behind the text makes it a node, and no element is opened or closed. -/
theorem LeavesOpen.openAtEnd_of_construct {x : List Char} {t : Token}
    (h : LeavesOpen limit source tags c) (hc : c.rest ++ text = x)
    (hx : Construct c.offset x (.node t)) (hne : c.rest ≠ []) :
    OpenAtEnd limit (source ++ text) tags := by
  have hopen := h.extend text fun hnil => absurd hnil hne
  have hread := (hx.read []).2
  rw [List.append_nil, ← hc] at hread
  exact (hopen.node (List.append_ne_nil_of_left_ne_nil hne _) hread).openAtEnd rfl

/-- The closing of a comment behind the text closes the comment. -/
theorem LeavesOpen.openAtEnd_of_comment (h : LeavesOpen limit source tags c)
    (hc : c.rest = commentOpening ++ inner) (hinner : ¬commentClosing <:+: inner) :
    OpenAtEnd limit (source ++ commentClosing) tags := by
  have hne : c.rest ≠ [] := by
    rw [hc]
    exact List.cons_ne_nil _ _
  exact h.openAtEnd_of_construct (congrArg (· ++ commentClosing) hc) (.comment hinner) hne

/-- A close tag of its name behind the text closes a raw text. -/
theorem LeavesOpen.openAtEnd_of_rawText {content : List Char} (h : LeavesOpen limit source tags c)
    (hc : c.rest = tagText inner ++ content) (htag : IsOpeningTag c.offset inner tag false)
    (hvoid : isVoidElement tag.name = false) (hraw : isRawTextElement tag.name = true)
    (hcontent : ∀ close, IsCloseTag tag.name close → ¬close <:+: content) :
    OpenAtEnd limit (source ++ closeTagText tag.name) tags := by
  have hne : c.rest ≠ [] := by
    rw [hc]
    exact List.cons_ne_nil _ _
  refine h.openAtEnd_of_construct ?_
    (.rawText htag hvoid hraw (Markup.isCloseTag_print tag.name) hcontent) hne
  rw [hc, List.append_assoc]
  rfl

end

/-- The element of a tag is the innermost of those open at the end of a source, and its close tag
closes it. -/
structure ClosesInnermost (limit : Nat) (source : List Char) (tag : OpenTag)
    (outer : List OpenTag) : Prop where
  openAtEnd : OpenAtEnd limit source (tag :: outer)
  /-- Its name is read behind the `<` of its tag. -/
  name : ∃ before text, source = before ++ '<' :: text ∧ tag.span.start = byteSize before ∧
    tag.name = tagName text
  /-- Behind the close tag, the next open element is missing its own, if there is one. -/
  next : EndsOpen outer (Document.ofText (source ++ closeTagText tag.name) limit)
  /-- The other open elements begin before it. -/
  start_lt : ∀ o ∈ outer, o.span.start < tag.span.start
  /-- The close tags of all of them make a document. -/
  all : ∃ d, Document.ofText (source ++ closeTagTexts (tag :: outer)) limit = .ok d

/-- What closes the construct that an error speaks of mends the error. -/
structure TemplateError.Mends (e : TemplateError) (source : List Char) (limit : Nat) : Prop where
  /-- A close tag closes the innermost open element, and the next one shows. -/
  element : ∀ name, e.fault = .unclosedElement name → ∃ tag outer, name = String.ofList tag.name ∧
    e = tag.unclosedError ∧ ClosesInnermost limit source tag outer
  /-- Behind the close tag of a raw text, only an element around it can be open. -/
  rawText : ∀ name, e.fault = .unterminatedRawText name → ∀ e',
    Document.ofText (source ++ closeTagText name.toList) limit = .error e' →
      e'.diagnostic.kind = .unclosedElement ∧ e'.span.start < e.span.start
  /-- Behind the closing of a comment, only an element around it can be open. -/
  comment : e.fault = .unterminatedComment → ∀ e',
    Document.ofText (source ++ commentClosing) limit = .error e' →
      e'.diagnostic.kind = .unclosedElement ∧ e'.span.start < e.span.start

section

variable {limit : Nat} {source : List Char} {tags outer : List OpenTag} {tag : OpenTag} {c : Cursor}
  {e : TemplateError}

/-- The innermost element that is open at the end of a source is closed by its close tag. -/
theorem OpenAtEnd.closesInnermost (h : OpenAtEnd limit source (tag :: outer)) :
    ClosesInnermost limit source tag outer := by
  refine ⟨h, ?_, h.close.endsOpen, fun o ho => LeavesOpen.start_lt h ho, ?_⟩
  · obtain ⟨d, inner, text, hopen, htag, hpasses⟩ := LeavesOpen.opened h List.suffix_rfl
    obtain ⟨before, hsource, hoffset⟩ := hopen.isIn
    have hrest := hpasses.rest
    rw [List.append_nil, tagText_append] at hrest
    refine ⟨before, inner ++ '>' :: text, hrest ▸ hsource, ?_, ?_⟩
    · rw [htag.span, ← hoffset]
    · rw [htag.name, tagName_append_gt]
  · have hopen : OpenAtEnd limit source ((tag :: outer) ++ []) := by rwa [List.append_nil]
    exact hopen.closeAll.endsOpen

/-- An error of a construct without an end is mended by the end of the construct. -/
theorem Unterminated.mends (h : Unterminated c e) (hopen : LeavesOpen limit source tags c) :
    e.Mends source limit := by
  cases h with
  | comment hc hinner =>
    refine ⟨nofun, nofun, fun _ e' he' => ?_⟩
    exact hopen.error_of_openAtEnd (hopen.openAtEnd_of_comment hc hinner) he'
  | delimiter h =>
    obtain ⟨before, ch, after, -, hdelimiter⟩ := h
    cases hdelimiter <;> exact ⟨nofun, nofun, nofun⟩
  | tag => exact ⟨nofun, nofun, nofun⟩
  | rawText hc htag hvoid hraw hcontent =>
    refine ⟨nofun, fun name hname e' he' => ?_, nofun⟩
    obtain rfl := TemplateFault.unterminatedRawText.inj hname
    rw [String.toList_ofList] at he'
    have hend := hopen.openAtEnd_of_rawText hc htag hvoid hraw hcontent
    rw [htag.span]
    exact hopen.error_of_openAtEnd hend he'

end

/-- A template that ends inside an element, a raw text or a comment is mended by what closes it. -/
theorem Document.mends_of_ofText_error {source : List Char} {limit : Nat} {e : TemplateError}
    (h : Document.ofText source limit = .error e) : e.Mends source limit := by
  obtain ⟨tags, c, hopen, hfails⟩ := Document.ofText_eq_error_iff_failsAt.mp h
  cases hfails with
  | piece hread => exact (unterminated_of_readPiece hread).mends hopen
  | @unclosed outer tag c hc =>
    refine ⟨fun name hname => ?_, nofun, nofun⟩
    obtain rfl := TemplateFault.unclosedElement.inj hname
    exact ⟨tag, outer, rfl, rfl, (hopen.openAtEnd hc).closesInnermost⟩
  | tooDeep | unexpected | mismatched => exact ⟨nofun, nofun, nofun⟩

private def danglingSource : List Char := "<ul>é<LI a='>'>x</".toList

/-- A list with an item in it, both open, is mended by two close tags. -/
theorem Document.mends_dangling :
    ∃ e, Document.ofText danglingSource 2 = .error e ∧ e.fault = .unclosedElement "LI" ∧
      e.Mends danglingSource 2 := by
  have h : Document.ofText danglingSource 2 = .error ⟨.unclosedElement "LI", ⟨6, 9⟩⟩ :=
    Document.ofText_eq_error_of_decide (by decide +kernel)
  exact ⟨_, h, rfl, Document.mends_of_ofText_error h⟩

end TemplateReader
