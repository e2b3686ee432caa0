import Mathlib.Data.List.Forall2
import TemplateReader.Proofs.Diagnostic.Colour
import TemplateReader.Proofs.Template.ErrorPlace

/-!
# Underlined errors

The report of a template that is refused shows the line where the error begins, with
carets under the part of the error that is on that line. Places are seen on their
lines here: between what the line has in front of them and what it has behind them.
No error begins at the end of a line or goes up to the carriage return of one, so
an error ends on the line where it begins or has the whole end of that line in it.
In both cases there are as many carets as characters to underline.
-/

namespace TemplateReader

/-- A place in a text, on its line. -/
structure LinePlace where
  /-- The lines above its line. -/
  above : List Char
  /-- What its line has in front of it. -/
  front : List Char
  /-- What its line has behind it. -/
  back : List Char
  /-- What stands below its line, the end of the line included. -/
  below : List Char

namespace LinePlace

/-- The line of a place, without its end. -/
def line (p : LinePlace) : List Char := p.front ++ p.back

/-- The byte offset of a place. -/
def offset (p : LinePlace) : Nat := byteSize (p.above ++ p.front)

/-- The line and the column of a place, counted from zero. -/
def position (p : LinePlace) : Position := ⟨p.above.count '\n', p.front.length⟩

/-- The number of the line of a place, counted from one. -/
def number (p : LinePlace) : List Char := digitsOf (p.above.count '\n' + 1)

/-- The number of the character at a place on its line, counted from one. -/
def column (p : LinePlace) : List Char := digitsOf (p.front.length + 1)

/-- A place is one of a text, and in front of a character of its line. -/
structure StandsIn (p : LinePlace) (text : List Char) : Prop where
  /-- Its line is a line of the text. -/
  isLine : IsLine text p.above p.line p.below
  /-- A character of the line is behind it. -/
  back_ne_nil : p.back ≠ []

end LinePlace

section

variable {p : LinePlace} {text above front before found after : List Char} {c : Char}

/-- Behind whole lines, a text without a line feed is the last line. -/
theorem lastLine_append (habove : above = [] ∨ above.getLast? = some '\n') (hfront : '\n' ∉ front) :
    lastLine (above ++ front) = front := by
  induction front using List.reverseRecOn with
  | nil =>
    rw [List.append_nil]
    rcases habove with rfl | habove
    · rfl
    · obtain ⟨lines, rfl⟩ := List.getLast?_eq_some_iff.mp habove
      rw [lastLine_concat, if_pos rfl]
  | append_singleton front c ih =>
    simp only [List.mem_append, List.mem_singleton, not_or] at hfront
    rw [← List.append_assoc, lastLine_concat, if_neg (Ne.symm hfront.2), ih hfront.1]

/-- Behind whole lines and a text without a line feed, the position is on the line of that text. -/
theorem Position.behind_append (habove : above = [] ∨ above.getLast? = some '\n')
    (hfront : '\n' ∉ front) : behind (above ++ front) = ⟨above.count '\n', front.length⟩ := by
  rw [behind, lastLine_append habove hfront, List.count_append, List.count_eq_zero.mpr hfront,
    Nat.add_zero]

namespace LinePlace

/-- A text is what is in front of a place and what is behind it. -/
theorem StandsIn.text_eq (h : p.StandsIn text) :
    text = (p.above ++ p.front) ++ (p.back ++ p.below) := by
  rw [h.isLine.text_eq, line]
  simp only [List.append_assoc]

/-- In front of a place on its line the line does not end. -/
theorem StandsIn.not_mem_front (h : p.StandsIn text) : '\n' ∉ p.front :=
  fun hc => h.isLine.unbroken (List.mem_append_left _ hc)

/-- Behind a place on its line, the line does not end. -/
theorem StandsIn.not_mem_back (h : p.StandsIn text) : '\n' ∉ p.back :=
  fun hc => h.isLine.unbroken (List.mem_append_right _ hc)

/-- A place of a text is at a boundary. -/
theorem StandsIn.isBoundary (h : p.StandsIn text) : IsBoundary text p.offset := by
  rw [h.text_eq]
  exact isBoundary_byteSize _ _

/-- The position of the offset of a place is that of the place. -/
theorem StandsIn.ofOffset (h : p.StandsIn text) :
    Position.ofOffset text p.offset = p.position := by
  rw [h.text_eq, offset, Position.ofOffset_byteSize,
    Position.behind_append h.isLine.above h.not_mem_front, position]

/-- The line of a place is the line of the text with its number. -/
theorem StandsIn.getElem?_linesOf (h : p.StandsIn text) :
    (linesOf text)[p.position.line]? = some p.line :=
  h.isLine.getElem?_linesOf (List.append_ne_nil_of_right_ne_nil _ h.back_ne_nil)

/-- A character that breaks no line stands on its line at the offset it has. -/
theorem exists_standsIn (hfeed : c ≠ '\n') (hreturn : c ≠ '\r') (before rest : List Char) :
    ∃ p : LinePlace, p.StandsIn (before ++ c :: rest) ∧ p.above ++ p.front = before ∧
      p.back ++ p.below = c :: rest := by
  obtain ⟨above, back, below, hbefore, rfl, hline⟩ := exists_isLine hfeed hreturn before rest
  exact ⟨⟨above, lastLine before, c :: back, below⟩, ⟨hline, List.cons_ne_nil _ _⟩, hbefore.symm,
    rfl⟩

end LinePlace

/-- What goes on behind a line, but not up to a carriage return alone, has a line feed in it. -/
theorem EndsLine.mem_of_append {line more after : List Char} (h : EndsLine line (more ++ after))
    (hne : more ≠ []) (hlast : more.getLast? ≠ some '\r') : '\n' ∈ more := by
  generalize hbelow : more ++ after = below at h
  obtain ⟨d, more, rfl⟩ := List.exists_cons_of_ne_nil hne
  rw [List.cons_append] at hbelow
  cases h with
  | last => cases hbelow
  | feed =>
    obtain ⟨rfl, -⟩ := List.cons.inj hbelow
    exact List.mem_cons_self
  | returnFeed =>
    obtain ⟨rfl, hmore⟩ := List.cons.inj hbelow
    cases more with
    | nil => exact absurd rfl hlast
    | cons d more =>
      obtain ⟨rfl, -⟩ := List.cons.inj hmore
      exact List.mem_cons_of_mem _ List.mem_cons_self

/-- A text behind a place, no carriage return at its end, ends on the line of the place or has the
end of that line in it. -/
theorem LinePlace.StandsIn.prefix_or_mem (h : p.StandsIn text)
    (hfound : p.back ++ p.below = found ++ after) (hlast : found.getLast? ≠ some '\r') :
    found <+: p.back ∨ p.back <+: found ∧ '\n' ∈ found := by
  rcases List.append_eq_append_iff.mp hfound with ⟨more, rfl, hbelow⟩ | ⟨more, hback, -⟩
  · by_cases hmore : more = []
    · rw [hmore, List.append_nil]
      exact Or.inl (List.prefix_refl _)
    · have hends : EndsLine p.line (more ++ after) := hbelow ▸ h.isLine.below
      rw [List.getLast?_append_of_ne_nil _ hmore] at hlast
      exact Or.inr ⟨List.prefix_append _ _,
        List.mem_append_right _ (hends.mem_of_append hmore hlast)⟩
  · rw [hback]
    exact Or.inl (List.prefix_append _ _)

/-- What a text begins with has no more bytes than the text. -/
theorem byteSize_le_of_prefix {x y : List Char} (h : x <+: y) : byteSize x ≤ byteSize y := by
  obtain ⟨more, rfl⟩ := h
  rw [byteSize_append]
  exact Nat.le_add_right _ _

/-- The characters underlined for a span: those of the span from its start at a place up to the end
of the line there. -/
structure Span.Underlines (span : Span) (p : LinePlace) (fault : List Char) : Prop where
  /-- The place is that of the start. -/
  start_eq : span.start = p.offset
  /-- There is something to underline. -/
  ne_nil : fault ≠ []
  /-- It is on the line. -/
  isPrefix : fault <+: p.back
  /-- It ends where the span or the line ends, whichever comes first. -/
  stop_eq : p.offset + byteSize fault = min span.stop (p.offset + byteSize p.back)

/-- A span that underlines something does not end before it starts. -/
theorem Span.Underlines.start_le_stop {span : Span} {fault : List Char}
    (h : span.Underlines p fault) : span.start ≤ span.stop := by
  have hstart := h.start_eq
  have hstop := h.stop_eq
  omega

/-- The carets counted for a span are as many as there are characters to underline. -/
theorem LinePlace.StandsIn.exists_underlines (h : p.StandsIn text) (hne : found ≠ [])
    (hfound : p.back ++ p.below = found ++ after) (hlast : found.getLast? ≠ some '\r') :
    ∃ fault, Span.Underlines ⟨p.offset, p.offset + byteSize found⟩ p fault ∧
      Diagnostic.caretCount (Position.ofOffset text p.offset)
        (Position.ofOffset text (p.offset + byteSize found)) p.line = fault.length := by
  have hsource : text = ((p.above ++ p.front) ++ found) ++ after := by
    rw [List.append_assoc, ← hfound, ← h.text_eq]
  have hstop : Position.ofOffset text (p.offset + byteSize found) =
      Position.behind (p.above ++ (p.front ++ found)) := by
    rw [hsource, offset, ← byteSize_append, Position.ofOffset_byteSize, List.append_assoc]
  rw [hstop, h.ofOffset, position]
  rcases h.prefix_or_mem hfound hlast with hback | ⟨hback, hfeed⟩
  · refine ⟨found, ⟨rfl, hne, hback, ?_⟩, ?_⟩
    · have hsize := byteSize_le_of_prefix hback
      dsimp only
      omega
    · have hunbroken : '\n' ∉ p.front ++ found := fun hc =>
        (List.mem_append.mp hc).elim h.not_mem_front fun hc => h.not_mem_back (hback.subset hc)
      have hpos := List.length_pos_iff.mpr hne
      rw [Position.behind_append h.isLine.above hunbroken, Diagnostic.caretCount, if_pos rfl,
        List.length_append]
      dsimp only
      omega
  · refine ⟨p.back, ⟨rfl, h.back_ne_nil, List.prefix_refl _, ?_⟩, ?_⟩
    · have hsize := byteSize_le_of_prefix hback
      dsimp only
      omega
    · have hlines : p.above.count '\n' < (p.above ++ (p.front ++ found)).count '\n' := by
        have hcount := List.count_pos_iff.mpr hfeed
        rw [List.count_append, List.count_append]
        omega
      have hpos := List.length_pos_iff.mpr h.back_ne_nil
      rw [Diagnostic.caretCount, Position.behind, if_neg (Nat.ne_of_gt hlines), line,
        List.length_append]
      dsimp only
      omega

end

/-- A row of an extract: what stands left of the bar and what stands right of it. -/
structure ExtractRow where
  /-- A number or nothing. -/
  cell : List Char
  /-- What is shown. -/
  shown : List Char

namespace ExtractRow

/-- A line of a report is a row with its bar in the column `bar`, and the cell right in front of
the blank that the bar stands behind. -/
def IsShown (r : ExtractRow) (bar : Nat) (line : List Char) : Prop :=
  ∃ indent, line = List.replicate indent ' ' ++ r.cell ++ ' ' :: '|' :: r.shown ∧
    indent + r.cell.length + 1 = bar

/-- The row whose bar stands behind a gutter of a width. -/
def text (width : Nat) (r : ExtractRow) : List Char :=
  gutterCell width r.cell ++ ' ' :: '|' :: r.shown

/-- A row that fits its margin is shown as it is. -/
theorem isShown_text {width : Nat} {r : ExtractRow} (h : r.cell.length ≤ width) :
    r.IsShown (width + 1) (r.text width) :=
  ⟨width - r.cell.length, rfl, by omega⟩

/-- Without colours, rows are put below each other as they are. -/
theorem flatMap_text (width : Nat) (rows : List ExtractRow) :
    (rows.map (text width)).flatMap (· ++ ['\n']) =
      rows.flatMap fun r => extractLine .plain width r.cell r.shown := by
  have hrow (r : ExtractRow) :
      extractLine .plain width r.cell r.shown = r.text width ++ ['\n'] := by
    simp [extractLine, text, Palette.plain]
  simp only [hrow, List.flatMap_map]

end ExtractRow

namespace LinePlace

/-- The line of a place under its number. -/
def lineRow (p : LinePlace) : ExtractRow := ⟨p.number, ' ' :: p.line⟩

/-- A mark under a place: as many spaces as there are characters in front of it, and the mark. -/
def markRow (p : LinePlace) (mark : List Char) : ExtractRow :=
  ⟨[], ' ' :: (List.replicate p.front.length ' ' ++ mark)⟩

/-- The place by file, line and column. -/
def header (p : LinePlace) (file : String) : List Char :=
  " file: ".toList ++ file.toList ++ ':' :: p.number ++ ':' :: p.column

end LinePlace

/-- The rows for a second place: its line, and a caret under its character with a label. -/
inductive RelatedRows (source : List Char) : Option RelatedPlace → List ExtractRow → Prop
  /-- No rows without a second place. -/
  | none : RelatedRows source none []
  /-- Two rows for one. -/
  | some {p : LinePlace} {label : String} (h : p.StandsIn source) :
    RelatedRows source (some ⟨p.offset, some label⟩)
      [p.lineRow, p.markRow ('^' :: ' ' :: label.toList)]

/-- Lines stand in a text, one below the other, each behind a line feed and in front of one. -/
def ShowsLines (text : List Char) (lines : List (List Char)) : Prop :=
  '\n' :: lines.flatMap (· ++ ['\n']) <:+: text

namespace Diagnostic

/-- The rows of the line at fault, and below them those of the second place. -/
def faultRows (p : LinePlace) (fault : List Char) (related : List ExtractRow) : List ExtractRow :=
  ⟨[], []⟩ :: p.lineRow :: p.markRow (List.replicate fault.length '^') :: related

/-- A report in a text underlines exactly the text it is about. -/
def Underlines (d : Diagnostic) (source : List Char) (file : String) (text : List Char) : Prop :=
  ∃ p fault related bar rows,
    p.StandsIn source ∧ d.span.Underlines p fault ∧ RelatedRows source d.related related ∧
      List.Forall₂ (fun row line => row.IsShown bar line) (faultRows p fault related) rows ∧
      ShowsLines text (p.header file :: ("error: ".toList ++ d.message.toList) :: rows)

variable {d : Diagnostic} {p : LinePlace} {source fault : List Char} {stop : Position}
  {width : Nat} {related : List ExtractRow}

/-- Without colours the header is one line of the report. -/
theorem renderHeader_plain (p : LinePlace) (file : String) :
    renderHeader .plain file p.position = p.header file ++ ['\n'] := by
  have hname : " file: ".toList = [' '] ++ "file:".toList ++ [' '] := by decide
  have hshown : " file: ".toList ++ file.toList ++ ':' :: p.number ++ ':' :: p.column ++ ['\n'] =
      renderHeader .plain file p.position := by
    rw [hname, renderHeader]
    simp only [Palette.plain, List.append_nil]
    rfl
  exact hshown.symm

/-- Without colours the message is one line of the report. -/
theorem renderMessage_plain (message : String) :
    renderMessage .plain message = ("error: ".toList ++ message.toList) ++ ['\n'] := by
  rw [renderMessage, Palette.plain_prose]
  simp [Palette.plain]

/-- Without colours the marked line is three rows of the report, with as many carets as there are
characters at fault. -/
theorem renderExtract_plain (hcount : caretCount p.position stop p.line = fault.length) :
    renderExtract .plain width p.position stop p.line =
      ((faultRows p fault []).map (ExtractRow.text width)).flatMap (· ++ ['\n']) := by
  rw [renderExtract, hcount, ExtractRow.flatMap_text]
  simp [faultRows, LinePlace.lineRow, LinePlace.markRow, LinePlace.number, LinePlace.position,
    Palette.plain]

/-- Without colours the related line is two rows of the report. -/
theorem renderRelated_plain (p : LinePlace) (width : Nat) (label : List Char) :
    renderRelated .plain width p.position label p.line =
      ([p.lineRow, p.markRow ('^' :: ' ' :: label)].map (ExtractRow.text width)).flatMap
        (· ++ ['\n']) := by
  rw [renderRelated, ExtractRow.flatMap_text]
  simp [LinePlace.lineRow, LinePlace.markRow, LinePlace.number, LinePlace.position, Palette.plain]

/-- A report about a place on its line shows where the place is, what is wrong, the rows of the line
and those of the second place. -/
theorem exists_renderWith_plain (file : String) (hp : p.StandsIn source)
    (hspan : d.span.Underlines p fault)
    (hcount : caretCount (Position.ofOffset source d.span.start)
      (Position.ofOffset source d.span.stop) p.line = fault.length)
    (hrelated : RelatedRows source d.related related) :
    ∃ advice, d.renderWith .plain source file =
      '\n' :: (p.header file :: ("error: ".toList ++ d.message.toList) ::
        (faultRows p fault related).map (ExtractRow.text (gutterWidth p.position))).flatMap
          (· ++ ['\n']) ++ advice := by
  have hstop : max d.span.stop d.span.start = d.span.stop := Nat.max_eq_left hspan.start_le_stop
  have hplace : Position.ofOffset source d.span.start = p.position := by
    rw [hspan.start_eq, hp.ofOffset]
  have hrows : '\n' :: (p.header file :: ("error: ".toList ++ d.message.toList) ::
      (faultRows p fault related).map (ExtractRow.text (gutterWidth p.position))).flatMap
        (· ++ ['\n']) =
      '\n' :: renderHeader .plain file p.position ++ renderMessage .plain d.message ++
        renderExtract .plain (gutterWidth p.position) p.position
          (Position.ofOffset source d.span.stop) p.line ++
        (related.map (ExtractRow.text (gutterWidth p.position))).flatMap (· ++ ['\n']) := by
    rw [hplace] at hcount
    rw [renderHeader_plain, renderMessage_plain, renderExtract_plain hcount]
    simp [faultRows]
  rw [hrows, renderWith]
  simp only [hstop, hplace]
  rw [hp.getElem?_linesOf]
  cases hsecond : d.related with
  | none =>
    rw [hsecond] at hrelated
    cases hrelated
    exact ⟨_, List.append_assoc _ _ _⟩
  | some r =>
    rw [hsecond] at hrelated
    cases hrelated with
    | @some q label hq =>
      simp only [hq.ofOffset]
      rw [hq.getElem?_linesOf]
      simp only [Option.getD_some, renderRelated_plain]
      exact ⟨_, List.append_assoc _ _ _⟩

end Diagnostic

section

variable {source text : List Char} {limit : Nat} {e : TemplateError} {c : Cursor}
  {tags : List OpenTag} {p q : LinePlace} {fault : List Char} {related : List ExtractRow}

/-- What trouble is reported at breaks no line. -/
theorem DiagnosticKind.Opens.exists_cons {kind : DiagnosticKind} (h : kind.Opens text) :
    ∃ c tail, text = c :: tail ∧ c ≠ '\n' ∧ c ≠ '\r' := by
  have hless {text : List Char} (h : ∃ tail, text = '<' :: tail) :
      ∃ c tail, text = c :: tail ∧ c ≠ '\n' ∧ c ≠ '\r' := by
    obtain ⟨tail, rfl⟩ := h
    exact ⟨'<', tail, rfl, by decide, by decide⟩
  cases kind with
  | mismatchedCloseTag | unexpectedCloseTag =>
    obtain ⟨c, tail, rfl, -⟩ := h
    exact hless ⟨_, rfl⟩
  | unterminatedComment =>
    obtain ⟨tail, rfl⟩ := h
    exact hless ⟨_, rfl⟩
  | unclosedElement | unterminatedTag | unterminatedRawText | nestingTooDeep => exact hless h
  | unterminatedQuote =>
    obtain ⟨quote, tail, rfl, hquote⟩ := h
    refine ⟨quote, tail, rfl, ?_, ?_⟩ <;> rintro rfl <;> exact absurd hquote (by decide)
  | unterminatedProgram =>
    obtain ⟨tail, rfl⟩ := h
    exact ⟨'{', tail, rfl, by decide, by decide⟩

/-- A second place always has a label. -/
theorem TemplateFault.exists_label {fault : TemplateFault} {r : RelatedPlace}
    (h : fault.related = some r) : ∃ offset label, r = ⟨offset, some label⟩ := by
  cases fault with
  | mismatchedCloseTag openName closeName openedAt => exact ⟨_, _, (Option.some.inj h).symm⟩
  | _ => cases h

/-- A place in front of another one is on the same line or above it. -/
theorem LinePlace.StandsIn.line_le (hq : q.StandsIn source) (hp : p.StandsIn source)
    (hlt : q.offset < p.offset) : q.position.line ≤ p.position.line := by
  have h := Position.precedes_of_lt hq.isBoundary hp.isBoundary hlt
  rw [hq.ofOffset, hp.ofOffset] at h
  exact h.elim Nat.le_of_lt fun h => Nat.le_of_eq h.1

/-- The second place of a refused template is shown by its line and a caret, in a gutter that is
wide enough for the line of the error. -/
theorem FailsAt.exists_relatedRows (h : FailsAt limit tags c e)
    (hopen : LeavesOpen limit source tags c) (hp : p.StandsIn source)
    (hstart : e.span.start = p.offset) :
    ∃ related, RelatedRows source e.diagnostic.related related ∧
      ∀ r ∈ related, r.cell.length ≤ Diagnostic.gutterWidth p.position := by
  cases hr : e.fault.related with
  | none =>
    have hnone : e.diagnostic.related = none := hr
    rw [hnone]
    exact ⟨[], .none, fun r hr => absurd hr List.not_mem_nil⟩
  | some r =>
    have hsome : e.diagnostic.related = some r := hr
    obtain ⟨hlt, before, inner, text, closing, tag, hsource, hoffset, -⟩ :=
      h.related_opensBefore hopen hr
    obtain ⟨offset, label, rfl⟩ := TemplateFault.exists_label hr
    obtain ⟨q, hq, hbefore, -⟩ := LinePlace.exists_standsIn (c := '<') (by decide) (by decide)
      before (inner ++ ['>'] ++ text ++ '<' :: '/' :: closing)
    have hq : q.StandsIn source := by
      rw [hsource]
      exact hq
    obtain rfl : offset = q.offset := by
      rw [LinePlace.offset, hbefore]
      exact hoffset
    have hnumber : q.number.length ≤ p.number.length :=
      length_digitsOf_le (Nat.succ_le_succ (hq.line_le hp (hstart ▸ hlt)))
    rw [hsome]
    refine ⟨_, .some hq, ?_⟩
    simp only [List.forall_mem_cons, LinePlace.lineRow, LinePlace.markRow]
    exact ⟨hnumber.trans (Nat.le_max_left _ _), Nat.zero_le _,
      fun r hr => absurd hr List.not_mem_nil⟩

/-- The report of a refused template underlines exactly the text of the error. -/
theorem Document.underlines_of_ofText_error (h : Document.ofText source limit = .error e)
    (file : String) :
    e.diagnostic.Underlines source file
      (e.diagnostic.render (String.ofList source) file).toList := by
  obtain ⟨tags, c, hopen, hfails⟩ := Document.ofText_eq_error_iff_failsAt.mp h
  obtain ⟨before, found, after, hsource, hne, hlast, hspan, hopens⟩ := hfails.marksIn hopen
  obtain ⟨first, tail, hfront, hfeed, hreturn⟩ := hopens.exists_cons
  obtain ⟨p, hp, hbefore, hbehind⟩ := LinePlace.exists_standsIn hfeed hreturn before tail
  rw [← hfront, ← hsource] at hp
  rw [Nat.zero_add, Nat.zero_add, byteSize_append, ← hbefore, ← LinePlace.offset] at hspan
  obtain ⟨fault, hfault, hcount⟩ := hp.exists_underlines hne (hbehind.trans hfront.symm) hlast
  obtain ⟨related, hrelated, hcells⟩ :=
    hfails.exists_relatedRows hopen hp (congrArg Span.start hspan)
  have hspan' : e.diagnostic.span = ⟨p.offset, p.offset + byteSize found⟩ := hspan
  rw [← hspan'] at hfault
  obtain ⟨advice, hrender⟩ := Diagnostic.exists_renderWith_plain file hp hfault
    (by rw [hspan']; exact hcount) hrelated
  have hcells : ∀ r ∈ Diagnostic.faultRows p fault related,
      r.cell.length ≤ Diagnostic.gutterWidth p.position := by
    intro r hr
    simp only [Diagnostic.faultRows, List.mem_cons] at hr
    rcases hr with rfl | rfl | rfl | hr
    · exact Nat.zero_le _
    · exact Nat.le_max_left _ _
    · exact Nat.zero_le _
    · exact hcells r hr
  refine ⟨p, fault, related, Diagnostic.gutterWidth p.position + 1,
    (Diagnostic.faultRows p fault related).map
      (ExtractRow.text (Diagnostic.gutterWidth p.position)), hp, hfault, hrelated, ?_, ?_⟩
  · rw [List.forall₂_map_right_iff, List.forall₂_same]
    exact fun r hr => ExtractRow.isShown_text (hcells r hr)
  · rw [Diagnostic.render, String.toList_ofList, String.toList_ofList, hrender]
    exact ⟨[], advice, rfl⟩

end

private def brokenCloseTag : List Char := "<p>\r\né</b\r\n>".toList

/-- A close tag that ends on the line below is underlined up to the end of its own line. -/
theorem Document.underlines_brokenCloseTag :
    ∃ e, Document.ofText brokenCloseTag 1 = .error e ∧
      e = ⟨.mismatchedCloseTag "p" "b" 0, ⟨7, 13⟩⟩ ∧
      e.diagnostic.Underlines brokenCloseTag "a.tml"
        (e.diagnostic.render (String.ofList brokenCloseTag) "a.tml").toList := by
  have h : Document.ofText brokenCloseTag 1 =
      .error ⟨.mismatchedCloseTag "p" "b" 0, ⟨7, 13⟩⟩ :=
    Document.ofText_eq_error_of_decide (by decide +kernel)
  exact ⟨_, h, rfl, Document.underlines_of_ofText_error h "a.tml"⟩

end TemplateReader
