import TemplateReader.Proofs.Markup.RoundTrip
import TemplateReader.Proofs.Template.History
import TemplateReader.Proofs.Template.Unterminated

/-!
# Text behind a template that is refused

The pieces of a text are read as before when more text is put behind it, except
that plain text at its end may go on. So a tag that is refused for where it stands
is refused whatever follows. What is refused for want of a closing is another
matter: with the close tag, or the closing of the comment, put behind the text, the
innermost element that is still open is the only thing that can be missing.
-/

namespace TemplateReader

/-- The cursor with more text behind it. -/
def Cursor.extend (c : Cursor) (text : List Char) : Cursor := ⟨c.offset, c.rest ++ text⟩

section

variable {limit : Nat} {source text : List Char} {tags outer : List OpenTag} {tag : OpenTag}
  {c d : Cursor} {p : Piece} {e : TemplateError}

/-- A construct is read as the same piece when text is put behind the source. -/
theorem Construct.readPiece_extend {x : List Char} (h : Construct c.offset x p)
    (hx : c.Passes x d) (text : List Char) :
    readPiece (c.extend text) = .ok (p, d.extend text) := by
  have hread := (h.read (d.rest ++ text)).2
  rwa [← List.append_assoc, ← hx.rest, ← hx.offset] at hread

/-- A tag is read whatever is put behind the text. -/
theorem readPiece_extend_tag (h : readPiece c = .ok (p, d)) (hp : ∀ t, p ≠ .node t)
    (text : List Char) : readPiece (c.extend text) = .ok (p, d.extend text) := by
  obtain ⟨x, hx, hconstruct⟩ := construct_of_readPiece_tag h hp
  exact hconstruct.readPiece_extend hx text

/-- A piece is read as before when plain text at the end stops where more text is put behind it. -/
theorem readPiece_extend (hc : c.rest ≠ []) (h : readPiece c = .ok (p, d))
    (htext : d.rest = [] → Stops text) : readPiece (c.extend text) = .ok (p, d.extend text) := by
  cases ho : opening? c.rest with
  | none =>
    obtain ⟨x, hx, hoffset, hplain, hstops, rfl⟩ := isPlain_of_readPiece hc ho h
    have hread := readPiece_of_isPlain (k := c.offset) hplain (hstops.append htext)
    rwa [← List.append_assoc, ← hx, ← hoffset] at hread
  | some o =>
    obtain ⟨x, hrest, hoffset, hconstruct⟩ := construct_of_readPiece (by rw [ho]; rfl) h
    exact hconstruct.readPiece_extend ⟨hrest, hoffset⟩ text

/-- A history leaves the same elements open when more text is put behind the source. -/
theorem LeavesOpen.extend (h : LeavesOpen limit source tags c) (text : List Char)
    (htext : c.rest = [] → Stops text) :
    LeavesOpen limit (source ++ text) tags (c.extend text) := by
  have extended {c : Cursor} (hc : c.rest ≠ []) : c.rest = [] → Stops text :=
    fun hnil => absurd hnil hc
  induction h with
  | start => exact .start
  | node _ hc hread ih =>
    refine .node (ih (extended hc)) ?_ (readPiece_extend hc hread htext)
    exact List.append_ne_nil_of_left_ne_nil hc text
  | openTag _ hread hdepth ih =>
    have hc := rest_ne_nil_of_readPiece_tag hread (openTag_ne_node _)
    have hread' := readPiece_extend_tag hread (openTag_ne_node _) text
    exact .openTag (ih (extended hc)) hread' hdepth
  | closeTag _ hread hname ih =>
    have hc := rest_ne_nil_of_readPiece_tag hread (closeTag_ne_node _ _)
    have hread' := readPiece_extend_tag hread (closeTag_ne_node _ _) text
    exact .closeTag (ih (extended hc)) hread' hname

/-- The kinds of trouble that a tag makes by where it stands. -/
def DiagnosticKind.IsStructural (kind : DiagnosticKind) : Prop :=
  kind = .mismatchedCloseTag ∨ kind = .unexpectedCloseTag ∨ kind = .nestingTooDeep

/-- A construct without an end is no error in the structure. -/
theorem Unterminated.not_isStructural (h : Unterminated c e) : ¬e.fault.kind.IsStructural := by
  cases h with
  | comment | tag | rawText => rintro (h | h | h) <;> cases h
  | delimiter h =>
    obtain ⟨before, ch, after, -, hopen⟩ := h
    cases hopen <;> rintro (h | h | h) <;> cases h

/-- What is wrong with where a tag stands is wrong whatever is put behind the text. -/
theorem FailsAt.extend (h : FailsAt limit tags c e) (hkind : e.fault.kind.IsStructural)
    (text : List Char) : c.rest ≠ [] ∧ FailsAt limit tags (c.extend text) e := by
  cases h with
  | piece hread => exact absurd hkind (unterminated_of_readPiece hread).not_isStructural
  | unclosed => rcases hkind with h | h | h <;> cases h
  | tooDeep hread hdepth =>
    exact ⟨rest_ne_nil_of_readPiece_tag hread (openTag_ne_node _),
      .tooDeep (readPiece_extend_tag hread (openTag_ne_node _) text) hdepth⟩
  | unexpected hread =>
    exact ⟨rest_ne_nil_of_readPiece_tag hread (closeTag_ne_node _ _),
      .unexpected (readPiece_extend_tag hread (closeTag_ne_node _ _) text)⟩
  | mismatched hread hname =>
    exact ⟨rest_ne_nil_of_readPiece_tag hread (closeTag_ne_node _ _),
      .mismatched (readPiece_extend_tag hread (closeTag_ne_node _ _) text) hname⟩

/-- A template that is refused for where a tag stands is refused with the same error whatever text
is put behind it. -/
theorem Document.ofText_append_of_isStructural (h : Document.ofText source limit = .error e)
    (hkind : e.diagnostic.kind.IsStructural) (text : List Char) :
    Document.ofText (source ++ text) limit = .error e := by
  obtain ⟨tags, c, hopen, hfails⟩ := Document.ofText_eq_error_iff_failsAt.mp h
  obtain ⟨hc, hfails'⟩ := hfails.extend hkind text
  exact Document.ofText_eq_error_iff_failsAt.mpr
    ⟨tags, _, hopen.extend text fun hnil => absurd hnil hc, hfails'⟩

/-- Elements that nest too deep are refused with the same error whatever is put behind them. -/
theorem Document.ofText_append_of_isStructural_deep :
    ∃ e, Document.ofText "<ul>é<li a={b}><i>".toList 2 = .error e ∧
      e.diagnostic.kind.IsStructural ∧
      Document.ofText ("<ul>é<li a={b}><i>".toList ++ "'<!--</i >\x7b".toList) 2 = .error e := by
  have h : Document.ofText "<ul>é<li a={b}><i>".toList 2 =
      .error ⟨.nestingTooDeep 2, ⟨16, 19⟩⟩ :=
    Document.ofText_eq_error_of_decide (by decide +kernel)
  have hkind : (⟨.nestingTooDeep 2, ⟨16, 19⟩⟩ : TemplateError).diagnostic.kind.IsStructural :=
    Or.inr (Or.inr rfl)
  exact ⟨_, h, hkind, Document.ofText_append_of_isStructural h hkind _⟩

end

end TemplateReader
