import TemplateReader.Bytes.Tag
import TemplateReader.Proofs.Bytes.Delimiter
import TemplateReader.Proofs.Template.Construct

/-!
# Tags by bytes and by characters

The end of a tag, what keeps it from ending, its name and its attributes are
the same by bytes and by characters. The searches inside a tag run on in the
whole text, and what they find past the end of the tag is discarded; a reader
that sees the inside of the tag only finds nothing there in the first place.
-/

namespace TemplateReader.Bytes

@[simp] theorem ofReading_ok {α : Type} (a : α) : Run.ofReading (.ok a) = .ok a := rfl

section

variable {s tail text rest : List Char} {c : Cursor}

/-- The tag name at a place is the name at the front of the text there. -/
theorem tagNameAt_place (h : text <:+ s) : tagNameAt s (place s text) = .ok (tagName text) := by
  rw [tagNameAt, runEnd_place_end isNarrow_isTagNameChar.isEven h, ok_bind, sliceAt_takeWhile_end h]
  rfl

/-- The error of a fault in a tag, if it is that of a quote or a brace, when the search for it set
out at an offset. -/
private def faultError (start : Nat) : TagFault → Option TemplateError
  | .openQuote before =>
    some ⟨.unterminatedQuote, ⟨start + byteSize before, start + byteSize before + 1⟩⟩
  | .openBrace before => some (openProgramError (start + byteSize before))
  | .noEnd => none

private theorem faultError_after (start : Nat) (passed : List Char) (fault : TagFault) :
    faultError start (fault.after passed) = faultError (start + byteSize passed) fault := by
  cases fault with
  | openQuote before => simp only [faultError, TagFault.after, byteSize_append, Nat.add_assoc]
  | openBrace before => simp only [faultError, TagFault.after, byteSize_append, Nat.add_assoc]
  | noEnd => rfl

/-- A turn of the search for the fault of a tag goes by the byte at its offset, and leaps over
quoted runs and runs in braces. -/
theorem faultTurn_of_byteAt {i : Nat} {b : Char} (hb : byteAt s i = .ok b) :
    faultTurn s i () =
      if isTagQuote b then
        findQuote s i >>= fun
          | none => .ok (.done (some ⟨.unterminatedQuote, ⟨i, i + 1⟩⟩))
          | some j => .ok (.next j ())
      else if b = '{' then
        findProgram s i >>= fun
          | none => .ok (.done (some (openProgramError i)))
          | some j => .ok (.next j ())
      else .ok (.next (i + 1) ()) := by
  rw [faultTurn, if_pos (lt_of_byteAt hb), hb]
  rfl

private theorem faultLoop_place {fault : TagFault} (h : text <:+ s)
    (hs : splitTag text = .error fault) :
    loop (byteSize s) (faultTurn s) (place s text) () = .ok (faultError (place s text) fault) := by
  fun_induction splitTag text generalizing fault with
  | case1 =>
    cases hs
    apply loop_done
    rw [faultTurn, place_nil, if_neg (Nat.lt_irrefl _)]
    rfl
  | case2 c text hc hq =>
    cases hs
    apply loop_done
    rw [faultTurn_of_byteAt (byteAt_place h (not_isWide_of_isTagQuote hc)), if_pos hc,
      findQuote_place (isScriptQuote_of_isTagQuote hc) h, hq]
    rfl
  | case3 c text hc quoted rest hq hlt ih =>
    obtain ⟨f, hf, rfl⟩ := passing_eq_error hs
    obtain ⟨hrest, hplace⟩ := quoted_place h hq
    have hturn : faultTurn s (place s (c :: text)) () = .ok (.next (place s rest) ()) := by
      rw [faultTurn_of_byteAt (byteAt_place h (not_isWide_of_isTagQuote hc)), if_pos hc,
        findQuote_place (isScriptQuote_of_isTagQuote hc) h, hq]
      rfl
    have hbehind := place_append (quoted_append hq ▸ h)
    rw [loop_next hturn hplace (place_lt_of_cons h), ih hrest hf, faultError_after, hbehind,
      ← quoted_append hq]
  | case4 text hq hb =>
    cases hs
    apply loop_done
    rw [faultTurn_of_byteAt (byteAt_place h (by decide)), if_neg hb, if_pos rfl,
      findProgram_place h, hq]
    rfl
  | case5 text braced rest hb hlt hq ih =>
    obtain ⟨f, hf, rfl⟩ := passing_eq_error hs
    obtain ⟨hrest, hplace⟩ := braced_place h hb
    have hturn : faultTurn s (place s ('{' :: text)) () = .ok (.next (place s rest) ()) := by
      rw [faultTurn_of_byteAt (byteAt_place h (by decide)), if_neg hq, if_pos rfl,
        findProgram_place h, hb]
      rfl
    have hbehind := place_append (braced_append hb ▸ h)
    rw [loop_next hturn hplace (place_lt_of_cons h), ih hrest hf, faultError_after, hbehind,
      ← braced_append hb]
  | case6 text hq hb => cases hs
  | case7 c text hq hb hg ih =>
    obtain ⟨f, hf, rfl⟩ := passing_eq_error hs
    rw [faultError_after, byteSize_cons, byteSize_nil, Nat.add_zero, ← place_cons h]
    refine Eq.trans ?_ (ih (suffix_of_cons h) hf)
    apply loop_char h
    · intro hascii
      rw [faultTurn_of_byteAt (byteAt_place h hascii), if_neg hq, if_neg hb]
    · intro _ i b hbyte hwide _
      rw [faultTurn_of_byteAt hbyte, isNarrow_isTagQuote b hwide, if_neg Bool.false_ne_true,
        if_neg (hwide.ne (by decide))]

/-- The error of a tag without an end is the same by bytes. -/
theorem unterminatedTag_place {fault : TagFault} (h : '<' :: text <:+ s)
    (hs : splitTag text = .error fault) :
    unterminatedTag s (place s ('<' :: text)) =
      .ok (openTagError (place s ('<' :: text)) text fault) := by
  have htext := suffix_of_cons h
  have hnext := place_cons_of_not_isWide h (by decide)
  rw [unterminatedTag, hnext, faultLoop_place htext hs]
  cases fault with
  | openQuote before =>
    rw [openTagError, hnext]
    rfl
  | openBrace before =>
    rw [openTagError, hnext]
    rfl
  | noEnd =>
    simp only [faultError, ok_bind, byte?_eq_some_place_iff (show ¬IsWide '/' by decide) htext]
    by_cases hslash : text.head? = some '/'
    · obtain ⟨more, rfl⟩ := List.head?_eq_some_iff.mp hslash
      have hmore := place_cons_of_not_isWide htext (by decide)
      have hname : place s ('<' :: '/' :: more) + 2 = place s more := by omega
      rw [if_pos hslash, hname, tagNameAt_place (suffix_of_cons htext), ok_bind, ← hname]
      rfl
    · rw [if_neg hslash, tagNameAt_place htext, ok_bind, openTagError]
      · rw [Nat.add_zero, hnext]
        rfl
      · intro more htext
        exact hslash (htext ▸ rfl)

/-- Behind a tag, the cursor stands where the search for its end stops. -/
theorem Stands.of_readTag {inner : List Char} {d : Cursor} (h : Stands s tail c)
    (hc : c.rest = '<' :: text) (hr : readTag c text = .ok (inner, d)) :
    Stands s tail d ∧ c.rest = tagText inner ++ d.rest := by
  obtain ⟨htext, -, hd⟩ := fills_of_readTag hr
  have hrest : c.rest = tagText inner ++ d.rest := by
    rw [hc, htext]
    simp only [tagText, List.cons_append, List.append_assoc, List.nil_append]
  refine ⟨?_, hrest⟩
  rw [hd]
  exact h.advance hrest

/-- The end of a tag, or the error of a tag without one. -/
theorem Stands.tagEnd_eq (h : Stands s [] c) (hc : c.rest = '<' :: text) :
    tagEnd s c.offset = .ofReading ((readTag c text).map fun r => r.2.offset) := by
  have hsuffix := h.suffix
  have hoffset := h.offset
  rw [hc, List.append_nil] at hsuffix hoffset
  rw [tagEnd, hoffset, findMarkup_place hsuffix, ok_bind]
  cases hs : splitTag text with
  | error fault =>
    have hread : readTag c text = .error (openTagError c.offset text fault) := by
      rw [readTag, hs]
    rw [hread, unterminatedTag_place hsuffix hs, hoffset]
    rfl
  | ok r =>
    obtain ⟨inner, rest⟩ := r
    have hread : readTag c text =
        .ok (inner, c.advance ('<' :: inner ++ ['>']) rest) := by
      rw [readTag, hs]
    have hd := (h.of_readTag hc hread).1.offset
    rw [hread]
    change _ = Except.ok (c.advance ('<' :: inner ++ ['>']) rest).offset
    rw [hd, List.append_nil]
    rfl

end

end TemplateReader.Bytes
