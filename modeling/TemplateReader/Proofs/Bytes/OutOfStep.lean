import TemplateReader.Proofs.Bytes.Tree
import TemplateReader.Proofs.Template.OutOfStep

/-!
# Tags whose end is found and whose attributes are not read

Where the search over the bytes finds the end of a tag, every quote and every
brace that it met is closed. The reader of the attributes then finds them, or
refuses the tag at a quote or a brace of its own; and it refuses only tags that
it reads out of step with the search.
-/

namespace TemplateReader.Bytes

section

variable {s : List Char} {start stop : Nat}

/-- A tag whose end is found stands at the place where the search set out. -/
theorem exists_readTag_of_findMarkup (h : findMarkup s start = .ok (some stop)) :
    ∃ text inner d, Stands s [] ⟨start, '<' :: text⟩ ∧
      readTag ⟨start, '<' :: text⟩ text = .ok (inner, d) ∧ d.offset = stop := by
  have hbyte : byte? s start = some '<' := by
    unfold findMarkup at h
    split at h
    · next hbyte => exact hbyte
    · cases h
  obtain ⟨text, htext, rfl⟩ := exists_place_of_byte? (by decide) hbyte
  have hstands := stands_place htext
  rw [findMarkup_place htext] at h
  cases hs : splitTag text with
  | error fault =>
    rw [hs] at h
    cases h
  | ok r =>
    obtain ⟨inner, rest⟩ := r
    have hread : readTag ⟨place s ('<' :: text), '<' :: text⟩ text =
        .ok (inner, (⟨place s ('<' :: text), '<' :: text⟩ : Cursor).advance
          (tagText inner) rest) := by
      rw [readTag, hs]
      rfl
    obtain ⟨hd, -⟩ := hstands.of_readTag rfl hread
    rw [hs] at h
    refine ⟨text, inner, _, hstands, hread, ?_⟩
    exact hd.whole.2.trans (Option.some.inj (Except.ok.inj h))

/-- Where the end of a tag is found, its attributes are read, or one of its quotes or braces is
reported as open and the tag is read out of step with the search for its end. -/
theorem attributes_of_findMarkup (h : findMarkup s start = .ok (some stop)) :
    ∃ inner, slice? s start stop = some (tagText inner) ∧
      tagNameAt s (start + 1) = .ok (tagName inner) ∧
      ((∃ r, attributes s (start + 1 + byteSize (tagName inner)) (stop - 1) = .ok r) ∨
        ∃ e, attributes s (start + 1 + byteSize (tagName inner)) (stop - 1) = .refuse e ∧
          (e.fault.kind = .unterminatedQuote ∨ e.fault.kind = .unterminatedProgram) ∧
          IsDelimiterError (start + 1 + byteSize (tagName inner))
            (inner.dropWhile isTagNameChar) e ∧
          OutOfStep (inner.dropWhile isTagNameChar)) := by
  obtain ⟨text, inner, d, hstands, hread, rfl⟩ := exists_readTag_of_findMarkup h
  obtain ⟨rfl, hfills, -⟩ := fills_of_readTag hread
  obtain ⟨hd, -⟩ := hstands.of_readTag rfl hread
  have hattributes := hstands.attributes_of_readTag rfl hread
  obtain ⟨hsuffix, hstart⟩ : '<' :: (inner ++ '>' :: d.rest) <:+ s ∧
      start = place s ('<' :: (inner ++ '>' :: d.rest)) := hstands.whole
  have htext := tagText_append inner d.rest
  have hlt : start < d.offset := by
    rw [hstart, hd.whole.2, ← htext]
    exact place_lt_of_append (htext ▸ hsuffix) (tagText_ne_nil inner)
  rw [minus_eq (Nat.succ_le_of_lt (Nat.zero_lt_of_lt hlt)), ok_bind] at hattributes
  refine ⟨inner, ?_, ?_, ?_⟩
  · rw [hstart, hd.whole.2, ← htext]
    exact slice?_place (htext ▸ hsuffix)
  · rw [hstart, place_cons_of_not_isWide hsuffix (by decide), ← tagName_append_gt inner d.rest]
    exact tagNameAt_place (suffix_of_cons hsuffix)
  · have htag : FillsTag (inner.dropWhile isTagNameChar) := by
      have hname : FillsTag (inner.takeWhile isTagNameChar) :=
        fillsTag_of_isTagNameChar (List.all_eq_true.mp List.all_takeWhile)
      apply hname.of_append
      rwa [List.takeWhile_append_dropWhile]
    have hoffset : start + byteSize ('<' :: tagName inner) =
        start + 1 + byteSize (tagName inner) := (Nat.add_assoc _ _ _).symm
    rw [Cursor.advance, hoffset] at hattributes
    rw [hattributes]
    have hread := @FillsTag.exists_readAttributes
      ⟨start + 1 + byteSize (tagName inner), inner.dropWhile isTagNameChar⟩ htag
    cases hr : readAttributes
        ⟨start + 1 + byteSize (tagName inner), inner.dropWhile isTagNameChar⟩ with
    | ok r => exact Or.inl ⟨_, rfl⟩
    | error e =>
      rw [hr] at hread
      obtain ⟨r, hok⟩ | hout := hread
      · cases hok
      · have he := isDelimiterError_of_readAttributes hr
        exact Or.inr ⟨e, rfl, he.kind, he, hout⟩

end

/-- A tag with a quote inside an unquoted value, whose run reaches over the next quote. -/
private def outOfStepTag : List Char := "<t a=b\"c x='d\" y>".toList

private theorem runs_outOfStepTag :
    findMarkup outOfStepTag 0 = .ok (some 17) ∧ tagNameAt outOfStepTag 1 = .ok ['t'] ∧
      (attributes outOfStepTag 2 16).map (fun _ => ()) =
        (.refuse ⟨.overlongQuote, ⟨11, 12⟩⟩ : Run Unit) := by
  decide +kernel

private theorem findMarkup_outOfStepTag : findMarkup outOfStepTag 0 = .ok (some 17) :=
  runs_outOfStepTag.1

private theorem tagNameAt_outOfStepTag : tagNameAt outOfStepTag 1 = .ok ['t'] :=
  runs_outOfStepTag.2.1

private theorem attributes_outOfStepTag :
    attributes outOfStepTag 2 16 = .refuse ⟨.overlongQuote, ⟨11, 12⟩⟩ := by
  have hread := runs_outOfStepTag.2.2
  cases hrun : attributes outOfStepTag 2 16 with
  | ok r =>
    rw [hrun] at hread
    cases hread
  | error halt =>
    rw [hrun] at hread
    exact congrArg Except.error (Except.error.inj hread)

/-- In this tag the quote of the first value ends inside the second one, so the tag is out of step
and its attributes are refused. -/
theorem attributes_of_findMarkup_outOfStep :
    findMarkup outOfStepTag 0 = .ok (some 17) ∧
      attributes outOfStepTag 2 16 = .refuse ⟨.overlongQuote, ⟨11, 12⟩⟩ ∧
      OutOfStep " a=b\"c x='d\" y".toList := by
  refine ⟨findMarkup_outOfStepTag, attributes_outOfStepTag, ?_⟩
  obtain ⟨inner, hslice, -, hread⟩ := attributes_of_findMarkup findMarkup_outOfStepTag
  obtain rfl : inner = "t a=b\"c x='d\" y".toList := by
    have hinner : some (tagText inner) = some (tagText "t a=b\"c x='d\" y".toList) :=
      hslice.symm.trans (by decide +kernel)
    have htext := Option.some.inj hinner
    exact List.append_cancel_right (List.cons.inj htext).2
  obtain ⟨r, hr⟩ | ⟨e, -, -, -, hout⟩ := hread
  · cases hr.symm.trans attributes_outOfStepTag
  · exact hout

/-- Not every tag whose end is found has attributes that are read. -/
theorem not_attributes_of_findMarkup :
    ¬∀ (s : List Char) (start stop : Nat), (byte? s (start + 1)).any Char.isAlpha = true →
      findMarkup s start = .ok (some stop) →
      ∃ name r, tagNameAt s (start + 1) = .ok name ∧
        attributes s (start + 1 + byteSize name) (stop - 1) = .ok r := by
  intro h
  obtain ⟨name, r, hname, hr⟩ := h outOfStepTag 0 17 (by decide +kernel) findMarkup_outOfStepTag
  obtain rfl := Except.ok.inj (hname.symm.trans tagNameAt_outOfStepTag)
  cases hr.symm.trans attributes_outOfStepTag

end TemplateReader.Bytes
