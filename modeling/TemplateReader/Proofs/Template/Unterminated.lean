import TemplateReader.Proofs.Template.Attributes
import TemplateReader.Proofs.Template.Nesting

/-!
# Constructs without an end

No piece is read at a cursor for one reason only: the construct that begins
there has no end in the text that remains. `Unterminated c e` says which
delimiter is open and what error tells so. A quote or a brace inside a tag is
reported at its own place, everything else at the beginning of the construct.
-/

namespace TemplateReader

/-- The error of a quote or a brace at an offset that is not closed where it should be. -/
inductive OpenDelimiter (offset : Nat) : Char → TemplateError → Prop
  | quote {ch : Char} (hch : isTagQuote ch = true) :
    OpenDelimiter offset ch ⟨.unterminatedQuote, ⟨offset, offset + 1⟩⟩
  | overlong {ch : Char} (hch : isTagQuote ch = true) :
    OpenDelimiter offset ch ⟨.overlongQuote, ⟨offset, offset + 1⟩⟩
  | brace : OpenDelimiter offset '{' (openProgramError offset)

/-- An error is that of a quote or a brace in the text at offset `k`. -/
def IsDelimiterError (k : Nat) (text : List Char) (e : TemplateError) : Prop :=
  ∃ before ch after, text = before ++ ch :: after ∧ OpenDelimiter (k + byteSize before) ch e

/-- The construct at a cursor has no end, and the error that tells so. -/
inductive Unterminated (c : Cursor) : TemplateError → Prop
  | comment {inner : List Char} (hc : c.rest = commentOpening ++ inner)
    (hinner : ¬commentClosing <:+: inner) :
    Unterminated c ⟨.unterminatedComment, ⟨c.offset, c.offset + 4⟩⟩
  | delimiter {e : TemplateError} (h : IsDelimiterError c.offset c.rest e) : Unterminated c e
  | tag {text : List Char} (hc : c.rest = '<' :: text) (htext : splitTag text = .error .noEnd) :
    Unterminated c (openTagError c.offset text .noEnd)
  | rawText {inner content : List Char} {tag : OpenTag} (hc : c.rest = tagText inner ++ content)
    (htag : IsOpeningTag c.offset inner tag false) (hvoid : isVoidElement tag.name = false)
    (hraw : isRawTextElement tag.name = true)
    (hcontent : ∀ close, IsCloseTag tag.name close → ¬close <:+: content) :
    Unterminated c ⟨.unterminatedRawText (String.ofList tag.name), tag.span⟩

section

variable {c d : Cursor} {k : Nat} {x text rest : List Char} {e : TemplateError}

/-- The error of a delimiter in a text is one in the text with another in front. -/
theorem IsDelimiterError.append_left (h : IsDelimiterError (k + byteSize x) text e) :
    IsDelimiterError k (x ++ text) e := by
  obtain ⟨before, ch, after, rfl, hopen⟩ := h
  refine ⟨x ++ before, ch, after, (List.append_assoc _ _ _).symm, ?_⟩
  rwa [byteSize_append, ← Nat.add_assoc]

/-- The error of a delimiter is that of a quote or of a program. -/
theorem IsDelimiterError.kind (h : IsDelimiterError k text e) :
    e.fault.kind = .unterminatedQuote ∨ e.fault.kind = .unterminatedProgram := by
  obtain ⟨_, _, _, -, hopen⟩ := h
  cases hopen with
  | quote | overlong => exact Or.inl rfl
  | brace => exact Or.inr rfl

/-- The error of a delimiter in a text is one in the text with another behind. -/
theorem IsDelimiterError.append_right (h : IsDelimiterError k text e) (rest : List Char) :
    IsDelimiterError k (text ++ rest) e := by
  obtain ⟨before, ch, after, rfl, hopen⟩ := h
  exact ⟨before, ch, after ++ rest, List.append_assoc _ _ _, hopen⟩

/-- An error behind a text that the cursor passes is one at the cursor. -/
theorem IsDelimiterError.of_passes (hd : c.Passes x d) (h : IsDelimiterError d.offset d.rest e) :
    IsDelimiterError c.offset c.rest e := by
  rw [hd.rest]
  rw [hd.offset] at h
  exact h.append_left

/-- The error of an open delimiter at the front of a text is one of a delimiter in it. -/
theorem OpenDelimiter.isDelimiterError {ch : Char} (h : OpenDelimiter c.offset ch e)
    (hc : c.rest = ch :: text) : IsDelimiterError c.offset c.rest e :=
  ⟨[], ch, text, hc, h⟩

/-- Where an attribute in braces is not read, it is for a delimiter. -/
theorem isDelimiterError_of_readBraced (hc : c.rest = '{' :: text)
    (h : readBraced c text = .error e) : IsDelimiterError c.offset c.rest e := by
  unfold readBraced at h
  split at h
  · obtain rfl := Except.error.inj h
    exact OpenDelimiter.brace.isDelimiterError hc
  · cases h

/-- Where the value of an attribute is not read, it is for a delimiter. -/
theorem isDelimiterError_of_readAttributeValue (h : readAttributeValue c = .error e) :
    IsDelimiterError c.offset c.rest e := by
  unfold readAttributeValue at h
  split at h
  · cases h
  · next ch text hc =>
    split at h
    · next hquote =>
      split at h
      · obtain rfl := Except.error.inj h
        exact (OpenDelimiter.overlong hquote).isDelimiterError hc
      · cases h
    · split at h
      · next hbrace =>
        split at h
        · obtain rfl := Except.error.inj h
          exact OpenDelimiter.brace.isDelimiterError (hbrace ▸ hc)
        · cases h
      · cases h

/-- Where an attribute with a name is not read, it is for a delimiter. -/
theorem isDelimiterError_of_readNamed (h : readNamed c = .error e) :
    IsDelimiterError c.offset c.rest e := by
  unfold readNamed at h
  dsimp only at h
  split at h
  · next text hrest =>
    split at h
    · cases h
    · next hvalue =>
      obtain rfl := Except.error.inj h
      obtain ⟨_, _, -, -, hx⟩ := exists_passes_to_value hrest
      exact (isDelimiterError_of_readAttributeValue hvalue).of_passes hx
  · cases h

/-- Where an attribute is not read, it is for a delimiter. -/
theorem ReadsAttribute.isDelimiterError (h : ReadsAttribute c (.error e)) :
    IsDelimiterError c.offset c.rest e := by
  cases h with
  | braced hc hread => exact isDelimiterError_of_readBraced hc hread
  | named _ _ hread => exact isDelimiterError_of_readNamed hread

/-- Attributes are unreadable only where a quote or a brace among them is not closed. -/
theorem isDelimiterError_of_readAttributes (h : readAttributes c = .error e) :
    IsDelimiterError c.offset c.rest e := by
  have hreads := readsAttributes c
  generalize readAttributes c = result at h hreads
  induction hreads with
  | nil | slash => cases h
  | skip hc _ _ _ _ ih => exact (ih h).of_passes (Cursor.passes_advance hc)
  | refuse hread =>
    obtain rfl := Except.error.inj h
    exact hread.isDelimiterError
  | @cons c after p result hread _ ih =>
    cases result with
    | error =>
      obtain ⟨x, hx, -⟩ := hread.exists_text
      exact (ih h).of_passes hx
    | ok => cases h

/-- A tag that got stuck at a quote or a brace is reported there. -/
theorem TagFault.StandsIn.isDelimiterError {fault : TagFault} (h : fault.StandsIn text)
    (hfault : fault ≠ .noEnd) (k : Nat) :
    IsDelimiterError k ('<' :: text) (openTagError k text fault) := by
  cases fault with
  | openQuote before =>
    obtain ⟨quote, tail, rfl, hquote⟩ := h
    refine ⟨'<' :: before, quote, tail, rfl, ?_⟩
    rw [byteSize_cons, ← Nat.add_assoc]
    exact .quote hquote
  | openBrace before =>
    obtain ⟨tail, rfl⟩ := h
    refine ⟨'<' :: before, '{', tail, rfl, ?_⟩
    rw [byteSize_cons, ← Nat.add_assoc]
    exact .brace
  | noEnd => exact absurd rfl hfault

/-- Where a tag is not read, it has no end. -/
theorem unterminated_of_readTag (hc : c.rest = '<' :: text) (h : readTag c text = .error e) :
    Unterminated c e := by
  unfold readTag at h
  split at h
  · cases h
  · next fault hfault =>
    obtain rfl := Except.error.inj h
    by_cases hend : fault = .noEnd
    · subst hend
      exact .tag hc hfault
    · have hdelimiter := (standsIn_of_splitTag hfault).isDelimiterError hend c.offset
      exact .delimiter (hc ▸ hdelimiter)

/-- Only raw text keeps an element from being completed. -/
theorem unterminated_of_finishTag {inner : List Char} {tag : OpenTag} {closesItself : Bool}
    (htag : IsOpeningTag c.offset inner tag closesItself) (hc : c.rest = tagText inner ++ rest)
    (h : finishTag c (c.advance (tagText inner) rest) tag.name tag.attributes closesItself =
      .error e) : Unterminated c e := by
  unfold finishTag at h
  split at h
  · cases h
  · next hname =>
    rw [Bool.not_eq_true, Bool.or_eq_false_iff] at hname
    obtain ⟨rfl, hvoid⟩ := hname
    split at h
    · next hraw =>
      split at h
      · next hs =>
        obtain rfl := Except.error.inj h
        have hspan : c.spanTo (c.advance (tagText inner) rest) = tag.span := htag.span.symm
        rw [hspan]
        exact .rawText hc htag hvoid hraw (splitRawText_eq_none_iff.mp hs)
      · cases h
    · cases h

/-- Where an element is not read, its tag or its raw text has no end. -/
theorem unterminated_of_readElement {ch : Char} {tail : List Char}
    (hc : c.rest = '<' :: ch :: tail) (hch : ch.isAlpha = true)
    (h : readElement c (ch :: tail) = .error e) : Unterminated c e := by
  simp only [readElement, bind, Except.bind] at h
  split at h
  · next hr =>
    obtain rfl := Except.error.inj h
    exact unterminated_of_readTag hc hr
  · next r hr =>
    obtain ⟨inner, after⟩ := r
    split at h
    · next hattributes =>
      obtain rfl := Except.error.inj h
      obtain ⟨htext, -, -⟩ := fills_of_readTag hr
      -- The attributes are read inside the tag, so the rest of the tag and of the text is put back.
      have hinner : IsDelimiterError (c.offset + byteSize ('<' :: tagName inner))
          (inner.dropWhile isTagNameChar) _ := isDelimiterError_of_readAttributes hattributes
      have hwhole := hinner.append_left.append_right ('>' :: after.rest)
      rw [tagName, List.cons_append, List.takeWhile_append_dropWhile, List.cons_append, ← htext,
        ← hc] at hwhole
      exact .delimiter hwhole
    · next r hattributes =>
      obtain ⟨properties, closesItself⟩ := r
      obtain ⟨hrest, hafter, htag⟩ := isOpeningTag_of_readTag hc hch hr hattributes
      rw [hafter] at h
      exact unterminated_of_finishTag htag hrest h

/-- Where no piece can be read, a construct has no end. -/
theorem unterminated_of_readPiece (h : readPiece c = .error e) : Unterminated c e := by
  cases ho : opening? c.rest with
  | none =>
    rw [readPiece, ho] at h
    cases h
  | some o =>
    rw [opening?_eq_some_iff] at ho
    rw [readPiece_of_begins ho] at h
    cases o with
    | comment =>
      obtain ⟨inner, hc⟩ := ho
      rw [hc] at h
      dsimp only at h
      unfold readComment at h
      split at h
      · next hs =>
        obtain rfl := Except.error.inj h
        exact .comment hc (splitPattern_eq_none_iff.mp hs)
      · cases h
    | closeTag =>
      obtain ⟨ch, tail, hc, -⟩ := ho
      rw [hc] at h
      simp only [readCloseTag, bind, Except.bind, pure, Except.pure] at h
      split at h
      · next hr =>
        obtain rfl := Except.error.inj h
        exact unterminated_of_readTag hc hr
      · cases h
    | declaration =>
      obtain ⟨tail, hc, -⟩ := ho
      rw [hc] at h
      simp only [readDeclaration, bind, Except.bind, pure, Except.pure] at h
      split at h
      · next hr =>
        obtain rfl := Except.error.inj h
        exact unterminated_of_readTag hc hr
      · cases h
    | element =>
      obtain ⟨ch, tail, hc, hch⟩ := ho
      rw [hc] at h
      exact unterminated_of_readElement hc hch h
    | program =>
      obtain ⟨tail, hc⟩ := ho
      rw [hc] at h
      dsimp only at h
      unfold readProgram at h
      split at h
      · obtain rfl := Except.error.inj h
        exact .delimiter (OpenDelimiter.brace.isDelimiterError hc)
      · cases h

end

end TemplateReader
