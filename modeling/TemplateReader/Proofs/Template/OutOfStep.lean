import TemplateReader.Proofs.Template.Attributes
import TemplateReader.Proofs.Template.Unterminated

/-!
# Tags that are read out of step

A tag is gone through twice. The search for its end takes every quote and every
brace as the opening of a run; the reader of its attributes does so only where a
value or an attribute begins. The two stay in step over an attribute whose text
the search would pass over whole. They fall out of step at a quote that stands
where an attribute should begin, and at an unquoted value that ends inside a run.
Only then can a quote or a brace, which the search saw closed, be open to the
reader at the end of the tag.
-/

namespace TemplateReader

open Markup (IsAttributeName isAttributeNameChar_iff)

/-- From the first of two texts inside a tag, the reader comes to the second one in step with the
search for the end of the tag: over characters between attributes that are no quotes, and over
attributes in which no run is left open. -/
inductive InStep : List Char → List Char → Prop
  | refl {text : List Char} : InStep text text
  | skip {c : Char} {text rest : List Char} (hc : isBetween c = true)
    (hquote : isTagQuote c = false) (hrest : InStep text rest) : InStep (c :: text) rest
  | cons {k : Nat} {x text rest : List Char} {p : Property} (hx : AttributeText k text x p)
    (hfills : FillsTag x) (hrest : InStep text rest) : InStep (x ++ text) rest

/-- At the front of a text inside a tag, the reader and the search part: a quote stands where an
attribute should begin, or an unquoted value ends inside a quoted or a braced run. -/
inductive PartsAt : List Char → Prop
  | quote {c : Char} {text : List Char} (hc : isTagQuote c = true) : PartsAt (c :: text)
  | value {name before after value rest : List Char} (hname : IsAttributeName name)
    (hbefore : ∀ c ∈ before, isSpace c = true) (hafter : ∀ c ∈ after, isSpace c = true)
    (hvalue : IsBareValue value rest) (hopen : ¬FillsTag value) :
    PartsAt (name ++ (before ++ '=' :: after) ++ value ++ rest)

/-- A tag is read out of step: in step up to a place, and not any further. -/
def OutOfStep (text : List Char) : Prop := ∃ rest, InStep text rest ∧ PartsAt rest

section

variable {c d : Cursor} {text rest x gap : List Char} {k : Nat} {p : Property}

private theorem isTagQuote_of_isSpace {ch : Char} (h : isSpace ch = true) :
    isTagQuote ch = false := by
  rw [← Bool.not_eq_true]
  intro hquote
  rcases isTagQuote_iff.mp hquote with rfl | rfl <;> cases h

/-- Blanks may stand in a tag. -/
theorem fillsTag_of_isSpace (hgap : ∀ ch ∈ gap, isSpace ch = true) : FillsTag gap := by
  apply fillsTag_of_forall
  intro ch hch
  have hspace := hgap ch hch
  refine ⟨isTagQuote_of_isSpace hspace, ?_, ?_⟩
  · rintro rfl
    cases hspace
  · rintro rfl
    cases hspace

private theorem fillsTag_equals {before after : List Char}
    (hbefore : ∀ ch ∈ before, isSpace ch = true) (hafter : ∀ ch ∈ after, isSpace ch = true) :
    FillsTag (before ++ '=' :: after) := by
  have hequals : FillsTag ['='] := fillsTag_singleton rfl (by decide) (by decide)
  exact (fillsTag_of_isSpace hbefore).append (hequals.append (fillsTag_of_isSpace hafter))

/-- An attribute leaves no run open, or it has an unquoted value that does. -/
theorem AttributeText.fillsTag_or_partsAt (h : AttributeText k rest x p) :
    FillsTag x ∨ PartsAt (x ++ rest) := by
  cases h with
  | braced hinner => exact Or.inl (fillsTag_braced hinner)
  | flag hname => exact Or.inl hname.fillsTag
  | @valued name before after value token hname hbefore hafter hvalue =>
    have hfront := hname.fillsTag.append (fillsTag_equals hbefore hafter)
    cases hvalue with
    | quoted hquote hinner => exact Or.inl (hfront.append (fillsTag_quoted hquote hinner))
    | braced hinner => exact Or.inl (hfront.append (fillsTag_braced hinner))
    | bare hbare =>
      by_cases hfills : FillsTag value
      · exact Or.inl (hfront.append hfills)
      · exact Or.inr (.value hname hbefore hafter hbare hfills)

/-- A tag that is out of step is so behind a character that begins no attribute, too. -/
theorem OutOfStep.skip {ch : Char} (hch : isBetween ch = true) (hquote : isTagQuote ch = false)
    (h : OutOfStep text) : OutOfStep (ch :: text) := by
  obtain ⟨rest, hstep, hparts⟩ := h
  exact ⟨rest, .skip hch hquote hstep, hparts⟩

/-- Where every run is closed in front of the end of the tag, a braced attribute is read. -/
theorem FillsTag.exists_readBraced (h : FillsTag c.rest) (hc : c.rest = '{' :: text) :
    ∃ p d, readBraced c text = .ok (p, d) := by
  rw [hc] at h
  rcases h.uncons with ⟨hquote, -⟩ | ⟨-, expression, rest, rfl, hexpression, -⟩ | ⟨-, hbrace, -⟩
  · cases hquote
  · rw [readBraced, hexpression.splitBraces_append]
    exact ⟨_, _, rfl⟩
  · exact absurd rfl hbrace

/-- Where every run is closed in front of the end of the tag, the value of an attribute is read. -/
theorem FillsTag.exists_readAttributeValue (h : FillsTag c.rest) :
    ∃ value d, readAttributeValue c = .ok (value, d) := by
  unfold readAttributeValue
  split
  · exact ⟨_, _, rfl⟩
  · next ch text hc =>
    rw [hc] at h
    rcases h.uncons with ⟨hquote, value, rest, rfl, hvalue, -⟩ |
        ⟨rfl, expression, rest, rfl, hexpression, -⟩ | ⟨hquote, hbrace, -⟩
    · rw [if_pos hquote, splitQuote_eq_some_iff.mpr ⟨rfl, hvalue⟩]
      exact ⟨_, _, rfl⟩
    · rw [if_neg (by decide), if_pos rfl, hexpression.splitBraces_append]
      exact ⟨_, _, rfl⟩
    · rw [hquote, if_neg Bool.false_ne_true, if_neg hbrace]
      exact ⟨_, _, rfl⟩

/-- Where every run is closed in front of the end of the tag, a named attribute is read. -/
theorem FillsTag.exists_readNamed (h : FillsTag c.rest) : ∃ p d, readNamed c = .ok (p, d) := by
  unfold readNamed
  dsimp only
  split
  · next after hequals =>
    have hname : FillsTag (c.rest.takeWhile isAttributeNameChar) := by
      apply fillsTag_of_forall
      intro ch hch
      obtain ⟨-, -, hquote, hbrace, -, -, hend, -⟩ := isAttributeNameChar_iff.mp
        (List.all_eq_true.mp List.all_takeWhile ch hch)
      exact ⟨hquote, hbrace, hend⟩
    obtain ⟨gap, gap', hgap, hgap', hpasses⟩ := exists_passes_to_value hequals
    rw [hpasses.rest] at h
    have hfront := hname.append (fillsTag_equals hgap hgap')
    obtain ⟨value, d, hvalue⟩ := (hfront.of_append h).exists_readAttributeValue
    rw [hvalue]
    exact ⟨_, _, rfl⟩
  · exact ⟨_, _, rfl⟩

private theorem FillsTag.of_cons {ch : Char} (h : FillsTag (ch :: text))
    (hquote : isTagQuote ch = false) (hbrace : ch ≠ '{') : FillsTag text := by
  rcases h.uncons with ⟨hquote', -⟩ | ⟨hbrace', -⟩ | ⟨-, -, -, htext⟩
  · rw [hquote] at hquote'
    cases hquote'
  · exact absurd hbrace' hbrace
  · exact htext

/-- Where every run is closed in front of the end of the tag, an attribute is read. -/
theorem FillsTag.not_readsAttribute_error {e : TemplateError} (h : FillsTag c.rest) :
    ¬ReadsAttribute c (.error e) := by
  rintro (⟨hc, hread⟩ | ⟨-, -, hread⟩)
  · obtain ⟨p, d, hr⟩ := h.exists_readBraced hc
    rw [hr] at hread
    cases hread
  · obtain ⟨p, d, hr⟩ := h.exists_readNamed
    rw [hr] at hread
    cases hread

/-- The attributes of a tag are read, or they are read out of step with the search for its end. -/
theorem FillsTag.exists_readAttributes (h : FillsTag c.rest) :
    (∃ r, readAttributes c = .ok r) ∨ OutOfStep c.rest := by
  have hreads := readsAttributes c
  generalize readAttributes c = result at hreads
  induction hreads with
  | nil | slash => exact Or.inl ⟨_, rfl⟩
  | @skip c ch text result hc hbrace hname _ _ ih =>
    rw [hc] at h ⊢
    by_cases hquote : isTagQuote ch = true
    · exact Or.inr ⟨_, .refl, .quote hquote⟩
    · rw [Bool.not_eq_true] at hquote
      exact (ih (h.of_cons hquote hbrace)).imp_right
        (OutOfStep.skip (isBetween_of_not_begins hbrace hname) hquote)
  | refuse hread => exact absurd hread h.not_readsAttribute_error
  | @cons c after p result hread _ ih =>
    obtain ⟨x, hx, htext⟩ := hread.exists_text
    rw [hx.rest] at h ⊢
    rcases htext.fillsTag_or_partsAt with hfills | hparts
    · -- An attribute that leaves no run open keeps the two in step.
      rcases ih (hfills.of_append h) with ⟨r, rfl⟩ | ⟨rest, hstep, hparts⟩
      · exact Or.inl ⟨_, rfl⟩
      · exact Or.inr ⟨rest, .cons htext hfills hstep, hparts⟩
    · exact Or.inr ⟨_, .refl, hparts⟩

end

end TemplateReader
