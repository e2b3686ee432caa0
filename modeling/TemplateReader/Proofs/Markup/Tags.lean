import TemplateReader.Proofs.Markup.Printing

/-!
# Printed tags

The search for the end of a tag and the reading of its attributes go through the
same text by different rules. On a printed tag they agree: every attribute is
passed over whole by the search, so the tag ends at its own `>`, and the reader
finds the attributes one after the other, each ended by the blank behind it. A
slash at the end of a bare value stays in the value, and the one behind the last
blank closes the tag.
-/

namespace TemplateReader

/-- Passing nothing changes nothing. -/
theorem passing_nil (e : Except TagFault (List Char × List Char)) : passing [] e = e := by
  cases e with
  | ok r => rfl
  | error fault => cases fault <;> rfl

/-- Passing one text and then another is passing both. -/
theorem passing_passing (a b : List Char) (e : Except TagFault (List Char × List Char)) :
    passing a (passing b e) = passing (a ++ b) e := by
  cases e with
  | ok r => simp only [passing, List.append_assoc]
  | error fault => cases fault <;> simp only [passing, TagFault.after, List.append_assoc]

private theorem splitTag_quoted {quote : Char} {value : List Char} (hquote : isTagQuote quote = true)
    (hvalue : FillsQuote quote value) (rest : List Char) :
    splitTag (quote :: (value ++ quote :: rest)) =
      passing (quote :: value ++ [quote]) (splitTag rest) := by
  rw [splitTag_cons, if_pos hquote, splitQuote_eq_some_iff.mpr ⟨rfl, hvalue⟩]

private theorem splitTag_braced {expression : List Char} (hexpression : FillsBraces expression)
    (rest : List Char) :
    splitTag ('{' :: (expression ++ '}' :: rest)) =
      passing ('{' :: expression ++ ['}']) (splitTag rest) := by
  have hquote : ¬isTagQuote '{' = true := by decide
  rw [splitTag_cons, if_neg hquote, if_pos rfl, hexpression.splitBraces_append]

/-- A text that fills a tag begins with a quoted run, a braced run or a character that is passed over
alone, and what follows fills a tag as well. -/
theorem FillsTag.uncons {c : Char} {text : List Char} (h : FillsTag (c :: text)) :
    (isTagQuote c = true ∧ ∃ value rest, text = value ++ c :: rest ∧ FillsQuote c value ∧
      FillsTag rest) ∨
    (c = '{' ∧ ∃ expression rest, text = expression ++ '}' :: rest ∧ FillsBraces expression ∧
      FillsTag rest) ∨
    (isTagQuote c = false ∧ c ≠ '{' ∧ c ≠ '>' ∧ FillsTag text) := by
  rw [FillsTag, List.cons_append, splitTag_cons] at h
  by_cases hquote : isTagQuote c = true
  · rw [if_pos hquote] at h
    cases hs : splitQuote c (text ++ ['>']) with
    | none =>
      rw [hs] at h
      cases h
    | some r =>
      obtain ⟨value, after⟩ := r
      rw [hs] at h
      obtain ⟨tail, htail, heq⟩ := passing_eq_ok h
      rw [List.cons_append, List.cons_append, List.cons.injEq, List.append_assoc] at heq
      obtain ⟨-, rfl⟩ := heq
      obtain ⟨rfl, hfills⟩ := splitTag_eq_ok_iff.mp htail
      obtain ⟨-, hvalue⟩ := splitQuote_eq_some_iff.mp hs
      exact Or.inl ⟨hquote, value, tail, rfl, hvalue, hfills⟩
  · rw [if_neg hquote] at h
    by_cases hbrace : c = '{'
    · subst hbrace
      rw [if_pos rfl] at h
      cases hs : splitBraces 0 (text ++ ['>']) with
      | none =>
        rw [hs] at h
        cases h
      | some r =>
        obtain ⟨expression, after⟩ := r
        rw [hs] at h
        obtain ⟨tail, htail, heq⟩ := passing_eq_ok h
        rw [List.cons_append, List.cons_append, List.cons.injEq, List.append_assoc] at heq
        obtain ⟨-, rfl⟩ := heq
        obtain ⟨rfl, hfills⟩ := splitTag_eq_ok_iff.mp htail
        obtain ⟨-, hexpression⟩ := splitBraces_eq_some_iff.mp hs
        exact Or.inr (Or.inl ⟨rfl, expression, tail, rfl, hexpression, hfills⟩)
    · rw [if_neg hbrace] at h
      by_cases hend : c = '>'
      · rw [if_pos hend] at h
        cases h
      · rw [if_neg hend] at h
        obtain ⟨tail, htail, heq⟩ := passing_eq_ok h
        obtain ⟨-, rfl⟩ := List.cons.inj heq
        exact Or.inr (Or.inr ⟨Bool.not_eq_true _ ▸ hquote, hbrace, hend, htail⟩)

/-- The search for the end of a tag passes over a text that fills a tag of its own. -/
theorem FillsTag.splitTag_append {text : List Char} (h : FillsTag text) (rest : List Char) :
    splitTag (text ++ rest) = passing text (splitTag rest) := by
  induction hn : text.length using Nat.strongRecOn generalizing text with
  | ind n ih =>
    subst hn
    cases text with
    | nil => rw [List.nil_append, passing_nil]
    | cons c text =>
      rcases h.uncons with ⟨hquote, value, tail, rfl, hvalue, hfills⟩ |
          ⟨rfl, expression, tail, rfl, hexpression, hfills⟩ | ⟨hquote, hbrace, hend, hfills⟩
      · have hlt : tail.length < (c :: (value ++ c :: tail)).length := by
          simp only [List.length_cons, List.length_append]
          omega
        have hfront := splitTag_quoted hquote hvalue (tail ++ rest)
        rw [ih tail.length hlt hfills rfl, passing_passing] at hfront
        simpa only [List.cons_append, List.append_assoc, List.nil_append] using hfront
      · have hlt : tail.length < ('{' :: (expression ++ '}' :: tail)).length := by
          simp only [List.length_cons, List.length_append]
          omega
        have hfront := splitTag_braced hexpression (tail ++ rest)
        rw [ih tail.length hlt hfills rfl, passing_passing] at hfront
        simpa only [List.cons_append, List.append_assoc, List.nil_append] using hfront
      · have hquote' : ¬isTagQuote c = true := by
          rw [hquote]
          exact Bool.false_ne_true
        rw [List.cons_append, splitTag_cons, if_neg hquote', if_neg hbrace, if_neg hend,
          ih text.length (Nat.lt_succ_self _) hfills rfl, passing_passing]
        rfl

/-- Behind a text that fills a tag, what is left of one that does fills one as well. -/
theorem FillsTag.of_append {text rest : List Char} (htext : FillsTag text)
    (h : FillsTag (text ++ rest)) : FillsTag rest := by
  rw [FillsTag, List.append_assoc, htext.splitTag_append] at h
  obtain ⟨tail, htail, heq⟩ := passing_eq_ok h
  obtain rfl := List.append_cancel_left heq
  exact htail

private theorem splitTag_end : splitTag ['>'] = .ok ([], []) := by
  rw [splitTag_cons]
  rfl

/-- The empty text may stand in a tag. -/
theorem FillsTag.nil : FillsTag [] := splitTag_end

/-- Texts that each fill a tag fill one together. -/
theorem FillsTag.append {a b : List Char} (ha : FillsTag a) (hb : FillsTag b) :
    FillsTag (a ++ b) := by
  rw [FillsTag, List.append_assoc, ha.splitTag_append, hb]
  rfl

/-- A quoted value may stand in a tag. -/
theorem fillsTag_quoted {quote : Char} {value : List Char} (hquote : isTagQuote quote = true)
    (hvalue : FillsQuote quote value) : FillsTag (quote :: value ++ [quote]) := by
  have hfills := splitTag_quoted hquote hvalue ['>']
  rw [splitTag_end, passing_ok, List.append_nil] at hfills
  simpa only [FillsTag, List.cons_append, List.append_assoc, List.nil_append] using hfills

/-- A run in braces may stand in a tag. -/
theorem fillsTag_braced {expression : List Char} (hexpression : FillsBraces expression) :
    FillsTag ('{' :: expression ++ ['}']) := by
  have hfills := splitTag_braced hexpression ['>']
  rw [splitTag_end, passing_ok, List.append_nil] at hfills
  simpa only [FillsTag, List.cons_append, List.append_assoc, List.nil_append] using hfills

/-- A text without quotes, opening braces and `>` fills a tag. -/
theorem fillsTag_of_forall {text : List Char}
    (h : ∀ c ∈ text, isTagQuote c = false ∧ c ≠ '{' ∧ c ≠ '>') : FillsTag text := by
  induction text with
  | nil => exact FillsTag.nil
  | cons c text ih =>
    obtain ⟨hquote, hbrace, hend⟩ := h c List.mem_cons_self
    have htext : splitTag (text ++ ['>']) = .ok (text, []) :=
      ih fun d hd => h d (List.mem_cons_of_mem c hd)
    rw [FillsTag, List.cons_append, splitTag_cons, if_neg (by rw [hquote]; exact Bool.false_ne_true),
      if_neg hbrace, if_neg hend, htext]
    rfl

/-- A character that neither quotes, opens a brace nor ends the tag may stand in one. -/
theorem fillsTag_singleton {c : Char} (hquote : isTagQuote c = false) (hbrace : c ≠ '{')
    (hend : c ≠ '>') : FillsTag [c] :=
  fillsTag_of_forall (List.forall_mem_singleton.mpr ⟨hquote, hbrace, hend⟩)

/-- The name of a tag may stand in one. -/
theorem fillsTag_of_isTagNameChar {name : List Char} (h : ∀ c ∈ name, isTagNameChar c = true) :
    FillsTag name := by
  refine fillsTag_of_forall fun c hc => ⟨?_, ?_, ?_⟩
  · rw [isTagQuote, Bool.or_eq_false_iff, decide_eq_false_iff_not, decide_eq_false_iff_not]
    constructor <;> rintro rfl <;> cases h _ hc
  · rintro rfl
    cases h _ hc
  · rintro rfl
    cases h _ hc

/-- A further dot at the front of an expression leaves its extent as it is. -/
theorem FillsBraces.dot {expression : List Char} (h : FillsBraces expression) :
    FillsBraces ('.' :: expression) := by
  rw [FillsBraces] at h ⊢
  rw [List.cons_append, splitBraces_cons, if_neg (by decide), if_neg (by decide),
    if_neg (by decide), h]
  rfl

namespace Markup

/-- The characters in the names of attributes are those that mean nothing else in a tag. -/
theorem isAttributeNameChar_iff {c : Char} :
    isAttributeNameChar c = true ↔ isSpace c = false ∧ c ≠ '=' ∧ isTagQuote c = false ∧ c ≠ '{' ∧
      c ≠ '}' ∧ c ≠ '<' ∧ c ≠ '>' ∧ c ≠ '/' := by
  simp only [isAttributeNameChar, isTagQuote, Bool.and_eq_true, Bool.not_eq_true', Bool.or_eq_false_iff,
    decide_eq_false_iff_not, and_assoc, ne_eq]

/-- The name of an attribute may stand in a tag. -/
theorem IsAttributeName.fillsTag {name : List Char} (h : IsAttributeName name) : FillsTag name := by
  refine fillsTag_of_forall fun c hc => ?_
  obtain ⟨-, -, hquote, hbrace, -, -, hend, -⟩ := isAttributeNameChar_iff.mp (h.2 c hc)
  exact ⟨hquote, hbrace, hend⟩

/-- What is written for an attribute may stand in a tag. -/
theorem Attribute.WellFormed.fillsTag {a : Attribute} (h : a.WellFormed) : FillsTag a.print := by
  have hequals : FillsTag ['='] := fillsTag_singleton rfl (by decide) (by decide)
  cases a with
  | flag name => exact IsAttributeName.fillsTag h
  | quoted name quote value =>
    obtain ⟨hname, hquote, hvalue⟩ := h
    exact hname.fillsTag.append (hequals.append (fillsTag_quoted hquote hvalue))
  | bare name value =>
    obtain ⟨hname, -, hvalue, -⟩ := h
    exact hname.fillsTag.append (hequals.append hvalue)
  | braced name expression =>
    obtain ⟨hname, hexpression⟩ := h
    exact hname.fillsTag.append (hequals.append (fillsTag_braced hexpression))
  | computed expression => exact fillsTag_braced h.1
  | spread expression => exact fillsTag_braced h.dot.dot.dot

/-- What is written for attributes may stand in a tag. -/
theorem fillsTag_printAttributes {attributes : List Attribute}
    (h : ∀ a ∈ attributes, a.WellFormed) : FillsTag (printAttributes attributes) := by
  induction attributes with
  | nil => exact FillsTag.nil
  | cons a attributes ih =>
    have hblank : FillsTag [' '] := fillsTag_singleton rfl (by decide) (by decide)
    have hfirst := (h a List.mem_cons_self).fillsTag
    exact hblank.append (hfirst.append (ih fun b hb => h b (List.mem_cons_of_mem a hb)))

end Markup

end TemplateReader
