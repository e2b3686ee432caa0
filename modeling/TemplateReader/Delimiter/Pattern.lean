import TemplateReader.Text.Ascii
import TemplateReader.Text.Cursor

/-!
# First occurrences

Comments, line ends and the content of raw-text elements end at the first
occurrence of a fixed pattern; nothing inside them is given any meaning.
-/

namespace TemplateReader

/-- Removes `pattern` from the front of a text. -/
def dropWord? : (pattern text : List Char) → Option (List Char)
  | [], text => some text
  | _ :: _, [] => none
  | p :: pattern, c :: text => if p = c then dropWord? pattern text else none

/-- Only the pattern itself is removed. -/
theorem eq_append_of_dropWord? {pattern text rest : List Char}
    (h : dropWord? pattern text = some rest) : text = pattern ++ rest := by
  induction pattern generalizing text with
  | nil => simpa [dropWord?] using h
  | cons p pattern ih =>
    cases text with
    | nil => simp [dropWord?] at h
    | cons c text =>
      simp only [dropWord?] at h
      split at h
      · next hp => simp [ih h, hp]
      · simp at h

/-- Splits a text around the first place where `find?` recognises something, into what is before
that place and what `find?` answers there. -/
def splitFirst {α : Type} (find? : List Char → Option α) : List Char → Option (List Char × α)
  | [] => (find? []).map fun found => ([], found)
  | c :: text =>
    match find? (c :: text) with
    | some found => some ([], found)
    | none => (splitFirst find? text).map fun (before, found) => (c :: before, found)

/-- The answer is given at a final part of the text, behind what is before it. -/
theorem exists_of_splitFirst {α : Type} {find? : List Char → Option α} {text before : List Char}
    {found : α} (h : splitFirst find? text = some (before, found)) :
    ∃ tail, text = before ++ tail ∧ find? tail = some found := by
  induction text generalizing before with
  | nil =>
    simp only [splitFirst, Option.map_eq_some_iff, Prod.mk.injEq] at h
    obtain ⟨f, hf, rfl, rfl⟩ := h
    exact ⟨[], rfl, hf⟩
  | cons c text ih =>
    simp only [splitFirst] at h
    split at h
    · next f hf =>
      simp only [Option.some.injEq, Prod.mk.injEq] at h
      obtain ⟨rfl, rfl⟩ := h
      exact ⟨c :: text, rfl, hf⟩
    · simp only [Option.map_eq_some_iff, Prod.exists, Prod.mk.injEq] at h
      obtain ⟨b, f, hs, rfl, rfl⟩ := h
      obtain ⟨tail, rfl, hf⟩ := ih hs
      exact ⟨tail, rfl, hf⟩

/-- Splits a text around the first occurrence of a pattern, which belongs to neither part. -/
def splitPattern (pattern : List Char) (text : List Char) : Option (List Char × List Char) :=
  splitFirst (dropWord? pattern) text

/-- The two parts and the pattern between them make up the text. -/
theorem eq_append_of_splitPattern {pattern text before rest : List Char}
    (h : splitPattern pattern text = some (before, rest)) : text = before ++ (pattern ++ rest) := by
  obtain ⟨tail, rfl, ht⟩ := exists_of_splitFirst h
  rw [eq_append_of_dropWord? ht]

/-- Behind a pattern that is not empty less is left than in front of it. -/
theorem length_lt_of_splitPattern {pattern text before rest : List Char} (hp : pattern ≠ [])
    (h : splitPattern pattern text = some (before, rest)) : rest.length < text.length := by
  have hpos := List.length_pos_iff.mpr hp
  rw [eq_append_of_splitPattern h, List.length_append, List.length_append]
  omega

/-- The opening of a comment. -/
def commentOpening : List Char := ['<', '!', '-', '-']

/-- The closing of a comment. -/
def commentClosing : List Char := ['-', '-', '>']

/-- Recognises a close tag of the given name, `</`, the name up to ASCII case, any ASCII whitespace
and `>`, and answers what follows it. -/
def closeTag? (name text : List Char) : Option (List Char) := do
  let afterOpening ← dropWord? ['<', '/'] text
  let afterName ← dropWordIgnoreCase? name afterOpening
  match afterName.dropWhile isSpace with
  | '>' :: rest => some rest
  | _ => none

/-- Splits the content of a raw-text element at the first close tag of its name, into the content
and what follows the tag. -/
def splitRawText (name text : List Char) : Option (List Char × List Char) :=
  splitFirst (closeTag? name) text

/-- A close tag is not empty. -/
theorem length_lt_of_closeTag? {name text rest : List Char} (h : closeTag? name text = some rest) :
    rest.length < text.length := by
  simp only [closeTag?, Option.bind_eq_bind, Option.bind_eq_some_iff] at h
  obtain ⟨a, ha, b, hb, hr⟩ := h
  obtain ⟨found, _, rfl⟩ := eq_append_of_dropWordIgnoreCase? hb
  have hd := (List.dropWhile_suffix (l := b) isSpace).length_le
  split at hr
  · next r hw =>
    simp only [Option.some.injEq] at hr
    subst hr
    rw [eq_append_of_dropWord? ha]
    simp only [hw, List.length_cons, List.length_append] at hd ⊢
    omega
  · simp at hr

/-- Raw text leaves less than it was given, by its close tag at least. -/
theorem length_lt_of_splitRawText {name text content rest : List Char}
    (h : splitRawText name text = some (content, rest)) : rest.length < text.length := by
  obtain ⟨tail, rfl, ht⟩ := exists_of_splitFirst h
  have := length_lt_of_closeTag? ht
  simp only [List.length_append]
  omega

end TemplateReader
