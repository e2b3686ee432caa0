/-!
# ASCII character classes

Tags, attributes, scripts and data literals are delimited by ASCII characters
only. The classes here decide those delimiters; a character outside ASCII is
in none of them, so a scan by characters finds what a scan by bytes finds.
-/

namespace TemplateReader

/-- The whitespace of ASCII: space, tab, line feed, form feed and carriage return. -/
def isSpace (c : Char) : Bool :=
  c = ' ' || c = '\t' || c = '\n' || c = '\x0c' || c = '\r'

/-- An ASCII letter, digit, underscore or dollar sign: what a word is made of. -/
def isWordChar (c : Char) : Bool :=
  c.isAlphanum || c = '_' || c = '$'

/-- A word begins with any of its characters except a digit. -/
def isWordStart (c : Char) : Bool :=
  c.isAlpha || c = '_' || c = '$'

/-- The letters of ASCII, by their numbers. -/
theorem isAlpha_iff {c : Char} :
    c.isAlpha = true ↔ (65 ≤ c.toNat ∧ c.toNat ≤ 90) ∨ (97 ≤ c.toNat ∧ c.toNat ≤ 122) := by
  have hle {a b : UInt32} : a ≤ b ↔ a.toNat ≤ b.toNat := UInt32.le_iff_toNat_le
  have hupper : c.isUpper = true ↔ 65 ≤ c.toNat ∧ c.toNat ≤ 90 :=
    decide_eq_true_iff.trans (and_congr hle hle)
  have hlower : c.isLower = true ↔ 97 ≤ c.toNat ∧ c.toNat ≤ 122 :=
    Bool.and_eq_true_iff.trans
      (and_congr (decide_eq_true_iff.trans hle) (decide_eq_true_iff.trans hle))
  exact Bool.or_eq_true_iff.trans (or_congr hupper hlower)

/-- Every character that may begin a word may also continue it. -/
theorem isWordChar_of_isWordStart {c : Char} (h : isWordStart c = true) :
    isWordChar c = true := by
  simp only [isWordStart, isWordChar, Char.isAlphanum] at h ⊢
  grind

/-- Equality of two texts up to the case of ASCII letters. -/
def eqIgnoreCase (a b : List Char) : Bool :=
  a.map Char.toLower == b.map Char.toLower

/-- Case-insensitive equality is symmetric. -/
theorem eqIgnoreCase_comm (a b : List Char) : eqIgnoreCase a b = eqIgnoreCase b a := by
  simp only [eqIgnoreCase]
  exact Bool.eq_iff_iff.mpr ⟨by simp; exact Eq.symm, by simp; exact Eq.symm⟩

/-- Removes `word` from the front of a text, comparing up to ASCII case. -/
def dropWordIgnoreCase? : (word text : List Char) → Option (List Char)
  | [], text => some text
  | _ :: _, [] => none
  | w :: word, c :: text =>
    if w.toLower = c.toLower then dropWordIgnoreCase? word text else none

/-- What is removed equals the word up to ASCII case, and nothing else is lost. -/
theorem eq_append_of_dropWordIgnoreCase? {word text rest : List Char}
    (h : dropWordIgnoreCase? word text = some rest) :
    ∃ found, eqIgnoreCase word found = true ∧ text = found ++ rest := by
  induction word generalizing text with
  | nil => exact ⟨[], rfl, by simpa [dropWordIgnoreCase?] using h⟩
  | cons w word ih =>
    cases text with
    | nil => simp [dropWordIgnoreCase?] at h
    | cons c text =>
      simp only [dropWordIgnoreCase?] at h
      split at h
      · next hw =>
        obtain ⟨found, hf, rfl⟩ := ih h
        exact ⟨c :: found, by simpa [eqIgnoreCase, hw] using hf, rfl⟩
      · simp at h

end TemplateReader
