import TemplateReader.Data.Notation
import TemplateReader.Proofs.Bytes.Quotes

/-!
# Ways of writing a string

A character may be written in a string as it is, behind a backslash, as one of
four short escapes, or by its code units in hexadecimal. A writing of a text
chooses one way for each of its characters. Whatever the choices, the string is
read back to the text: an escape takes its own digits and nothing of what stands
behind it, be it another escape, more digits or the closing quote.
-/

namespace TemplateReader

/-- A hexadecimal digit in either case. -/
def caseDigit (upper : Bool) (n : Nat) : Char :=
  if upper then (hexDigit n).toUpper else hexDigit n

/-- The four digits of a code unit, the case chosen for each of them. -/
def unitDigits (upper : Fin 4 → Bool) (n : Nat) : List Char :=
  [caseDigit (upper 0) (n / 4096), caseDigit (upper 1) (n / 256), caseDigit (upper 2) (n / 16),
    caseDigit (upper 3) n]

/-- The short escapes: the letter behind the backslash and the character that it stands for. -/
def shortEscapes : List (Char × Char) := [('n', '\n'), ('t', '\t'), ('r', '\r'), ('0', '\x00')]

/-- The characters that mean something else behind a backslash. -/
def escapeLetters : List Char := ['n', 't', 'r', '0', 'u']

/-- A way of writing a character in a string of a quote. -/
inductive CharForm (quote c : Char) : Type
  /-- The character as it is. -/
  | raw (hquote : c ≠ quote) (hbackslash : c ≠ '\\')
  /-- The character behind a backslash. -/
  | escaped (hletter : c ∉ escapeLetters)
  /-- The letter of a short escape behind a backslash. -/
  | short (letter : Char) (hshort : (letter, c) ∈ shortEscapes)
  /-- The character's only code unit. -/
  | unit (upper : Fin 4 → Bool) (hunit : c.toNat < 0x10000)
  /-- The high and the low surrogate of the character. -/
  | pair (high low : Fin 4 → Bool) (hpair : 0x10000 ≤ c.toNat)

/-- The high surrogate of a code point. -/
def highSurrogate (n : Nat) : Nat := 0xd800 + (n - 0x10000) / 0x400

/-- The low surrogate of a code point. -/
def lowSurrogate (n : Nat) : Nat := 0xdc00 + (n - 0x10000) % 0x400

/-- A character in print. -/
def CharForm.print {quote c : Char} : CharForm quote c → List Char
  | raw _ _ => [c]
  | escaped _ => ['\\', c]
  | short letter _ => ['\\', letter]
  | unit upper _ => '\\' :: 'u' :: unitDigits upper c.toNat
  | pair high low _ =>
    '\\' :: 'u' :: (unitDigits high (highSurrogate c.toNat) ++
      '\\' :: 'u' :: unitDigits low (lowSurrogate c.toNat))

/-- A way of writing each character of a text. -/
inductive Writing (quote : Char) : List Char → Type
  | nil : Writing quote []
  | cons {c : Char} {text : List Char} (form : CharForm quote c) (others : Writing quote text) :
    Writing quote (c :: text)

/-- The characters of a text in print. -/
def Writing.body {quote : Char} {text : List Char} : Writing quote text → List Char
  | nil => []
  | cons form others => form.print ++ others.body

/-- A text in print between two quotes. -/
def Writing.print {quote : Char} {text : List Char} (w : Writing quote text) : List Char :=
  quote :: (w.body ++ [quote])

/-- A hexadecimal digit in either case has the value that it was written for. -/
theorem hexValue?_caseDigit (upper : Bool) (n : Nat) :
    hexValue? (caseDigit upper n) = some (n % 16) := by
  have htable : ∀ (upper : Bool) (d : Fin 16),
      hexValue? (if upper then (Nat.digitChar d).toUpper else Nat.digitChar d) = some d.val := by
    decide
  exact htable upper ⟨n % 16, Nat.mod_lt n (by decide)⟩

/-- The digits of a code unit write its number. -/
theorem hexUnit?_unitDigits {n : Nat} (hn : n < 0x10000) (upper : Fin 4 → Bool)
    (rest : List Char) : hexUnit? (unitDigits upper n ++ rest) = some n := by
  simp only [unitDigits, List.cons_append, List.nil_append, hexUnit?, hexValue?_caseDigit,
    Option.bind_eq_bind, Option.bind_some, Option.some.injEq]
  omega

/-- The four digits that are written for a code unit are those of a unit. -/
theorem isUnit_unitDigits (upper : Fin 4 → Bool) (n : Nat) : IsUnit (unitDigits upper n) := by
  refine ⟨rfl, ?_⟩
  simp only [unitDigits, List.forall_mem_cons, hexValue?_caseDigit, Option.isSome_some, true_and]
  exact nofun

/-- The character of the code unit of a character is that character. -/
theorem charOfUnit_toNat (c : Char) : charOfUnit c.toNat = c := by
  have hvalid : c.toNat.isValidChar := c.valid
  have hchar := Char.ofNat_toNat c
  rw [Char.ofNat, dif_pos hvalid] at hchar
  rw [charOfUnit, dif_pos hvalid, hchar]

/-- No character is a surrogate. -/
theorem not_surrogate (c : Char) :
    c.toNat < 0xd800 ∨ 0xdfff < c.toNat ∧ c.toNat < 0x110000 := by
  have hvalid := c.valid
  simp only [UInt32.isValidChar, Nat.isValidChar] at hvalid
  exact hvalid

private theorem not_highSurrogate (c : Char) :
    (decide (0xd800 ≤ c.toNat) && decide (c.toNat < 0xdc00)) = false := by
  have hvalid := not_surrogate c
  rw [Bool.and_eq_false_iff, decide_eq_false_iff_not, decide_eq_false_iff_not]
  omega

variable {quote c : Char} {body value : List Char} {escape : Bool}

/-- A code unit that is a character's number stands for the character. -/
theorem unicodeEscape?_of_hexUnit? {text : List Char} (h : hexUnit? text = some c.toNat) :
    unicodeEscape? text = some (c, 4) := by
  rw [unicodeEscape?, h, Option.bind_eq_bind, Option.bind_some, not_highSurrogate,
    charOfUnit_toNat]
  rfl

/-- A high and a low surrogate stand for a character together. -/
theorem unicodeEscape?_of_surrogates {text : List Char} {high low : Nat}
    (hhigh : hexUnit? text = some high) (hrange : 0xd800 ≤ high ∧ high < 0xdc00)
    (hlow : lowSurrogate? (text.drop 4) = some low) :
    unicodeEscape? text =
      some (charOfUnit (0x10000 + (high - 0xd800) * 0x400 + (low - 0xdc00)), 10) := by
  have htest : (decide (0xd800 ≤ high) && decide (high < 0xdc00)) = true := by
    rwa [Bool.and_eq_true, decide_eq_true_eq, decide_eq_true_eq]
  rw [unicodeEscape?, hhigh, Option.bind_eq_bind, Option.bind_some, htest, if_pos rfl, hlow]

/-- The surrogates of a code point lie in their ranges and make it up. -/
theorem surrogates_spec (hpair : 0x10000 ≤ c.toNat) :
    (0xd800 ≤ highSurrogate c.toNat ∧ highSurrogate c.toNat < 0xdc00) ∧
      (0xdc00 ≤ lowSurrogate c.toNat ∧ lowSurrogate c.toNat < 0xe000) ∧
      0x10000 + (highSurrogate c.toNat - 0xd800) * 0x400 + (lowSurrogate c.toNat - 0xdc00) =
        c.toNat := by
  have hvalid := not_surrogate c
  simp only [highSurrogate, lowSurrogate]
  omega

/-- The escapes of a character's surrogates are decoded to it together. -/
theorem unicodeEscape?_pair (hpair : 0x10000 ≤ c.toNat) (high low : Fin 4 → Bool)
    (rest : List Char) :
    unicodeEscape? (unitDigits high (highSurrogate c.toNat) ++
      '\\' :: 'u' :: (unitDigits low (lowSurrogate c.toNat) ++ rest)) = some (c, 10) := by
  obtain ⟨hhigh, hlow, hcombined⟩ := surrogates_spec hpair
  have hfirst : highSurrogate c.toNat < 0x10000 := Nat.lt_trans hhigh.2 (by decide)
  have hsecond : lowSurrogate c.toNat < 0x10000 := Nat.lt_trans hlow.2 (by decide)
  have hbehind : lowSurrogate? ('\\' :: 'u' :: (unitDigits low (lowSurrogate c.toNat) ++ rest)) =
      some (lowSurrogate c.toNat) := by
    rw [lowSurrogate?, hexUnit?_unitDigits hsecond, Option.filter_some, if_pos]
    rwa [Bool.and_eq_true, decide_eq_true_eq, decide_eq_true_eq]
  rw [unicodeEscape?_of_surrogates (hexUnit?_unitDigits hfirst high _) hhigh hbehind, hcombined,
    charOfUnit_toNat]

/-- A character with no meaning of its own behind a backslash stands for itself. -/
theorem decodeEscape_of_notMem (h : c ∉ escapeLetters) (rest : List Char) :
    decodeEscape c rest = (c, 0) := by
  simp only [escapeLetters, List.mem_cons, List.not_mem_nil, or_false, not_or] at h
  unfold decodeEscape
  split <;> simp_all

/-- A character in print in front of what spells a text spells the character in front of the
text. -/
theorem CharForm.spells (form : CharForm quote c) (h : SpellsString quote body value escape) :
    ∃ escape', SpellsString quote (form.print ++ body) (c :: value) escape' := by
  cases form with
  | raw hquote hbackslash => exact ⟨escape, .plain hquote hbackslash h⟩
  | escaped hletter =>
    exact ⟨true, .escape (Or.inl rfl) (decodeEscape_of_notMem hletter body) h⟩
  | short letter hshort =>
    have hdecode : decodeEscape letter body = (c, 0) := by
      simp only [shortEscapes, List.mem_cons, Prod.mk.injEq, List.not_mem_nil, or_false] at hshort
      rcases hshort with ⟨rfl, rfl⟩ | ⟨rfl, rfl⟩ | ⟨rfl, rfl⟩ | ⟨rfl, rfl⟩ <;> rfl
    exact ⟨true, .escape (Or.inl rfl) hdecode h⟩
  | unit upper hunit =>
    have hdecode : decodeEscape 'u' (unitDigits upper c.toNat ++ body) = (c, 4) := by
      rw [decodeEscape, unicodeEscape?_of_hexUnit? (hexUnit?_unitDigits hunit upper body)]
      rfl
    exact ⟨true, .escape (Or.inr (.single (isUnit_unitDigits upper _))) hdecode h⟩
  | pair high low hpair =>
    have hdecode : decodeEscape 'u' (unitDigits high (highSurrogate c.toNat) ++
        '\\' :: 'u' :: unitDigits low (lowSurrogate c.toNat) ++ body) = (c, 10) := by
      rw [decodeEscape, List.append_assoc, List.cons_append, List.cons_append,
        unicodeEscape?_pair hpair]
      rfl
    exact ⟨true, .escape (Or.inr (.pair (isUnit_unitDigits high _) (isUnit_unitDigits low _)))
      hdecode h⟩

/-- Whatever way each character is written in, the text is spelled. -/
theorem Writing.spells {text : List Char} (w : Writing quote text) :
    ∃ escape, SpellsString quote w.body text escape := by
  induction w with
  | nil => exact ⟨false, .nil⟩
  | cons form others ih =>
    obtain ⟨escape, h⟩ := ih
    exact form.spells h

/-- A text in print is read back from any place, and taken whole, whatever ways its characters are
written in. -/
theorem string_of_writing (quote : { c : Char // isTagQuote c = true }) (s : String)
    (w : Writing quote s.toList) (before after : List Char)
    (value : Option (Nat → Run (Option Token))) (scope : Scope) :
    Rule.string scope (.atOffset (before ++ (w.print ++ after)) (byteSize before)) =
        some (.literal ⟨.string s, String.ofList w.print, w.body.contains '\\',
          ⟨byteSize before, byteSize before + byteSize w.print⟩⟩) ∧
      Bytes.ByteRule.string (before ++ (w.print ++ after)) value (byteSize before) =
        .ok (some (.literal ⟨.string s, String.ofList w.print, w.body.contains '\\',
          ⟨byteSize before, byteSize before + byteSize w.print⟩⟩)) := by
  obtain ⟨escape, hspells⟩ := w.spells
  have hescape : escape = w.body.contains '\\' := by
    rw [Bool.eq_iff_iff, hspells.escape_iff, List.contains_iff_mem]
  have hcharacters : Rule.string scope ⟨byteSize before, w.print ++ after⟩ =
      some (.literal ⟨.string s, String.ofList w.print, w.body.contains '\\',
        ⟨byteSize before, byteSize before + byteSize w.print⟩⟩) := by
    refine string_eq_some_iff.mpr
      ⟨quote, w.body, s.toList, escape, after, quote.2, hspells, rfl, ?_⟩
    rw [String.ofList_toList, hescape]
    rfl
  have hstands := Bytes.stands_place (List.suffix_append before (w.print ++ after))
  rw [Bytes.place_append_self] at hstands
  rw [Cursor.atOffset_append]
  exact ⟨hcharacters, hstands.string_eq.trans (congrArg Except.ok hcharacters)⟩

/-- Five characters, each written in another way. -/
private def mixedWriting : Writing '"' "é😀\nx\"".toList :=
  .cons (.unit (fun i => i = 2) (by decide)) <|
  .cons (.pair (fun _ => true) (fun _ => false) (by decide)) <|
  .cons (.short 'n' (by decide)) <|
  .cons (.raw (by decide) (by decide)) <|
  .cons (.escaped (by decide)) .nil

example : mixedWriting.print = "\"\\u00E9\\uD83D\\ude00\\nx\\\"\"".toList := by decide

end TemplateReader
