import TemplateReader.Proofs.Literal.Printing
import TemplateReader.Script.Statement

/-!
# Reading the parts of import statements

Each reader of a part passes over whitespace first, so a gap before the part
makes no difference. What it then reads is told by the first character that is
left. For words, characters and modules the text is recovered from what was read,
and behind a word no word goes on.
-/

namespace TemplateReader

/-- Where a text stands behind a word, the word does not go on. -/
def EndsWord (rest : List Char) : Prop := ∀ c ∈ rest.head?, isWordChar c = false

/-- Some whitespace of ASCII, at least one character. -/
abbrev Break := { text : List Char // IsGap text ∧ text ≠ [] }

/-- A break is a gap as well. -/
def Break.gap (space : Break) : Gap := ⟨space.1, space.2.1⟩

section

variable {gap text word rest : List Char} {c wanted : Char}

/-- The blanks of a script are the space, the tabulator, the line feed, the form feed and the
return. -/
theorem isSpace_iff : isSpace c = true ↔ c = ' ' ∨ c = '\t' ∨ c = '\n' ∨ c = '\x0c' ∨ c = '\r' := by
  simp only [isSpace, Bool.or_eq_true, decide_eq_true_eq, or_assoc]

/-- A blank is no character of a word. -/
theorem isWordChar_of_isSpace (h : isSpace c = true) : isWordChar c = false := by
  rcases isSpace_iff.mp h with rfl | rfl | rfl | rfl | rfl <;> rfl

/-- A character of a word is no blank. -/
theorem isSpace_of_isWordChar (h : isWordChar c = true) : isSpace c = false := by
  rw [Bool.eq_false_iff]
  intro hspace
  rw [isWordChar_of_isSpace hspace] at h
  cases h

/-- A word ends in front of a character of no word. -/
theorem EndsWord.cons (h : isWordChar c = false) (rest : List Char) : EndsWord (c :: rest) := by
  rintro d ⟨⟩
  exact h

/-- A word ends in front of two texts in front of both of which it ends. -/
theorem EndsWord.append (h : EndsWord text) (hrest : EndsWord rest) : EndsWord (text ++ rest) := by
  cases text with
  | nil => exact hrest
  | cons c text => exact h

/-- A word ends in front of blanks behind which it ends. -/
theorem IsGap.endsWord_append (hgap : IsGap gap) (h : EndsWord rest) : EndsWord (gap ++ rest) := by
  cases gap with
  | nil => exact h
  | cons c gap => exact .cons (isWordChar_of_isSpace (hgap c List.mem_cons_self)) _

/-- A word ends in front of a break. -/
theorem Break.endsWord_append (space : Break) (rest : List Char) : EndsWord (space.1 ++ rest) := by
  obtain ⟨text, hgap, hne⟩ := space
  cases text with
  | nil => exact absurd rfl hne
  | cons c text => exact .cons (isWordChar_of_isSpace (hgap c List.mem_cons_self)) _

/-- Between two words there is more than nothing. -/
theorem IsWord.ne_nil_of_endsWord (hword : IsWord word) (h : EndsWord (gap ++ (word ++ rest))) :
    gap ≠ [] := by
  rintro rfl
  obtain ⟨c, hc, -⟩ := hword.1
  obtain ⟨word, rfl⟩ := List.head?_eq_some_iff.mp hc
  have hchar := hword.2 c List.mem_cons_self
  rw [h c rfl] at hchar
  cases hchar

/-- Blanks in front of a text are skipped. -/
theorem skipSpace_gap (hgap : IsGap gap) (text : List Char) :
    skipSpace (gap ++ text) = skipSpace text :=
  List.dropWhile_append_of_pos hgap

/-- In front of a character that is no blank nothing is skipped. -/
theorem skipSpace_cons (hc : isSpace c = false) (text : List Char) :
    skipSpace (c :: text) = c :: text :=
  List.dropWhile_cons_of_neg (by rw [hc]; exact Bool.false_ne_true)

/-- What is skipped in front of a text are blanks. -/
theorem exists_gap (text : List Char) : ∃ gap, IsGap gap ∧ text = gap ++ skipSpace text :=
  ⟨text.takeWhile isSpace, fun _ hch => List.all_eq_true.mp List.all_takeWhile _ hch,
    List.takeWhile_append_dropWhile.symm⟩

/-- Blanks in front of a word do not matter. -/
theorem word?_gap (hgap : IsGap gap) (text : List Char) : word? (gap ++ text) = word? text := by
  rw [word?, word?, skipSpace_gap hgap]

/-- Blanks in front of a wanted character do not matter. -/
theorem eat?_gap (hgap : IsGap gap) (text : List Char) :
    eat? wanted (gap ++ text) = eat? wanted text := by
  rw [eat?, eat?, skipSpace_gap hgap]

/-- Blanks in front of a wanted word do not matter. -/
theorem keyword?_gap (hgap : IsGap gap) (keyword : String) (text : List Char) :
    keyword? keyword (gap ++ text) = keyword? keyword text := by
  rw [keyword?, keyword?, word?_gap hgap]

/-- Blanks in front of a module do not matter. -/
theorem module?_gap (hgap : IsGap gap) (text : List Char) :
    module? (gap ++ text) = module? text := by
  rw [module?, module?, skipSpace_gap hgap]

/-- A word is read up to where it ends. -/
theorem IsWord.word? (hword : IsWord word) (hrest : EndsWord rest) :
    TemplateReader.word? (word ++ rest) = some (word, rest) := by
  obtain ⟨first, hfirst, hstart⟩ := hword.1
  obtain ⟨others, rfl⟩ := List.head?_eq_some_iff.mp hfirst
  have hspace := isSpace_of_isWordChar (isWordChar_of_isWordStart hstart)
  obtain ⟨htake, hdrop⟩ := takeWhile_append_of_ends
    (fun c hc => hword.2 c (List.mem_cons_of_mem _ hc)) hrest
  rw [TemplateReader.word?, List.cons_append, skipSpace_cons hspace]
  dsimp only
  rw [if_pos hstart, htake, hdrop]

/-- At a character that starts no word there is none. -/
theorem word?_cons_eq_none (hspace : isSpace c = false) (hc : isWordStart c = false)
    (text : List Char) : word? (c :: text) = none := by
  rw [word?, skipSpace_cons hspace]
  dsimp only
  rw [if_neg (by rw [hc]; exact Bool.false_ne_true)]

/-- A word stands behind a gap where it is read, and does not go on. -/
theorem exists_of_word? (h : word? text = some (word, rest)) :
    ∃ gap, IsGap gap ∧ text = gap ++ (word ++ rest) ∧ IsWord word ∧ EndsWord rest := by
  obtain ⟨gap, hgap, htext⟩ := exists_gap text
  rw [word?] at h
  split at h
  · cases h
  · next c tail hskip =>
    split at h
    · next hstart =>
      simp only [Option.some.injEq, Prod.mk.injEq] at h
      obtain ⟨rfl, rfl⟩ := h
      refine ⟨gap, hgap, ?_, ⟨⟨c, rfl, hstart⟩, ?_⟩, head?_dropWhile_eq_false _ _⟩
      · rw [htext, hskip, List.cons_append, List.takeWhile_append_dropWhile]
      · intro d hd
        rcases List.mem_cons.mp hd with rfl | hd
        · exact isWordChar_of_isWordStart hstart
        · exact List.all_eq_true.mp List.all_takeWhile d hd
    · cases h

/-- A wanted word is read where it ends. -/
theorem IsWord.keyword? {keyword : String} (hkeyword : IsWord keyword.toList)
    (hrest : EndsWord rest) :
    TemplateReader.keyword? keyword (keyword.toList ++ rest) = some rest := by
  rw [TemplateReader.keyword?, hkeyword.word? hrest]
  exact if_pos rfl

/-- Where another word is read, a keyword is not. -/
theorem IsWord.keyword?_eq_none {keyword : String} (hword : IsWord word)
    (hne : word ≠ keyword.toList) (hrest : EndsWord rest) :
    TemplateReader.keyword? keyword (word ++ rest) = none := by
  rw [TemplateReader.keyword?, hword.word? hrest]
  exact if_neg hne

/-- Where no word is, no wanted word is. -/
theorem keyword?_eq_none (h : word? text = none) (keyword : String) :
    keyword? keyword text = none := by
  rw [keyword?, h]

/-- A wanted word that is read is a word. -/
theorem word?_of_keyword? {keyword : String} (h : keyword? keyword text = some rest) :
    word? text = some (keyword.toList, rest) := by
  rw [keyword?] at h
  split at h
  · next word tail hword =>
    split at h
    · next heq =>
      obtain rfl := Option.some.inj h
      rw [hword, heq]
    · cases h
  · cases h

/-- A wanted character is read where it stands. -/
theorem eat?_cons_self (hc : isSpace c = false) (text : List Char) :
    eat? c (c :: text) = some text := by
  rw [eat?, skipSpace_cons hc]
  exact if_pos rfl

/-- Where another character stands, the wanted one is not read. -/
theorem eat?_cons_ne (hc : isSpace c = false) (hne : c ≠ wanted) (text : List Char) :
    eat? wanted (c :: text) = none := by
  rw [eat?, skipSpace_cons hc]
  exact if_neg hne

/-- A character that begins no word is not read where a word stands. -/
theorem IsWord.eat?_eq_none (hword : IsWord word) (hwanted : isWordStart wanted = false)
    (rest : List Char) : TemplateReader.eat? wanted (word ++ rest) = none := by
  obtain ⟨first, hfirst, hstart⟩ := hword.1
  obtain ⟨others, rfl⟩ := List.head?_eq_some_iff.mp hfirst
  apply eat?_cons_ne (isSpace_of_isWordChar (isWordChar_of_isWordStart hstart))
  rintro rfl
  rw [hstart] at hwanted
  cases hwanted

/-- A wanted character that is read stands behind blanks. -/
theorem exists_of_eat? (h : eat? wanted text = some rest) :
    ∃ gap, IsGap gap ∧ text = gap ++ wanted :: rest := by
  obtain ⟨gap, hgap, htext⟩ := exists_gap text
  rw [eat?] at h
  split at h
  · cases h
  · next c tail hskip =>
    split at h
    · next hc =>
      obtain rfl := Option.some.inj h
      exact ⟨gap, hgap, by rw [htext, hskip, hc]⟩
    · cases h

/-- A quote is no blank. -/
theorem isSpace_of_isTagQuote (h : isTagQuote c = true) : isSpace c = false := by
  rcases isTagQuote_iff.mp h with rfl | rfl <;> rfl

/-- A quote starts no word. -/
theorem isWordStart_of_isTagQuote (h : isTagQuote c = true) : isWordStart c = false := by
  rcases isTagQuote_iff.mp h with rfl | rfl <;> rfl

/-- A module is read from its quotes. -/
theorem module?_quoted {quote : Char} (hquote : isTagQuote quote = true) {inner : List Char}
    (hinner : FillsQuote quote inner) (rest : List Char) :
    module? (quote :: (inner ++ quote :: rest)) = some (String.ofList inner, rest) := by
  rw [module?, skipSpace_cons (isSpace_of_isTagQuote hquote)]
  dsimp only
  rw [if_pos hquote, splitQuote_eq_some_iff.mpr ⟨rfl, hinner⟩]
  rfl

/-- At a character that is no quote there is no module. -/
theorem module?_cons_eq_none (hspace : isSpace c = false) (hc : isTagQuote c = false)
    (text : List Char) : module? (c :: text) = none := by
  rw [module?, skipSpace_cons hspace]
  exact if_neg (by rw [hc]; exact Bool.false_ne_true)

/-- A word is no module. -/
theorem IsWord.module?_eq_none (hword : IsWord word) (rest : List Char) :
    TemplateReader.module? (word ++ rest) = none := by
  obtain ⟨first, hfirst, hstart⟩ := hword.1
  obtain ⟨others, rfl⟩ := List.head?_eq_some_iff.mp hfirst
  apply module?_cons_eq_none (isSpace_of_isWordChar (isWordChar_of_isWordStart hstart))
  rw [Bool.eq_false_iff]
  intro hquote
  rw [isWordStart_of_isTagQuote hquote] at hstart
  cases hstart

/-- A module that is read stands between quotes behind blanks. -/
theorem exists_of_module? {source : String} (h : module? text = some (source, rest)) :
    ∃ gap quote inner, IsGap gap ∧ isTagQuote quote = true ∧ FillsQuote quote inner ∧
      text = gap ++ quote :: (inner ++ quote :: rest) ∧ source = String.ofList inner := by
  obtain ⟨gap, hgap, htext⟩ := exists_gap text
  rw [module?] at h
  split at h
  · cases h
  · next c tail hskip =>
    split at h
    · next hquote =>
      obtain ⟨⟨inner, rest'⟩, hsplit, heq⟩ := Option.map_eq_some_iff.mp h
      obtain ⟨rfl, rfl⟩ := Prod.mk.inj heq
      obtain ⟨rfl, hinner⟩ := splitQuote_eq_some_iff.mp hsplit
      exact ⟨gap, c, inner, hgap, hquote, hinner, by rw [htext, hskip], rfl⟩
    · cases h

end

end TemplateReader
