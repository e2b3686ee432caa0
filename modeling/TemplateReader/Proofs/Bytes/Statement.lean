import Mathlib.Data.List.DropRight
import TemplateReader.Bytes.Script
import TemplateReader.Proofs.Bytes.Delimiter

/-!
# Import statements by bytes and by characters

Each reader of the grammar of imports, started at the place of a text, finds by
bytes what it finds by characters, and stops at the place of what is left. A
reader that found nothing may stop behind the whitespace that it skipped; every
reader skips whitespace first, so that the next one finds the same from there.
-/

namespace TemplateReader.Bytes

section

variable {text rest word : List Char}

/-- What is behind whitespace is a final part of the text. -/
theorem skipSpace_suffix (text : List Char) : skipSpace text <:+ text := List.dropWhile_suffix _

/-- What is behind a word is a final part of the text. -/
theorem suffix_of_word? (h : word? text = some (word, rest)) : rest <:+ text := by
  refine List.IsSuffix.trans ?_ (skipSpace_suffix text)
  unfold word? at h
  split at h
  · cases h
  · next c tail hc =>
    split at h
    · simp only [Option.some.injEq, Prod.mk.injEq] at h
      rw [hc, ← h.2]
      exact (List.dropWhile_suffix _).trans (List.suffix_cons _ _)
    · cases h

/-- What is behind a wanted character is a final part of the text. -/
theorem suffix_of_eat? {wanted : Char} (h : eat? wanted text = some rest) : rest <:+ text := by
  refine List.IsSuffix.trans ?_ (skipSpace_suffix text)
  unfold eat? at h
  split at h
  · cases h
  · next c tail hc =>
    split at h
    · simp only [Option.some.injEq] at h
      rw [hc, ← h]
      exact List.suffix_cons _ _
    · cases h

/-- What is behind a wanted word is a final part of the text. -/
theorem suffix_of_keyword? {wanted : String} (h : keyword? wanted text = some rest) :
    rest <:+ text := by
  unfold keyword? at h
  split at h
  · next word tail hw =>
    split at h
    · simp only [Option.some.injEq] at h
      exact h ▸ suffix_of_word? hw
    · cases h
  · cases h

/-- What is behind a module is a final part of the text. -/
theorem suffix_of_module? {source : String} (h : module? text = some (source, rest)) :
    rest <:+ text := by
  refine List.IsSuffix.trans ?_ (skipSpace_suffix text)
  unfold module? at h
  split at h
  · cases h
  · next c tail hc =>
    split at h
    · simp only [Option.map_eq_some_iff, Prod.exists, Prod.mk.injEq] at h
      obtain ⟨inner, r, hq, -, rfl⟩ := h
      rw [hc, eq_append_of_splitQuote hq]
      exact ⟨c :: inner ++ [c], by simp⟩
    · cases h

/-- What is behind the name that an import binds is a final part of the text. -/
theorem suffix_of_binding? {imported name : List Char}
    (h : binding? imported text = some (name, rest)) : rest <:+ text := by
  unfold binding? at h
  split at h
  · next hk => exact (suffix_of_word? h).trans (suffix_of_keyword? hk)
  · simp only [Option.some.injEq, Prod.mk.injEq] at h
    exact h.2 ▸ List.suffix_rfl

/-- Whitespace that was skipped is not there to be skipped again. -/
theorem skipSpace_skipSpace (text : List Char) : skipSpace (skipSpace text) = skipSpace text :=
  List.dropWhile_idempotent _ _

/-- Whitespace in front of a word does not matter. -/
theorem word?_skipSpace (text : List Char) : word? (skipSpace text) = word? text := by
  rw [word?, word?, skipSpace_skipSpace]

/-- Whitespace in front of a wanted character does not matter. -/
theorem eat?_skipSpace (wanted : Char) (text : List Char) :
    eat? wanted (skipSpace text) = eat? wanted text := by
  rw [eat?, eat?, skipSpace_skipSpace]

/-- Whitespace in front of an entry does not matter. -/
theorem specifier?_skipSpace (text : List Char) :
    specifier? (skipSpace text) = specifier? text := by
  rw [specifier?, specifier?, word?_skipSpace]

/-- A character can be read exactly where it is the next one behind any whitespace. -/
theorem eat?_isSome_iff {wanted : Char} :
    (eat? wanted text).isSome ↔ (skipSpace text).head? = some wanted := by
  rw [eat?]
  cases skipSpace text with
  | nil => simp
  | cons c tail =>
    by_cases hc : c = wanted
    · simp [hc]
    · simp [hc]

/-- Whitespace in front of a wanted word does not matter. -/
theorem keyword?_skipSpace (wanted : String) (text : List Char) :
    keyword? wanted (skipSpace text) = keyword? wanted text := by
  rw [keyword?, keyword?, word?_skipSpace]

end

section

variable {s text : List Char}

/-- At the place of a final part, whitespace is skipped by bytes as by characters. -/
theorem skipSpaceAt_place (h : text <:+ s) :
    skipSpaceAt s (place s text) = .ok (place s (skipSpace text)) :=
  runEnd_place_end isNarrow_isSpace.isEven h

/-- A single character is read where it stands behind any whitespace. -/
theorem eat_place {wanted : Char} (hwanted : ¬IsWide wanted) (h : text <:+ s) :
    eat s wanted (place s text) =
      .ok (match eat? wanted text with
        | some rest => (true, place s rest)
        | none => (false, place s (skipSpace text))) := by
  have hspace := (skipSpace_suffix text).trans h
  rw [eat, skipSpaceAt_place h, ok_bind, eat?]
  simp only [byte?_eq_some_place_iff hwanted hspace]
  cases hs : skipSpace text with
  | nil => rfl
  | cons c tail =>
    rw [hs] at hspace
    simp only [List.head?_cons, Option.some.injEq]
    by_cases hc : c = wanted
    · subst hc
      rw [place_cons_of_not_isWide hspace hwanted]
      simp only [if_true, pure_eq_ok]
    · simp only [hc, if_false, pure_eq_ok]

/-- A word is read where it stands behind any whitespace. -/
theorem word_place (h : text <:+ s) :
    word s (place s text) = .ok ((word? text).map fun p => (p.1, place s p.2)) := by
  have hspace := (skipSpace_suffix text).trans h
  rw [word, skipSpaceAt_place h, ok_bind, byte?_any_place isNarrow_isWordStart hspace, word?]
  cases hs : skipSpace text with
  | nil => rfl
  | cons c tail =>
    rw [hs] at hspace
    by_cases hc : isWordStart c = true
    · have hword := isWordChar_of_isWordStart hc
      simp only [List.head?_cons, Option.any_some, hc, if_true]
      rw [runEnd_place_end isNarrow_isWordChar.isEven hspace, ok_bind,
        sliceAt_takeWhile_end hspace, List.takeWhile_cons, List.dropWhile_cons, if_pos hword,
        if_pos hword]
      rfl
    · simp only [List.head?_cons, Option.any_some, hc, Bool.false_eq_true, if_false]
      rfl

/-- At the place of a final part, the next word is the same by bytes and by characters. -/
theorem peekWord_place (h : text <:+ s) :
    peekWord s (place s text) = .ok ((word? text).map Prod.fst) := by
  rw [peekWord, word_place h]
  cases word? text <;> rfl

/-- At the place of a final part, a wanted word is read by bytes as by characters. -/
theorem keyword_place {wanted : String} (h : text <:+ s) :
    keyword s wanted (place s text) = .ok ((keyword? wanted text).map (place s)) := by
  rw [keyword, peekWord_place h, ok_bind, word_place h, keyword?]
  cases word? text with
  | none => rfl
  | some p =>
    obtain ⟨found, rest⟩ := p
    simp only [Option.map_some, Option.some.injEq]
    by_cases hfound : found = wanted.toList
    · rw [if_pos hfound, if_pos hfound]
      rfl
    · rw [if_neg hfound, if_neg hfound]
      rfl

/-- A module is read where it stands behind any whitespace. -/
theorem moduleName_place (h : text <:+ s) :
    moduleName s (place s text) =
      .ok (match module? text with
        | some (source, rest) => (some source, place s rest)
        | none => (none, place s (skipSpace text))) := by
  have hspace := (skipSpace_suffix text).trans h
  rw [moduleName, skipSpaceAt_place h, ok_bind, byte?_any_place isNarrow_isTagQuote hspace, module?]
  cases hs : skipSpace text with
  | nil => rfl
  | cons c tail =>
    rw [hs] at hspace
    by_cases hc : isTagQuote c = true
    · have hascii := not_isWide_of_isTagQuote hc
      simp only [List.head?_cons, Option.any_some, hc, if_true]
      rw [findQuote_place (isScriptQuote_of_isTagQuote hc) hspace, ok_bind]
      cases hq : splitQuote c tail with
      | none => rfl
      | some p =>
        obtain ⟨inner, rest⟩ := p
        have htail := suffix_of_cons hspace
        rw [eq_append_of_splitQuote hq] at htail
        have hlast := place_cons_of_not_isWide (suffix_of_append htail) hascii
        simp only [Option.map_some]
        rw [← hlast, minus_eq (Nat.le_add_left _ _), ok_bind, Nat.add_sub_cancel,
          place_cons_of_not_isWide hspace hascii, eq_append_of_splitQuote hq, sliceAt_place htail]
        rfl
    · simp only [List.head?_cons, Option.any_some, hc, Bool.false_eq_true, if_false]
      rfl

/-- At the place of a final part, the name that an import binds is read by bytes as by characters.
-/
theorem bindingName_place {imported : List Char} (h : text <:+ s) :
    bindingName s imported (place s text) =
      .ok ((binding? imported text).map fun p => (p.1, place s p.2)) := by
  rw [bindingName, keyword_place h, ok_bind, binding?]
  cases hk : keyword? "as" text with
  | none => rfl
  | some rest => exact word_place ((suffix_of_keyword? hk).trans h)

private theorem specifier_tail {imported : List Char} {typeOnly : Bool} (h : text <:+ s) :
    (do
      match ← bindingName s imported (place s text) with
      | none => return none
      | some (binding, i) =>
        return some (⟨String.ofList imported, String.ofList binding, typeOnly⟩, i) :
      Run (Option (Specifier × Nat))) =
      .ok (((binding? imported text).bind fun p => some
        ((⟨String.ofList imported, String.ofList p.1, typeOnly⟩ : Specifier), p.2)).map
          fun p => (p.1, place s p.2)) := by
  rw [bindingName_place h, ok_bind]
  cases binding? imported text with
  | none => rfl
  | some q => rfl

/-- An entry of a braced list is read by bytes as by characters. -/
theorem specifier_place (h : text <:+ s) :
    specifier s (place s text) = .ok ((specifier? text).map fun p => (p.1, place s p.2)) := by
  rw [specifier, word_place h, ok_bind, specifier?]
  cases hw : word? text with
  | none => rfl
  | some p =>
    obtain ⟨first, rest⟩ := p
    have hrest := (suffix_of_word? hw).trans h
    simp only [Option.map_some, Option.bind_eq_bind, Option.bind_some]
    by_cases hfirst : first = "type".toList
    · rw [importedName, if_pos hfirst, word_place hrest, ok_bind]
      cases hs : word? rest with
      | none => exact specifier_tail hrest
      | some q =>
        obtain ⟨second, after⟩ := q
        have hafter := (suffix_of_word? hs).trans hrest
        simp only [Option.map_some, hfirst, decide_true, Bool.true_and]
        by_cases hsecond : (second != "as".toList) = true
        · simp only [hsecond, if_true]
          exact specifier_tail hafter
        · simp only [hsecond]
          exact specifier_tail hrest
    · rw [importedName, if_neg hfirst]
      cases hs : word? rest with
      | none => exact specifier_tail hrest
      | some q =>
        simp only [hfirst, decide_false, Bool.false_and, Bool.false_eq_true, if_false]
        exact specifier_tail hrest

/-- What is behind an entry is a final part of the text. -/
theorem suffix_of_specifier? {entry : Specifier} {rest : List Char}
    (h : specifier? text = some (entry, rest)) : rest <:+ text := by
  simp only [specifier?, Option.bind_eq_bind, Option.bind_eq_some_iff, Prod.exists,
    Option.some.injEq, Prod.mk.injEq] at h
  obtain ⟨first, after, hw, binding, left, hb, -, rfl⟩ := h
  have hafter := suffix_of_word? hw
  have hleft := suffix_of_binding? hb
  split at hleft
  · next second behind hs =>
    have hbehind := suffix_of_word? hs
    split at hleft
    · exact hleft.trans (hbehind.trans hafter)
    · exact hleft.trans hafter
  · exact hleft.trans hafter

private theorem specifierTurn_closed {before : List Specifier} {rest : List Char} (h : text <:+ s)
    (he : eat? '}' text = some rest) :
    specifierTurn s (place s text) before = .ok (.done (some (before, place s rest))) := by
  rw [specifierTurn, eat_place (by decide) h, he]
  rfl

private theorem specifierTurn_entry (before : List Specifier) {entry : Specifier}
    {rest : List Char} (h : text <:+ s) (he : eat? '}' text = none)
    (hs : specifier? text = some (entry, rest)) :
    specifierTurn s (place s text) before =
      .ok (match eat? ',' rest with
        | some after => .next (place s after) (before ++ [entry])
        | none =>
          if (eat? '}' rest).isSome then .next (place s (skipSpace rest)) (before ++ [entry])
          else .done none) := by
  have hspace := (skipSpace_suffix text).trans h
  have hrest := (suffix_of_specifier? hs).trans h
  have hbehind := (skipSpace_suffix rest).trans hrest
  rw [← specifier?_skipSpace] at hs
  rw [specifierTurn, eat_place (by decide) h, he, ok_bind]
  simp only [Bool.false_eq_true, if_false]
  rw [specifier_place hspace, hs, ok_bind]
  simp only [Option.map_some]
  rw [eat_place (by decide) hrest, ok_bind]
  cases hc : eat? ',' rest with
  | some after => rfl
  | none =>
    simp only [Bool.false_eq_true, if_false]
    rw [skipSpaceAt_place hbehind, skipSpace_skipSpace, ok_bind]
    simp only [byte?_eq_some_place_iff (show ¬IsWide '}' by decide) hbehind, eat?_isSome_iff,
      pure_eq_ok]

/-- A braced list is read by bytes as by characters. -/
theorem specifiersLoop_place (h : text <:+ s) (before : List Specifier) :
    loop (byteSize s) (specifierTurn s) (place s text) before =
      .ok ((specifiers? text).map fun p => (before ++ p.1, place s p.2)) := by
  fun_induction specifiers? text generalizing before with
  | case1 text rest he =>
    rw [loop_done (specifierTurn_closed h he), Option.map_some, List.append_nil]
  | case2 text he hs =>
    apply loop_done
    rw [← specifier?_skipSpace] at hs
    rw [specifierTurn, eat_place (by decide) h, he, ok_bind]
    simp only [Bool.false_eq_true, if_false]
    rw [specifier_place ((skipSpace_suffix text).trans h), hs]
    rfl
  | case3 text he entry after hs rest hc hlt hlt' ih =>
    have hturn := specifierTurn_entry before h he hs
    have hafter := suffix_of_specifier? hs
    have hrest := (suffix_of_eat? hc).trans hafter
    have hlength := Nat.lt_trans (length_lt_of_eat? hc) (length_lt_of_specifier? hs)
    have hplace := place_lt_of_length h (hrest.trans h) hlength
    rw [hc] at hturn
    rw [loop_next hturn hplace (Nat.lt_of_lt_of_le hplace (place_le s rest)), ih (hrest.trans h),
      Option.map_map]
    simp only [Function.comp_def, List.append_assoc, List.singleton_append]
  | case4 text he entry after hs hc rest hb =>
    have hturn := specifierTurn_entry before h he hs
    have hafter := (suffix_of_specifier? hs)
    have hspace := (skipSpace_suffix after).trans hafter
    have hlength := Nat.lt_of_le_of_lt (length_skipSpace_le after) (length_lt_of_specifier? hs)
    have hplace := place_lt_of_length h (hspace.trans h) hlength
    rw [hc, hb] at hturn
    rw [loop_next hturn hplace (Nat.lt_of_lt_of_le hplace (place_le s _))]
    rw [← eat?_skipSpace] at hb
    rw [loop_done (specifierTurn_closed (hspace.trans h) hb)]
    rfl
  | case5 text he entry after hs hc hb =>
    have hturn := specifierTurn_entry before h he hs
    rw [hc, hb] at hturn
    rw [loop_done hturn]
    rfl

/-- A braced list is read by bytes as by characters. -/
theorem specifiers_place (h : text <:+ s) :
    specifiers s (place s text) = .ok ((specifiers? text).map fun p => (p.1, place s p.2)) :=
  specifiersLoop_place h []

/-- What is behind a list of entries is a final part of the text. -/
theorem suffix_of_specifiers? {entries : List Specifier} {rest : List Char}
    (h : specifiers? text = some (entries, rest)) : rest <:+ text := by
  fun_induction specifiers? text generalizing entries rest with
  | case1 text r he =>
    simp only [Option.some.injEq, Prod.mk.injEq] at h
    exact h.2 ▸ suffix_of_eat? he
  | case2 => cases h
  | case3 text he entry after hs r hc _ _ ih =>
    simp only [Option.map_eq_some_iff, Prod.exists, Prod.mk.injEq] at h
    obtain ⟨_, _, hr, _, rfl⟩ := h
    exact (ih hr).trans ((suffix_of_eat? hc).trans (suffix_of_specifier? hs))
  | case4 text he entry after hs hc r hb =>
    simp only [Option.some.injEq, Prod.mk.injEq] at h
    exact h.2 ▸ (suffix_of_eat? hb).trans (suffix_of_specifier? hs)
  | case5 => cases h

/-- Where a star or a brace stands, the clause behind a default name is read by bytes as by
characters. -/
theorem namedClause_place {defaultName : Option String}
    {otherwise : Nat → Run (Option (ImportClause × Nat))} (h : text <:+ s)
    (hbegins : (eat? '*' text).isSome ∨ (eat? '{' text).isSome) :
    namedClause s defaultName (place s text) otherwise =
      .ok ((namedClause? defaultName text).map fun p => (p.1, place s p.2)) := by
  rw [namedClause, eat_place (by decide) h, ok_bind, namedClause?]
  cases hstar : eat? '*' text with
  | some rest =>
    have hrest := (suffix_of_eat? hstar).trans h
    simp only [if_true]
    rw [keyword_place hrest, ok_bind]
    cases hk : keyword? "as" rest with
    | none => rfl
    | some after =>
      simp only [Option.map_some]
      rw [word_place ((suffix_of_keyword? hk).trans hrest), ok_bind]
      simp only [Option.bind_eq_bind, Option.bind_some]
      cases word? after with
      | none => rfl
      | some q => rfl
  | none =>
    have hspace := (skipSpace_suffix text).trans h
    simp only [Bool.false_eq_true, if_false]
    rw [eat_place (by decide) hspace, eat?_skipSpace, ok_bind]
    cases hbrace : eat? '{' text with
    | none => simp [hstar, hbrace] at hbegins
    | some rest =>
      simp only [if_true]
      rw [specifiers_place ((suffix_of_eat? hbrace).trans h), ok_bind]
      simp only [Option.bind_eq_bind, Option.bind_some]
      cases specifiers? rest with
      | none => rfl
      | some q => rfl

/-- Where neither stands, no clause is read, and another reading goes on. -/
theorem namedClause_otherwise (defaultName : Option String)
    (otherwise : Nat → Run (Option (ImportClause × Nat))) (h : text <:+ s)
    (hstar : eat? '*' text = none) (hbrace : eat? '{' text = none) :
    namedClause s defaultName (place s text) otherwise = otherwise (place s (skipSpace text)) ∧
      namedClause? defaultName text = none := by
  have hspace := (skipSpace_suffix text).trans h
  constructor
  · rw [namedClause, eat_place (by decide) h, hstar, ok_bind]
    simp only [Bool.false_eq_true, if_false]
    rw [eat_place (by decide) hspace, eat?_skipSpace, hbrace, ok_bind, skipSpace_skipSpace]
    rfl
  · rw [namedClause?, hstar, hbrace]
    rfl

private theorem word?_eq_none {c : Char} (h : (skipSpace text).head? = some c)
    (hc : isWordStart c = false) : word? text = none := by
  obtain ⟨tail, htail⟩ := List.head?_eq_some_iff.mp h
  rw [word?, htail]
  exact if_neg (hc ▸ Bool.false_ne_true)

/-- Whitespace in front of a list of names does not matter. -/
theorem namedClause?_skipSpace (defaultName : Option String) (text : List Char) :
    namedClause? defaultName (skipSpace text) = namedClause? defaultName text := by
  rw [namedClause?, namedClause?, eat?_skipSpace, eat?_skipSpace]

/-- Whitespace in front of the names of a statement does not matter. -/
theorem clause?_skipSpace (text : List Char) : clause? (skipSpace text) = clause? text := by
  rw [clause?, clause?, word?_skipSpace, namedClause?_skipSpace]

/-- What is behind a list of names is a final part of the text. -/
theorem suffix_of_namedClause? {defaultName : Option String} {clause : ImportClause}
    {rest : List Char} (h : namedClause? defaultName text = some (clause, rest)) :
    rest <:+ text := by
  unfold namedClause? at h
  split at h
  · next r he =>
    simp only [Option.bind_eq_bind, Option.bind_eq_some_iff, Prod.exists, Option.some.injEq,
      Prod.mk.injEq] at h
    obtain ⟨r₁, hk, name, r₂, hw, -, rfl⟩ := h
    exact (suffix_of_word? hw).trans ((suffix_of_keyword? hk).trans (suffix_of_eat? he))
  · simp only [Option.bind_eq_bind, Option.bind_eq_some_iff, Prod.exists, Option.some.injEq,
      Prod.mk.injEq] at h
    obtain ⟨r₁, he, entries, r₂, hs, -, rfl⟩ := h
    exact (suffix_of_specifiers? hs).trans (suffix_of_eat? he)

private theorem namedClause_none (defaultName : Option String) (h : text <:+ s) :
    namedClause s defaultName (place s text) (fun _ => .ok none) =
      .ok ((namedClause? defaultName text).map fun p => (p.1, place s p.2)) := by
  by_cases hbegins : (eat? '*' text).isSome ∨ (eat? '{' text).isSome
  · exact namedClause_place h hbegins
  · rw [not_or, Option.not_isSome_iff_eq_none, Option.not_isSome_iff_eq_none] at hbegins
    obtain ⟨hrun, hread⟩ := namedClause_otherwise defaultName (fun _ => .ok none) h hbegins.1
      hbegins.2
    rw [hrun, hread]
    rfl

/-- A text that begins where another begins, whitespace aside. -/
def SkipsTo (s text left : List Char) : Prop := left <:+ s ∧ skipSpace left = skipSpace text

/-- A text begins where it begins. -/
theorem SkipsTo.refl (h : text <:+ s) : SkipsTo s text text := ⟨h, rfl⟩

/-- A text without the whitespace in front begins where it begins, whitespace aside. -/
theorem SkipsTo.skipSpace (h : text <:+ s) : SkipsTo s text (skipSpace text) :=
  ⟨(skipSpace_suffix text).trans h, skipSpace_skipSpace text⟩

/-- The names of an import statement are read by bytes as by characters, and the reading stops at
the same place or behind the whitespace there. -/
theorem importClause_place (h : text <:+ s) :
    match clause? text with
    | none => importClause s (place s text) = .ok none
    | some (clause, rest) => ∃ left, SkipsTo s rest left ∧
        importClause s (place s text) = .ok (some (clause, place s left)) := by
  rw [importClause, clause?]
  by_cases hbegins : (eat? '*' text).isSome ∨ (eat? '{' text).isSome
  · have hword : word? text = none := by
      rw [eat?_isSome_iff, eat?_isSome_iff] at hbegins
      rcases hbegins with hhead | hhead
      · exact word?_eq_none hhead rfl
      · exact word?_eq_none hhead rfl
    rw [namedClause_place h hbegins, hword]
    dsimp only
    cases hn : namedClause? none text with
    | none => rfl
    | some p =>
      obtain ⟨clause, rest⟩ := p
      exact ⟨rest, .refl ((suffix_of_namedClause? hn).trans h), rfl⟩
  · rw [not_or, Option.not_isSome_iff_eq_none, Option.not_isSome_iff_eq_none] at hbegins
    obtain ⟨hrun, hread⟩ := namedClause_otherwise none (defaultClause s) h hbegins.1 hbegins.2
    rw [hrun, defaultClause, word_place ((skipSpace_suffix text).trans h), word?_skipSpace, ok_bind]
    cases hw : word? text with
    | none =>
      dsimp only
      rw [hread]
      rfl
    | some p =>
      obtain ⟨name, after⟩ := p
      have hafter := (suffix_of_word? hw).trans h
      simp only [Option.map_some]
      rw [eat_place (by decide) hafter, ok_bind]
      cases hc : eat? ',' after with
      | none => exact ⟨_, .skipSpace hafter, rfl⟩
      | some rest =>
        have hrest := (suffix_of_eat? hc).trans hafter
        have hnamed := namedClause_none (some (String.ofList name)) hrest
        simp only [if_true, pure_eq_ok]
        rw [hnamed]
        cases hn : namedClause? (some (String.ofList name)) rest with
        | none => rfl
        | some q =>
          obtain ⟨clause, left⟩ := q
          exact ⟨left, .refl ((suffix_of_namedClause? hn).trans hrest), rfl⟩

private theorem clauseBegins_place (h : text <:+ s) :
    clauseBegins s (place s (skipSpace text)) = .ok (clauseFollows text) := by
  have hspace := (skipSpace_suffix text).trans h
  rw [clauseBegins, clauseFollows]
  simp only [byte?_eq_some_place_iff (show ¬IsWide '{' by decide) hspace,
    byte?_eq_some_place_iff (show ¬IsWide '*' by decide) hspace]
  rw [peekWord_place hspace, word?_skipSpace]
  by_cases hbegins : (skipSpace text).head? = some '{' ∨ (skipSpace text).head? = some '*'
  · rw [if_pos hbegins]
    rcases hbegins with hhead | hhead
    · obtain ⟨tail, hs⟩ := List.head?_eq_some_iff.mp hhead
      rw [hs]
      rfl
    · obtain ⟨tail, hs⟩ := List.head?_eq_some_iff.mp hhead
      rw [hs]
      rfl
  · rw [if_neg hbegins]
    split
    · next tail hs => exact absurd (Or.inl (by rw [hs]; rfl)) hbegins
    · next tail hs => exact absurd (Or.inr (by rw [hs]; rfl)) hbegins
    · cases word? text with
      | none => rfl
      | some p => rfl

private theorem typeMark_place (h : text <:+ s) :
    ∃ left, SkipsTo s (takeTypeMark text).2 left ∧
      typeMark s (place s text) = .ok ((takeTypeMark text).1, place s left) := by
  rw [typeMark, keyword_place h, ok_bind, takeTypeMark]
  cases hk : keyword? "type" text with
  | none => exact ⟨text, .refl h, rfl⟩
  | some rest =>
    have hrest := (suffix_of_keyword? hk).trans h
    simp only [Option.map_some]
    rw [skipSpaceAt_place hrest, ok_bind, clauseBegins_place hrest, ok_bind]
    by_cases hf : clauseFollows rest = true
    · rw [if_pos hf, if_pos hf]
      exact ⟨_, .skipSpace hrest, rfl⟩
    · rw [if_neg hf, if_neg hf]
      exact ⟨text, .refl h, rfl⟩

private theorem finish_place {statement : ImportStatement} {start : Nat} (h : text <:+ s) :
    finish s statement start (place s text) =
      .ok (statement.located ⟨start, place s ((eat? ';' text).getD text)⟩) := by
  rw [finish, eat_place (by decide) h, ok_bind]
  cases eat? ';' text with
  | none => rfl
  | some rest => rfl

private theorem fromStatement_place {start : Nat} (h : text <:+ s) :
    fromStatement s start (place s text) =
      .ok ((fromStatement? text).map fun p =>
        p.1.located ⟨start, place s ((eat? ';' p.2).getD p.2)⟩) := by
  obtain ⟨names, ⟨hnames, hskip⟩, hmark⟩ := typeMark_place h
  have hclause := importClause_place hnames
  rw [← clause?_skipSpace, hskip, clause?_skipSpace] at hclause
  rw [fromStatement, hmark, ok_bind, fromStatement?]
  dsimp only
  cases hc : clause? (takeTypeMark text).2 with
  | none =>
    rw [hc] at hclause
    rw [hclause]
    rfl
  | some p =>
    obtain ⟨clause, rest⟩ := p
    rw [hc] at hclause
    obtain ⟨left, ⟨hleft, hskip'⟩, hrun⟩ := hclause
    have hkeyword : keyword? "from" left = keyword? "from" rest := by
      rw [← keyword?_skipSpace, hskip', keyword?_skipSpace]
    rw [hrun, ok_bind]
    dsimp only
    rw [keyword_place hleft, hkeyword, ok_bind]
    simp only [Option.bind_eq_bind, Option.bind_some]
    cases hk : keyword? "from" rest with
    | none => rfl
    | some after =>
      have hafter := (suffix_of_keyword? (hkeyword.trans hk)).trans hleft
      simp only [Option.map_some, Option.bind_some]
      rw [moduleName_place hafter, ok_bind]
      cases hm : module? after with
      | none => rfl
      | some q =>
        obtain ⟨source, behind⟩ := q
        simp only [Option.bind_some]
        rw [finish_place ((suffix_of_module? hm).trans hafter)]
        rfl

/-- Whitespace in front of the names, the word `from` and the module does not matter. -/
theorem fromStatement?_skipSpace (text : List Char) :
    fromStatement? (skipSpace text) = fromStatement? text := by
  have hmark : (takeTypeMark (skipSpace text)).1 = (takeTypeMark text).1 ∧
      clause? (takeTypeMark (skipSpace text)).2 = clause? (takeTypeMark text).2 := by
    rw [takeTypeMark, takeTypeMark, keyword?_skipSpace]
    cases keyword? "type" text with
    | none => exact ⟨rfl, clause?_skipSpace text⟩
    | some rest =>
      dsimp only
      by_cases hf : clauseFollows rest = true
      · rw [if_pos hf, if_pos hf]
        exact ⟨rfl, rfl⟩
      · rw [if_neg hf, if_neg hf]
        exact ⟨rfl, clause?_skipSpace text⟩
  rw [fromStatement?, fromStatement?, hmark.1, hmark.2]

/-- What is behind the names of a statement is a final part of the text. -/
theorem suffix_of_clause? {clause : ImportClause} {rest : List Char}
    (h : clause? text = some (clause, rest)) : rest <:+ text := by
  unfold clause? at h
  split at h
  · next name after hw =>
    have hafter := suffix_of_word? hw
    dsimp only at h
    split at h
    · next behind he =>
      exact (suffix_of_namedClause? h).trans ((suffix_of_eat? he).trans hafter)
    · simp only [Option.some.injEq, Prod.mk.injEq] at h
      exact h.2 ▸ hafter
  · exact suffix_of_namedClause? h

/-- What is behind the mark of an import of types is a final part of the text. -/
theorem takeTypeMark_suffix (text : List Char) : (takeTypeMark text).2 <:+ text := by
  unfold takeTypeMark
  split
  · exact List.suffix_rfl
  · next rest hk =>
    split
    · exact suffix_of_keyword? hk
    · exact List.suffix_rfl

/-- What follows an import statement is a final part of the text. -/
theorem suffix_of_importStatement? {statement : ImportStatement} {rest : List Char}
    (h : importStatement? text = some (statement, rest)) : rest <:+ text := by
  unfold importStatement? at h
  split at h
  · simp only [Option.map_eq_some_iff, Prod.exists, Prod.mk.injEq] at h
    obtain ⟨found, left, hf, rfl, hrest⟩ := h
    have hleft : left <:+ text := by
      split at hf
      · next source after hm =>
        simp only [Option.some.injEq, Prod.mk.injEq] at hf
        exact hf.2 ▸ suffix_of_module? hm
      · simp only [fromStatement?, Option.bind_eq_bind, Option.bind_eq_some_iff, Prod.exists,
          Option.some.injEq, Prod.mk.injEq] at hf
        obtain ⟨clause, r₁, hc, r₂, hk, source, r₃, hm, -, rfl⟩ := hf
        exact (suffix_of_module? hm).trans ((suffix_of_keyword? hk).trans
          ((suffix_of_clause? hc).trans (takeTypeMark_suffix text)))
    cases he : eat? ';' left with
    | none =>
      rw [he] at hrest
      exact hrest ▸ hleft
    | some after =>
      rw [he] at hrest
      exact hrest ▸ (suffix_of_eat? he).trans hleft
  · cases h

private theorem isNarrow_opensImport : IsNarrow opensImport :=
  ((isNarrow_isSpace.or (isNarrow_eq (by decide))).or (isNarrow_eq (by decide))).or
    isNarrow_isTagQuote

/-- Behind its keyword, an import statement is read by bytes as by characters. -/
theorem parseImport_place {start : Nat} (h : text <:+ s) (hstart : start + 6 = place s text) :
    parseImport s start =
      .ok ((importStatement? text).map fun p => p.1.located ⟨start, place s p.2⟩) := by
  rw [parseImport, importStatement?]
  dsimp only
  rw [hstart, byte?_any_place isNarrow_opensImport h]
  by_cases ho : text.head?.any opensImport = true
  · rw [if_pos ho, if_pos ho, moduleName_place h, ok_bind]
    cases hm : module? text with
    | some p =>
      obtain ⟨source, rest⟩ := p
      dsimp only
      rw [finish_place ((suffix_of_module? hm).trans h)]
      rfl
    | none =>
      dsimp only
      rw [fromStatement_place ((skipSpace_suffix text).trans h), fromStatement?_skipSpace,
        Option.map_map]
      rfl
  · rw [if_neg ho, if_neg ho]
    rfl

end

end TemplateReader.Bytes
