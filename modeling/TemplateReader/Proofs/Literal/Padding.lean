import Mathlib.Tactic.SplitIfs
import TemplateReader.Proofs.Grammar.Boundary
import TemplateReader.Proofs.Literal.Whole

/-!
# Blanks around a text

No token ends with a blank, and a blank behind a token decides no alternative, so
whatever a rule finds in a text, it finds in the text with blanks behind it, and
nothing else. Errors stay the same as well: a preview is a first word, and the offset
of an error is that of a character which is no blank, or of the beginning.
-/

namespace TemplateReader

section

variable {s s' : Scope} {c : Char} {k : Nat} {text x rest w word : List Char} {t : Token}
  {p : Char → Bool}

/-- A blank is no word character. -/
theorem isWordChar_eq_false_of_isBlankChar (h : isBlankChar c = true) : isWordChar c = false := by
  rw [Bool.eq_false_iff]
  intro hword
  rw [IsValueEnd.isBlankChar_eq_false (Or.inl hword)] at h
  cases h

/-- A blank is no digit. -/
theorem isDigit_eq_false_of_isBlankChar (h : isBlankChar c = true) : c.isDigit = false := by
  rw [Bool.eq_false_iff]
  intro hdigit
  rw [IsValueEnd.isBlankChar_eq_false (Or.inl (isWordChar_of_isDigit hdigit))] at h
  cases h

/-- What does not end with a blank lies before the blanks at the end of a text. -/
theorem exists_of_append_blank (hw : isBlank w = true) (hx : EndsWith IsValueEnd x)
    (h : text ++ w = x ++ rest) : ∃ tail, text = x ++ tail ∧ rest = tail ++ w := by
  rcases List.append_eq_append_iff.mp h with ⟨mid, hmid, rfl⟩ | ⟨tail, htext, hrest⟩
  · obtain ⟨front, last, rfl, hlast⟩ := hx
    rcases List.eq_nil_or_concat mid with rfl | ⟨mid, c, rfl⟩
    · rw [List.append_nil] at hmid
      exact ⟨[], by rw [hmid, List.append_nil], rfl⟩
    · rw [List.concat_eq_append, ← List.append_assoc] at hmid
      obtain rfl := List.cons.inj (List.append_inj_right' hmid rfl) |>.1
      have hblank : isBlankChar last = true :=
        List.all_eq_true.mp hw last (List.mem_append_left _ (by simp))
      rw [hlast.isBlankChar_eq_false] at hblank
      cases hblank
  · exact ⟨tail, htext, hrest⟩

/-- A blank behind a text begins with no character of a kind that has no blanks. -/
theorem head?_append_blank_iff (hp : ∀ {c}, isBlankChar c = true → p c = false)
    (hw : isBlank w = true) :
    (∀ c ∈ (text ++ w).head?, p c = false) ↔ ∀ c ∈ text.head?, p c = false := by
  cases text with
  | nil =>
    refine iff_of_true ?_ nofun
    intro c hc
    exact hp (List.all_eq_true.mp hw c (List.mem_of_head? hc))
  | cons c text => rfl

/-- Blanks behind a text do not lengthen a run of characters none of which is blank. -/
theorem takeWhile_append_blank (hp : ∀ {c}, isBlankChar c = true → p c = false)
    (hw : isBlank w = true) : (text ++ w).takeWhile p = text.takeWhile p := by
  induction text with
  | nil =>
    cases w with
    | nil => rfl
    | cons c w =>
      have hc := hp (List.all_eq_true.mp hw c List.mem_cons_self)
      rw [List.nil_append, List.takeWhile_cons, hc]
      rfl
  | cons c text ih => rw [List.cons_append, List.takeWhile_cons, List.takeWhile_cons, ih]

/-- A word ends as a value may. -/
theorem IsWord.endsWith (h : IsWord x) : EndsWith IsValueEnd x :=
  endsWith_of_forall h.ne_nil fun c hc => Or.inl (h.2 c hc)

/-- A whole number ends as a value may. -/
theorem IsWhole.endsWith (h : IsWhole x) : EndsWith IsValueEnd x := by
  obtain ⟨sign, digits, rfl, -, hne, hdigits⟩ := h
  have hends : EndsWith IsValueEnd digits :=
    endsWith_of_forall hne fun c hc => Or.inl (isWordChar_of_isDigit (hdigits c hc))
  exact hends.append sign

/-- A reserved word stands at the front of a text with or without blanks behind it. -/
theorem beginsWithWord_append_blank (hw : isBlank w = true) (hword : EndsWith IsValueEnd word) :
    beginsWithWord word (text ++ w) = beginsWithWord word text := by
  rw [Bool.eq_iff_iff, beginsWithWord_iff, beginsWithWord_iff]
  constructor
  · rintro ⟨rest, htext, hrest⟩
    obtain ⟨tail, rfl, rfl⟩ := exists_of_append_blank hw hword htext
    exact ⟨tail, rfl, (head?_append_blank_iff isWordChar_eq_false_of_isBlankChar hw).mp hrest⟩
  · rintro ⟨rest, rfl, hrest⟩
    exact ⟨rest ++ w, List.append_assoc ..,
      (head?_append_blank_iff isWordChar_eq_false_of_isBlankChar hw).mpr hrest⟩

/-- Digits are split off a text with or without blanks behind it. -/
theorem splitDigits?_append_blank (hw : isBlank w = true) :
    splitDigits? (text ++ w) =
      (splitDigits? text).map fun (digits, rest) => (digits, rest ++ w) := by
  apply Option.ext
  rintro ⟨digits, rest⟩
  simp only [Option.map_eq_some_iff, Prod.exists, Prod.mk.injEq, splitDigits?_eq_some_iff]
  constructor
  · rintro ⟨htext, hdigits, hrest⟩
    obtain ⟨tail, rfl, rfl⟩ := exists_of_append_blank hw hdigits.endsWith htext
    exact ⟨digits, tail, ⟨rfl, hdigits,
      (head?_append_blank_iff isDigit_eq_false_of_isBlankChar hw).mp hrest⟩, rfl, rfl⟩
  · rintro ⟨_, tail, ⟨rfl, hdigits, htail⟩, rfl, rfl⟩
    exact ⟨List.append_assoc .., hdigits,
      (head?_append_blank_iff isDigit_eq_false_of_isBlankChar hw).mpr htail⟩

/-- Blanks behind a text do not matter to the rule for null. -/
theorem null_append_blank (hw : isBlank w = true) :
    Rule.null s ⟨k, text ++ w⟩ = Rule.null s' ⟨k, text⟩ := by
  have hnull : EndsWith IsValueEnd "null".toList := ⟨['n', 'u', 'l'], 'l', rfl, Or.inl rfl⟩
  unfold Rule.null
  rw [beginsWithWord_append_blank hw hnull]
  rfl

/-- Blanks behind a text do not matter to the rule for booleans. -/
theorem boolean_append_blank (hw : isBlank w = true) :
    Rule.boolean s ⟨k, text ++ w⟩ = Rule.boolean s' ⟨k, text⟩ := by
  have htrue : EndsWith IsValueEnd "true".toList := ⟨['t', 'r', 'u'], 'e', rfl, Or.inl rfl⟩
  have hfalse : EndsWith IsValueEnd "false".toList := ⟨['f', 'a', 'l', 's'], 'e', rfl, Or.inl rfl⟩
  unfold Rule.boolean
  rw [beginsWithWord_append_blank hw htrue, beginsWithWord_append_blank hw hfalse]
  rfl

/-- Blanks behind a text do not matter to the rule for strings. -/
theorem string_append_blank (hw : isBlank w = true) :
    Rule.string s ⟨k, text ++ w⟩ = Rule.string s' ⟨k, text⟩ := by
  apply Option.ext
  intro t
  rw [string_eq_some_iff, string_eq_some_iff]
  constructor
  · rintro ⟨quote, body, value, escape, rest, hquote, hspells, htext, rfl⟩
    have hends : EndsWith IsValueEnd (quote :: (body ++ [quote])) :=
      ⟨quote :: body, quote, rfl, Or.inr (Or.inl hquote)⟩
    obtain ⟨tail, htail, -⟩ := exists_of_append_blank hw hends htext
    exact ⟨quote, body, value, escape, tail, hquote, hspells, htail, rfl⟩
  · rintro ⟨quote, body, value, escape, rest, hquote, hspells, htext, rfl⟩
    refine ⟨quote, body, value, escape, rest ++ w, hquote, hspells, ?_, rfl⟩
    dsimp only at htext ⊢
    rw [htext, List.append_assoc]

/-- Blanks behind a text do not matter to the rule for integers. -/
theorem integer_append_blank (hw : isBlank w = true) :
    Rule.integer s ⟨k, text ++ w⟩ = Rule.integer s' ⟨k, text⟩ := by
  unfold Rule.integer
  dsimp only
  rw [splitDigits?_append_blank hw]
  cases splitDigits? text with
  | none => rfl
  | some split => rfl

/-- Blanks behind a text do not matter to the rule for floats. -/
theorem float_append_blank (hw : isBlank w = true) :
    Rule.float s ⟨k, text ++ w⟩ = Rule.float s' ⟨k, text⟩ := by
  unfold Rule.float
  dsimp only
  rw [splitDigits?_append_blank hw]
  cases splitDigits? text with
  | none => rfl
  | some split =>
    obtain ⟨whole, rest⟩ := split
    simp only [Option.map_some, Option.bind_eq_bind, Option.bind_some]
    cases rest with
    | nil =>
      cases w with
      | nil => rfl
      | cons c w =>
        have hpoint : c ≠ '.' := by
          rintro rfl
          cases hw
        rw [List.nil_append]
        split
        · next heq => exact absurd (List.cons.inj heq).1 hpoint
        · rfl
    | cons c tail =>
      rw [List.cons_append]
      by_cases hpoint : c = '.'
      · subst hpoint
        simp only [takeWhile_append_blank isDigit_eq_false_of_isBlankChar hw]
        rfl
      · split
        · next heq => exact absurd (List.cons.inj heq).1 hpoint
        · split
          · next heq => exact absurd (List.cons.inj heq).1 hpoint
          · rfl

/-- Blanks behind a text do not matter to the rule for identifiers. -/
theorem identifier_append_blank (hw : isBlank w = true) :
    Rule.identifier s ⟨k, text ++ w⟩ = Rule.identifier s' ⟨k, text⟩ := by
  unfold Rule.identifier
  congr 1
  apply Option.ext
  intro i
  rw [identifier?_eq_some_iff, identifier?_eq_some_iff]
  constructor
  · rintro ⟨x, rest, htext, hx, hrest, rfl⟩
    obtain ⟨tail, htail, rfl⟩ := exists_of_append_blank hw hx.endsWith htext
    exact ⟨x, tail, htail, hx,
      (head?_append_blank_iff isWordChar_eq_false_of_isBlankChar hw).mp hrest, rfl⟩
  · rintro ⟨x, rest, htext, hx, hrest, rfl⟩
    refine ⟨x, rest ++ w, ?_, hx,
      (head?_append_blank_iff isWordChar_eq_false_of_isBlankChar hw).mpr hrest, rfl⟩
    dsimp only at htext ⊢
    rw [htext, List.append_assoc]

/-- What does not end with a blank is passed in a text with or without blanks behind it. -/
theorem exists_passes_append_blank_iff (hw : isBlank w = true) (hx : EndsWith IsValueEnd x) :
    (∃ d, Cursor.Passes ⟨k, text ++ w⟩ x d) ↔ ∃ d, Cursor.Passes ⟨k, text⟩ x d := by
  constructor
  · rintro ⟨d, hpasses⟩
    obtain ⟨tail, htext, -⟩ := exists_of_append_blank hw hx hpasses.rest
    exact ⟨⟨d.offset, tail⟩, htext, hpasses.offset⟩
  · rintro ⟨d, hpasses⟩
    refine ⟨⟨d.offset, d.rest ++ w⟩, ?_, hpasses.offset⟩
    rw [← List.append_assoc, ← hpasses.rest]

/-- What is written as a container is written so in a text with or without blanks behind it. -/
theorem exists_container_append_blank_iff {R : Nat → List Char → Token → Prop}
    (hw : isBlank w = true) {q : Prop} :
    (∃ x d, q ∧ Cursor.Passes ⟨k, text ++ w⟩ x d ∧ ContainerText R k x t) ↔
      ∃ x d, q ∧ Cursor.Passes ⟨k, text⟩ x d ∧ ContainerText R k x t := by
  constructor
  · rintro ⟨x, d, hq, hpasses, hx⟩
    obtain ⟨d', hpasses'⟩ := (exists_passes_append_blank_iff hw hx.endsWith).mp ⟨d, hpasses⟩
    exact ⟨x, d', hq, hpasses', hx⟩
  · rintro ⟨x, d, hq, hpasses, hx⟩
    obtain ⟨d', hpasses'⟩ := (exists_passes_append_blank_iff hw hx.endsWith).mpr ⟨d, hpasses⟩
    exact ⟨x, d', hq, hpasses', hx⟩

/-- A container is found in a text with or without blanks behind it, if the values in it are read
alike. -/
theorem containerRule_append_blank {R : Nat → List Char → Token → Prop} {r : Rule}
    (hr : r = Rule.object ∨ r = Rule.array) (hw : isBlank w = true)
    (hlevel : s.level < s.limit ↔ s'.level < s'.limit)
    (hvalue : ReadsValue (fun c => Scope.matchAt { s with level := s.level + 1 } c dataNames) R)
    (hvalue' : ReadsValue (fun c => Scope.matchAt { s' with level := s'.level + 1 } c dataNames) R) :
    r s ⟨k, text ++ w⟩ = r s' ⟨k, text⟩ := by
  by_cases hbelow : s.level < s.limit
  · have hbelow' := hlevel.mp hbelow
    apply Option.ext
    intro t
    rcases hr with rfl | rfl
    · rw [object_eq_some_iff hbelow hvalue, object_eq_some_iff hbelow' hvalue']
      exact exists_congr fun o => exists_container_append_blank_iff hw
    · rw [array_eq_some_iff hbelow hvalue, array_eq_some_iff hbelow' hvalue']
      exact exists_congr fun elements => exists_congr fun span =>
        exists_container_append_blank_iff hw
  · rw [containerRule_eq_none hr hbelow, containerRule_eq_none hr (fun h => hbelow (hlevel.mpr h))]

/-- A value is found in a text with or without blanks behind it, if the values in it are read
alike. -/
theorem valueAt_append_blank (s s' : Scope) {R : Nat → List Char → Token → Prop}
    (hw : isBlank w = true)
    (hlevel : s.level < s.limit ↔ s'.level < s'.limit)
    (hvalue : ReadsValue (fun c => Scope.matchAt { s with level := s.level + 1 } c dataNames) R)
    (hvalue' : ReadsValue (fun c => Scope.matchAt { s' with level := s'.level + 1 } c dataNames) R) :
    valueAt s ⟨k, text ++ w⟩ = valueAt s' ⟨k, text⟩ := by
  refine Registry.firstMatch_congr ?_
  simp only [valueRules, List.forall_mem_cons]
  exact ⟨null_append_blank hw, boolean_append_blank hw, string_append_blank hw,
    float_append_blank hw, integer_append_blank hw,
    containerRule_append_blank (Or.inl rfl) hw hlevel hvalue hvalue',
    containerRule_append_blank (Or.inr rfl) hw hlevel hvalue hvalue', identifier_append_blank hw,
    List.forall_mem_nil _⟩

/-- With fuel for every level of nesting, blanks behind a text change no value at its beginning. -/
theorem dataAt_append_blank (hw : isBlank w = true) {source source' : List Char}
    {index index' fuel fuel' level : Nat} (hfuel : Lexer.nestingLimit < fuel)
    (hfuel' : Lexer.nestingLimit < fuel') :
    dataAt source index fuel level ⟨k, text ++ w⟩ = dataAt source' index' fuel' level ⟨k, text⟩ := by
  obtain ⟨fuel, rfl⟩ : ∃ f, fuel = f + 1 := ⟨fuel - 1, by omega⟩
  obtain ⟨fuel', rfl⟩ : ∃ f, fuel' = f + 1 := ⟨fuel' - 1, by omega⟩
  have hlimit : 0 < Lexer.nestingLimit := Nat.succ_pos _
  have hlevels : Lexer.nestingLimit - (level + 1) < fuel := by omega
  have hlevels' : Lexer.nestingLimit - (level + 1) < fuel' := by omega
  exact valueAt_append_blank (Registry.standard.scope Lexer.nestingLimit source index fuel level)
    (Registry.standard.scope Lexer.nestingLimit source' index' fuel' level) hw Iff.rfl
    (readsValue_dataWithin Lexer.nestingLimit source index hlevels)
    (readsValue_dataWithin Lexer.nestingLimit source' index' hlevels')

/-- Blanks behind a text stay when those in front are left out, unless nothing else is there. -/
theorem trimStart_append_blank (hw : isBlank w = true) :
    trimStart (text ++ w) = if isBlank text then [] else trimStart text ++ w := by
  split
  · next hblank =>
    rw [trimStart_append_of_isBlank hblank, trimStart_eq_nil_iff.mpr hw]
  · next hblank =>
    have hne : trimStart text ≠ [] := fun hnil => hblank (trimStart_eq_nil_iff.mp hnil)
    rw [trimStart, List.dropWhile_append, if_neg]
    · rfl
    · rwa [List.isEmpty_iff]

/-- Blanks behind a text do not show in the preview of what is unexpected. -/
theorem preview_append_blank (text : List Char) (hw : isBlank w = true) :
    LexError.preview (text ++ w) = LexError.preview text := by
  have hword : firstWord (text ++ w) = firstWord text := by
    rw [firstWord, firstWord, trimStart_append_blank hw]
    split
    · next hblank => rw [trimStart_eq_nil_iff.mpr hblank]
    · exact takeWhile_append_blank (fun hc => by rw [hc]; rfl) hw
  rw [LexError.preview, LexError.preview, hword]

/-- At the front of a text the same literal is found, or the same error, with or without blanks
behind the text. -/
theorem expect_append_blank (text : List Char) (hw : isBlank w = true) :
    (∃ e, (Lexer.standard.load text).expect dataNames = .error e ∧
      (Lexer.standard.load (text ++ w)).expect dataNames = .error e) ∨
    ∃ x rest t, text = x ++ rest ∧
      (Lexer.standard.load (x ++ rest)).expect dataNames =
        .ok (t, { Lexer.standard.load (x ++ rest) with index := byteSize x }) ∧
      (Lexer.standard.load (x ++ (rest ++ w))).expect dataNames =
        .ok (t, { Lexer.standard.load (x ++ (rest ++ w)) with index := byteSize x }) := by
  have hdata : dataAt (text ++ w) 0 (Registry.standard.fuel Lexer.nestingLimit (text ++ w).length)
      0 ⟨0, text ++ w⟩ =
        dataAt text 0 (Registry.standard.fuel Lexer.nestingLimit text.length) 0 ⟨0, text⟩ :=
    dataAt_append_blank hw (lt_fuel _) (lt_fuel _)
  have hpadded := expect_dataNames (text ++ w)
  rw [hdata] at hpadded
  cases hexpect : (Lexer.standard.load text).expect dataNames with
  | error e =>
    obtain rfl := eq_of_expect_eq_error hexpect
    rw [expect_dataNames] at hexpect
    split at hexpect
    · cases hexpect
    · next hnone =>
      refine Or.inl ⟨_, rfl, ?_⟩
      rw [hpadded, hnone, preview_append_blank text hw]
  | ok found =>
    obtain ⟨t, l⟩ := found
    obtain ⟨x, rest, rfl, hx, rfl⟩ := exists_of_expect hexpect
    refine Or.inr ⟨x, rest, t, rfl, hexpect, ?_⟩
    rw [expect_dataNames] at hexpect
    split at hexpect
    · next hsome =>
      obtain ⟨rfl, -⟩ := Prod.mk.inj (Except.ok.inj hexpect)
      rw [List.append_assoc] at hpadded
      rw [hpadded, hsome]
      dsimp only
      rw [Lexer.past, hx.span]
    · cases hexpect

/-- Blanks at the end of a text change neither its literal nor its error. -/
theorem literalToken_append_blank (source : List Char) (hw : isBlank w = true) :
    literalToken (source ++ w) = literalToken source := by
  by_cases hblank : isBlank source = true
  · rw [literalToken, literalToken, trimStart_append_blank hw, if_pos hblank,
      trimStart_eq_nil_iff.mpr hblank]
  have htrim : trimStart (source ++ w) = trimStart source ++ w := by
    rw [trimStart_append_blank hw, if_neg hblank]
  rcases expect_append_blank (trimStart source) hw with
    ⟨e, hexpect, hpadded⟩ | ⟨x, rest, t, htext, hexpect, hpadded⟩
  · rw [literalToken, literalToken, htrim, hexpect, hpadded]
  · rw [htext, List.append_assoc] at htrim
    rw [literalToken_eq htrim hpadded, literalToken_eq htext hexpect, trimStart_append_blank hw]
    split_ifs with hrest
    · rw [trimStart_eq_nil_iff.mpr hrest]
    · cases hextra : trimStart rest with
      | nil => exact absurd (trimStart_eq_nil_iff.mp hextra) hrest
      | cons c extra =>
        have hpreview := preview_append_blank (c :: extra) hw
        have hsize : byteSize (rest ++ w) - byteSize (c :: extra ++ w) =
            byteSize rest - byteSize (c :: extra) := by
          rw [byteSize_append, byteSize_append, Nat.add_sub_add_right]
        rw [List.cons_append] at hpreview hsize ⊢
        dsimp only
        rw [hpreview, hsize]

end

/-- Blanks around a text change nothing of its value under any references, nor of the error if it has
none: the same preview, the same names and the same offset, or the same missing name. -/
theorem evaluateText_padded {before after : List Char} (hbefore : isBlank before = true)
    (hafter : isBlank after = true) (source : List Char) (references : Option Fields) :
    evaluateText (before ++ (source ++ after)) references = evaluateText source references := by
  have hfront : literalToken (before ++ (source ++ after)) = literalToken (source ++ after) := by
    rw [literalToken, literalToken, trimStart_append_of_isBlank hbefore]
  rw [evaluateText, evaluateText, hfront, literalToken_append_blank source hafter]

/-- A text is refused with an error when its reading is decided to fail with it. -/
theorem literalToken_eq_error_of_decide {source : List Char} {e : LexError}
    (h : (match literalToken source with
      | .ok _ => false
      | .error e' => decide (e' = e)) = true) : literalToken source = .error e := by
  cases ht : literalToken source with
  | ok t =>
    rw [ht] at h
    cases h
  | error e' =>
    rw [ht] at h
    rw [of_decide_eq_true h]

/-- A point behind digits is no part of the number, and no blank behind it makes it one. -/
theorem evaluateText_padded_point :
    isBlank "\u2003\t".toList = true ∧ isBlank "\u00a0\n".toList = true ∧
      evaluateText ("\u2003\t".toList ++ ("12. é".toList ++ "\u00a0\n".toList)) none =
        .error (.grammar (.unexpectedToken "." [] 2)) := by
  have hbefore : isBlank "\u2003\t".toList = true := by decide
  have hafter : isBlank "\u00a0\n".toList = true := by decide
  refine ⟨hbefore, hafter, ?_⟩
  have hread : literalToken "12. é".toList = .error (.unexpectedToken "." [] 2) :=
    literalToken_eq_error_of_decide (by decide +kernel)
  rw [evaluateText_padded hbefore hafter, evaluateText, hread]

end TemplateReader
