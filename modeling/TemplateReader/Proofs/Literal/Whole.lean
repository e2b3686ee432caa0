import TemplateReader.Data.Literal
import TemplateReader.Proofs.Literal.Datum

/-!
# Texts that are one literal

A lexer loaded with a text reads a data literal from its front and moves behind
it. A text is one literal when blanks are all that stands around the literal; the
value of the literal is then the value of the text. Otherwise the text fails where
nothing is a literal, or behind the literal.
-/

namespace TemplateReader

/-- A text that nests no deeper than the limit is a data literal at its beginning. -/
def IsDatum (x : List Char) (t : Token) : Prop := DatumText Lexer.nestingLimit 0 x t

section

variable {text source x rest before after : List Char} {t : Token}

/-- What a value may end with. -/
def IsValueEnd (c : Char) : Prop := isWordChar c = true ∨ isTagQuote c = true ∨ IsClosing c

/-- The characters that values end with are no blanks. -/
theorem IsValueEnd.isBlankChar_eq_false {c : Char} (h : IsValueEnd c) : isBlankChar c = false := by
  simp only [IsValueEnd, isWordChar, Char.isAlphanum, isAlpha_iff, Char.isDigit_iff_toNat,
    Bool.or_eq_true, decide_eq_true_eq, isTagQuote_iff, IsClosing, Char.reduceToNat] at h
  have hbounds : 0x21 ≤ c.toNat ∧ c.toNat ≤ 0x7d := by
    rcases h with (((h | h) | rfl) | rfl) | (rfl | rfl) | rfl | rfl
    any_goals decide
    all_goals omega
  simp only [isBlankChar, Bool.or_eq_false_iff, Bool.and_eq_false_iff, decide_eq_false_iff_not]
  omega

/-- A blank ends every value. -/
theorem endsValue_of_isBlank (h : isBlank text = true) : EndsValue text := by
  intro c hc
  have hblank : isBlankChar c = true :=
    List.all_eq_true.mp h c (List.mem_of_head? hc)
  constructor
  · rw [Bool.eq_false_iff]
    intro hword
    rw [IsValueEnd.isBlankChar_eq_false (Or.inl hword)] at hblank
    cases hblank
  · rintro rfl
    cases hblank

/-- A text ends with a character of some kind. -/
def EndsWith (p : Char → Prop) (text : List Char) : Prop :=
  ∃ front c, text = front ++ [c] ∧ p c

/-- A text ends with what its last part ends with. -/
theorem EndsWith.append {p : Char → Prop} (h : EndsWith p text) (front : List Char) :
    EndsWith p (front ++ text) := by
  obtain ⟨front', c, rfl, hc⟩ := h
  exact ⟨front ++ front', c, (List.append_assoc ..).symm, hc⟩

/-- A text ends as all its characters are. -/
theorem endsWith_of_forall {p : Char → Prop} (hne : text ≠ []) (h : ∀ c ∈ text, p c) :
    EndsWith p text :=
  ⟨text.dropLast, text.getLast hne, (List.dropLast_concat_getLast hne).symm,
    h _ (List.getLast_mem hne)⟩

/-- A value ends with its last digit, letter, quote or bracket. -/
theorem LeafText.endsWith {k : Nat} (h : LeafText k x t) : EndsWith IsValueEnd x := by
  have hdigits {digits : List Char} (hne : digits ≠ []) (h : ∀ c ∈ digits, c.isDigit = true) :
      EndsWith IsValueEnd digits :=
    endsWith_of_forall hne fun c hc => Or.inl (isWordChar_of_isDigit (h c hc))
  cases h with
  | scalar h =>
    cases h with
    | null => exact ⟨['n', 'u', 'l'], 'l', rfl, Or.inl rfl⟩
    | true => exact ⟨['t', 'r', 'u'], 'e', rfl, Or.inl rfl⟩
    | false => exact ⟨['f', 'a', 'l', 's'], 'e', rfl, Or.inl rfl⟩
    | @string quote body _ _ hquote => exact ⟨quote :: body, quote, rfl, Or.inr (Or.inl hquote)⟩
    | float _ hne hfraction => exact ((hdigits hne hfraction).append ['.']).append _
    | integer hwhole =>
      obtain ⟨sign, digits, rfl, -, hne, h⟩ := hwhole
      exact (hdigits hne h).append sign
  | name hword => exact endsWith_of_forall hword.ne_nil fun c hc => Or.inl (hword.2 c hc)

/-- An array or an object ends as a value may. -/
theorem ContainerText.endsWith {R : Nat → List Char → Token → Prop} {k : Nat}
    (h : ContainerText R k x t) : EndsWith IsValueEnd x := by
  cases h with
  | array _ h =>
    obtain ⟨front, rfl⟩ := h.exists_append
    exact ⟨_, ']', (List.append_assoc ..).symm, Or.inr (Or.inr (Or.inl rfl))⟩
  | object _ h =>
    obtain ⟨front, rfl⟩ := h.exists_append
    exact ⟨_, '}', (List.append_assoc ..).symm, Or.inr (Or.inr (Or.inr rfl))⟩

/-- A datum ends as a value may. -/
theorem DatumText.endsWith {depth k : Nat} (h : DatumText depth k x t) : EndsWith IsValueEnd x := by
  cases depth with
  | zero => exact LeafText.endsWith h
  | succ depth =>
    rcases h with h | h
    · exact h.endsWith
    · exact h.endsWith

/-- A datum begins as a value may. -/
theorem IsDatum.head (h : IsDatum x t) : BeginsWith IsValueStart x :=
  (readsValue_dataAt x 0 (Nat.lt_succ_self _) (Nat.zero_add _)).head h

/-- The span of a datum is that of its text. -/
theorem IsDatum.span (h : IsDatum x t) : t.span = ⟨0, byteSize x⟩ := by
  rw [(readsValue_dataAt x 0 (Nat.lt_succ_self _) (Nat.zero_add _)).span h, Nat.zero_add]

/-- Blanks in front of a text are left out. -/
theorem trimStart_append_of_isBlank (h : isBlank before = true) (text : List Char) :
    trimStart (before ++ text) = trimStart text :=
  List.dropWhile_append_of_pos (List.all_eq_true.mp h)

/-- A text that begins as a value may has no blanks in front. -/
theorem BeginsWith.trimStart (h : BeginsWith IsValueStart x) : TemplateReader.trimStart x = x := by
  obtain ⟨c, hc, hstart⟩ := h
  obtain ⟨text, rfl⟩ := List.head?_eq_some_iff.mp hc
  exact List.dropWhile_cons_of_neg (by rw [hstart.isBlankChar_eq_false]; exact Bool.false_ne_true)

/-- Blanks behind a text that ends as a value may are left out. -/
theorem EndsWith.trimEnd_append (h : EndsWith IsValueEnd x) (hafter : isBlank after = true) :
    trimEnd (x ++ after) = x := by
  obtain ⟨front, c, rfl, hend⟩ := h
  have hblank : ∀ c ∈ after.reverse, isBlankChar c = true := fun c hc =>
    List.all_eq_true.mp hafter c (List.mem_reverse.mp hc)
  have hc : ¬isBlankChar c = true := by
    rw [hend.isBlankChar_eq_false]
    exact Bool.false_ne_true
  rw [trimEnd, List.reverse_append, List.dropWhile_append_of_pos hblank, List.reverse_append,
    List.reverse_singleton, List.singleton_append, List.dropWhile_cons_of_neg hc,
    List.reverse_cons, List.reverse_reverse]

/-- Trimming takes away exactly the blanks around a literal. -/
theorem IsDatum.trim (h : IsDatum x t) (hbefore : isBlank before = true)
    (hafter : isBlank after = true) : trim (before ++ (x ++ after)) = x := by
  rw [TemplateReader.trim, trimStart_append_of_isBlank hbefore,
    (h.head.append after).trimStart, h.endsWith.trimEnd_append hafter]

/-- A lexer that takes up a text has its cursor at the start. -/
theorem cursor_load (text : List Char) : (Lexer.standard.load text).cursor = ⟨0, text⟩ := by
  cases text with
  | nil => rfl
  | cons c text =>
    have hpos := c.utf8Size_pos
    have hindex : Lexer.floorBoundary (c :: text) 0 = 0 := if_neg (by omega)
    simp only [Lexer.cursor, Lexer.load, Lexer.loadAt, hindex, Cursor.atOffset, splitBytes?,
      Option.map_some, Option.getD_some]

/-- A lexer that takes up a text stands at its start. -/
theorem index_load (text : List Char) : (Lexer.standard.load text).index = 0 :=
  congrArg Cursor.offset (cursor_load text)

private theorem matchWith_dataNames (text : List Char) (index : Nat) {fuel : Nat} (hfuel : 0 < fuel)
    (level : Nat) (c : Cursor) :
    Registry.standard.matchWith Lexer.nestingLimit text index fuel level c dataNames =
      .ok (dataAt text index fuel level c) := by
  obtain ⟨fuel, rfl⟩ : ∃ f, fuel = f + 1 := ⟨fuel - 1, by omega⟩
  rfl

/-- A lexer for data literals matches values at any offset, from the level that it is on. -/
theorem Lexer.matchAt_dataNames {l : Lexer} (hl : l.registry = .standard) (offset : Nat) :
    l.matchAt offset (some dataNames) =
      .ok (dataAt l.text l.index (Registry.standard.fuel nestingLimit l.text.length) l.level
        (.atOffset l.text offset)) := by
  obtain ⟨registry, text, index, level⟩ := l
  obtain rfl := hl
  exact matchWith_dataNames text index (Nat.zero_lt_of_lt (lt_fuel text.length)) level _

/-- A data literal is expected where one stands at the front of the text. -/
theorem expect_dataNames (text : List Char) :
    (Lexer.standard.load text).expect dataNames =
      match dataAt text 0 (Registry.standard.fuel Lexer.nestingLimit text.length) 0 ⟨0, text⟩ with
      | some t => .ok (t, (Lexer.standard.load text).past t)
      | none => .error (.unexpectedToken (LexError.preview text) dataNames 0) := by
  have hmatch : (Lexer.standard.load text).matchAt (Lexer.standard.load text).index dataNames =
      .ok (dataAt text 0 (Registry.standard.fuel Lexer.nestingLimit text.length) 0 ⟨0, text⟩) := by
    have hfuel := Nat.zero_lt_of_lt (lt_fuel text.length)
    have hmatch := matchWith_dataNames text (Lexer.standard.load text).index hfuel 0
      (Lexer.standard.load text).cursor
    rw [cursor_load, index_load] at hmatch
    have hcursor : Cursor.atOffset text (Lexer.standard.load text).index = ⟨0, text⟩ :=
      cursor_load text
    change Registry.standard.matchWith Lexer.nestingLimit text _ _ 0
      (.atOffset text (Lexer.standard.load text).index) dataNames = _
    rw [hcursor, index_load]
    exact hmatch
  have hrest : (Lexer.standard.load text).rest = text := congrArg Cursor.rest (cursor_load text)
  rw [Lexer.expect, if_neg (by decide), hmatch, hrest, index_load]
  cases dataAt text 0 (Registry.standard.fuel Lexer.nestingLimit text.length) 0 ⟨0, text⟩ <;> rfl

private theorem readsValue_fuel (text : List Char) :
    ReadsValue (dataAt text 0 (Registry.standard.fuel Lexer.nestingLimit text.length) 0)
      (DatumText Lexer.nestingLimit) :=
  readsValue_dataAt text 0 (lt_fuel text.length) (Nat.zero_add _)

/-- What a lexer expects and finds is a data literal at the front of its text. -/
theorem exists_of_expect {l : Lexer}
    (h : (Lexer.standard.load text).expect dataNames = .ok (t, l)) :
    ∃ x rest, text = x ++ rest ∧ IsDatum x t ∧
      l = { Lexer.standard.load text with index := byteSize x } := by
  rw [expect_dataNames] at h
  split at h
  · next ht =>
    simp only [Except.ok.injEq, Prod.mk.injEq] at h
    obtain ⟨rfl, rfl⟩ := h
    obtain ⟨x, d, hpasses, hx⟩ := (readsValue_fuel text).sound ht
    refine ⟨x, d.rest, hpasses.rest, hx, ?_⟩
    rw [Lexer.past, IsDatum.span hx]
  · cases h

/-- A data literal is found whatever ends it, and the lexer stands behind it. -/
theorem IsDatum.expect (h : IsDatum x t) (hrest : EndsValue rest) :
    (Lexer.standard.load (x ++ rest)).expect dataNames =
      .ok (t, { Lexer.standard.load (x ++ rest) with index := byteSize x }) := by
  have hpasses : Cursor.Passes ⟨0, x ++ rest⟩ x ⟨byteSize x, rest⟩ := ⟨rfl, (Nat.zero_add _).symm⟩
  rw [expect_dataNames, (readsValue_fuel (x ++ rest)).complete hpasses h hrest]
  dsimp only
  rw [Lexer.past, h.span]

/-- Nothing is found only where no data literal begins. -/
theorem eq_of_expect_eq_error {e : LexError}
    (h : (Lexer.standard.load text).expect dataNames = .error e) :
    e = .unexpectedToken (LexError.preview text) dataNames 0 := by
  rw [expect_dataNames] at h
  split at h
  · cases h
  · exact (Except.error.inj h).symm

/-- What is left behind a part of the text is the rest of it. -/
theorem rest_eq_of_index (x rest : List Char) :
    Lexer.rest { Lexer.standard.load (x ++ rest) with index := byteSize x } = rest := by
  change ((splitBytes? (byteSize x) (x ++ rest)).map Prod.snd).getD [] = rest
  rw [splitBytes?_append]
  rfl

/-- Behind a literal only blanks may be left. -/
theorem expectEnd_eq (x rest : List Char) :
    Lexer.expectEnd { Lexer.standard.load (x ++ rest) with index := byteSize x } =
      match trimStart rest with
      | [] => .ok ()
      | extra => .error (.unexpectedToken (LexError.preview extra) []
          (byteSize x + (byteSize rest - byteSize extra))) := by
  cases hrest : trimStart rest <;> simp only [Lexer.expectEnd, rest_eq_of_index, hrest]

/-- A text without the blanks in front is empty exactly if it is blank. -/
theorem trimStart_eq_nil_iff : trimStart text = [] ↔ isBlank text = true := by
  rw [trimStart, List.dropWhile_eq_nil_iff, isBlank, List.all_eq_true]

/-- What is expected behind the blanks is the token of the literal, unless more than blanks is behind
it. -/
theorem literalToken_eq (htext : trimStart source = x ++ rest)
    (hexpect : (Lexer.standard.load (x ++ rest)).expect dataNames =
      .ok (t, { Lexer.standard.load (x ++ rest) with index := byteSize x })) :
    literalToken source =
      match trimStart rest with
      | [] => .ok t
      | extra => .error (.unexpectedToken (LexError.preview extra) []
          (byteSize x + (byteSize rest - byteSize extra))) := by
  rw [literalToken, htext, hexpect]
  simp only [bind, Except.bind, expectEnd_eq]
  cases trimStart rest <;> rfl

/-- No front of a text is a literal that what follows ends. -/
def BeginsNoDatum (text : List Char) : Prop :=
  ∀ x rest t, text = x ++ rest → EndsValue rest → ¬IsDatum x t

private theorem literalToken_cases (source : List Char) :
    ((∃ preview, literalToken source = .error (.unexpectedToken preview dataNames 0)) ∧
        BeginsNoDatum (trimStart source)) ∨
      ∃ x t rest, trimStart source = x ++ rest ∧ IsDatum x t ∧
        literalToken source =
          match trimStart rest with
          | [] => .ok t
          | extra => .error (.unexpectedToken (LexError.preview extra) []
              (byteSize x + (byteSize rest - byteSize extra))) := by
  cases hexpect : (Lexer.standard.load (trimStart source)).expect dataNames with
  | error e =>
    have hfails : literalToken source = .error e := by
      rw [literalToken, hexpect]
      rfl
    rw [hfails, eq_of_expect_eq_error hexpect]
    refine Or.inl ⟨⟨_, rfl⟩, ?_⟩
    intro x rest t htext hrest hx
    rw [htext, hx.expect hrest] at hexpect
    cases hexpect
  | ok found =>
    obtain ⟨t, l⟩ := found
    obtain ⟨x, rest, htext, hx, rfl⟩ := exists_of_expect hexpect
    rw [htext] at hexpect
    exact Or.inr ⟨x, t, rest, htext, hx, literalToken_eq htext hexpect⟩

/-- A text is one literal where blanks alone stand around it. -/
theorem literalToken_eq_ok_iff :
    literalToken source = .ok t ↔
      ∃ before x after, source = before ++ (x ++ after) ∧ isBlank before = true ∧
        isBlank after = true ∧ IsDatum x t := by
  constructor
  · intro h
    rcases literalToken_cases source with ⟨⟨_, hfails⟩, -⟩ | ⟨x, t', rest, htext, hx, hresult⟩
    · rw [hfails] at h
      cases h
    · rw [hresult] at h
      split at h
      · next hend =>
        obtain rfl := Except.ok.inj h
        refine ⟨source.takeWhile isBlankChar, x, rest, ?_, List.all_takeWhile,
          trimStart_eq_nil_iff.mp hend, hx⟩
        rw [← htext]
        exact List.takeWhile_append_dropWhile.symm
      · cases h
  · rintro ⟨before, x, after, rfl, hbefore, hafter, hx⟩
    have htext : trimStart (before ++ (x ++ after)) = x ++ after := by
      rw [trimStart_append_of_isBlank hbefore, (hx.head.append after).trimStart]
    rw [literalToken_eq htext (hx.expect (endsValue_of_isBlank hafter)),
      trimStart_eq_nil_iff.mpr hafter]

/-- A text that is no literal fails at its beginning, or behind a literal that it begins with. -/
theorem literalToken_eq_error {e : LexError} (h : literalToken source = .error e) :
    (∃ preview, e = .unexpectedToken preview dataNames 0 ∧ BeginsNoDatum (trimStart source)) ∨
      ∃ x t rest preview offset, trimStart source = x ++ rest ∧ IsDatum x t ∧
        e = .unexpectedToken preview [] offset ∧ byteSize x ≤ offset := by
  rcases literalToken_cases source with ⟨⟨_, hfails⟩, hnone⟩ | ⟨x, t, rest, htext, hx, hresult⟩
  · rw [hfails] at h
    exact Or.inl ⟨_, (Except.error.inj h).symm, hnone⟩
  · rw [hresult] at h
    split at h
    · cases h
    · exact Or.inr ⟨x, t, rest, _, _, htext, hx, (Except.error.inj h).symm, Nat.le_add_right _ _⟩

/-- Blanks around a literal have no part in it. -/
theorem literalToken_trim (h : literalToken source = .ok t) :
    literalToken (trim source) = .ok t := by
  obtain ⟨before, x, after, rfl, hbefore, hafter, hx⟩ := literalToken_eq_ok_iff.mp h
  rw [hx.trim hbefore hafter, literalToken_eq_ok_iff]
  exact ⟨[], x, [], (List.append_nil x).symm, rfl, rfl, hx⟩

end

end TemplateReader
