import TemplateReader.Grammar.Scalar
import TemplateReader.Proofs.Delimiter.Extent

/-!
# Extents of string literals

A string literal is decoded while it is read, and the escape of a code point
looks up to ten characters ahead. It never looks past the closing quote, which is
no hexadecimal digit, so what follows a string has no part in what it means. The
characters that an escape takes are no quotes either: the string ends where the
quoted run of the same quote ends.
-/

namespace TemplateReader

section

variable {quote : Char}

/-- A quote is no hexadecimal digit. -/
theorem hexValue?_quote (hquote : isTagQuote quote = true) : hexValue? quote = none := by
  rcases isTagQuote_iff.mp hquote with rfl | rfl <;> rfl

/-- A hexadecimal digit neither closes a string nor escapes anything. -/
theorem ne_of_hexValue? (hquote : isTagQuote quote = true) {c : Char}
    (h : (hexValue? c).isSome = true) : c ≠ '\\' ∧ c ≠ quote := by
  constructor
  · rintro rfl
    cases h
  · rintro rfl
    rw [hexValue?_quote hquote] at h
    cases h

/-- The digits of a code unit are four. -/
theorem hexUnit?_isSome_iff {text : List Char} :
    (hexUnit? text).isSome = true ↔
      ∃ digits rest, text = digits ++ rest ∧ digits.length = 4 ∧
        ∀ c ∈ digits, (hexValue? c).isSome = true := by
  constructor
  · intro h
    obtain ⟨n, hn⟩ := Option.isSome_iff_exists.mp h
    unfold hexUnit? at hn
    split at hn
    · next a b c d rest =>
      simp only [Option.bind_eq_bind, Option.bind_eq_some_iff] at hn
      obtain ⟨a', ha, b', hb, c', hc, d', hd, -⟩ := hn
      refine ⟨[a, b, c, d], rest, rfl, rfl, ?_⟩
      simp only [List.forall_mem_cons, ha, hb, hc, hd, Option.isSome_some, true_and]
      exact nofun
    · cases hn
  · rintro ⟨digits, rest, rfl, hlength, hdigits⟩
    match digits, hlength with
    | [a, b, c, d], _ =>
      simp only [List.forall_mem_cons, Option.isSome_iff_exists] at hdigits
      obtain ⟨⟨a', ha⟩, ⟨b', hb⟩, ⟨c', hc⟩, ⟨d', hd⟩, -⟩ := hdigits
      simp only [List.cons_append, List.nil_append, hexUnit?, ha, hb, hc, hd, Option.bind_eq_bind,
        Option.bind_some, Option.isSome_some]

/-- Where one of four characters is a quote there is no code unit. -/
theorem hexUnit?_eq_none_of_quote_mem (hquote : isTagQuote quote = true) {text : List Char}
    (h : quote ∈ text.take 4) : hexUnit? text = none := by
  rw [← Option.not_isSome_iff_eq_none, hexUnit?_isSome_iff]
  rintro ⟨digits, rest, rfl, hlength, hdigits⟩
  rw [← hlength, List.take_left] at h
  have hdigit := hdigits quote h
  rw [hexValue?_quote hquote] at hdigit
  cases hdigit

/-- The digits of a code unit do not reach past a quote. -/
theorem hexUnit?_append_quote (hquote : isTagQuote quote = true) (body rest : List Char) :
    hexUnit? (body ++ quote :: rest) = hexUnit? body := by
  match body with
  | a :: b :: c :: d :: body => rfl
  | [] | [a] | [a, b] | [a, b, c] =>
    exact hexUnit?_eq_none_of_quote_mem hquote (by simp)

/-- Nor does an escaped low surrogate. -/
theorem lowSurrogate?_append_quote (hquote : isTagQuote quote = true) (body rest : List Char) :
    lowSurrogate? (body ++ quote :: rest) = lowSurrogate? body := by
  have hbackslash : quote ≠ '\\' := by
    rcases isTagQuote_iff.mp hquote with rfl | rfl <;> decide
  have hu : quote ≠ 'u' := by
    rcases isTagQuote_iff.mp hquote with rfl | rfl <;> decide
  match body with
  | [] => simp [lowSurrogate?, hbackslash]
  | [a] => simp [lowSurrogate?, hu]
  | a :: b :: body =>
    have hunit := hexUnit?_append_quote hquote body rest
    by_cases h : a = '\\' ∧ b = 'u'
    · obtain ⟨rfl, rfl⟩ := h
      simp only [List.cons_append, lowSurrogate?, hunit]
    · simp only [List.cons_append, lowSurrogate?]
      grind

/-- Four hexadecimal digits. -/
def IsUnit (digits : List Char) : Prop :=
  digits.length = 4 ∧ ∀ c ∈ digits, (hexValue? c).isSome = true

/-- What the escape of a code point takes: one code unit, or two with an escape between them. -/
inductive IsUnits : List Char → Prop
  | single {a : List Char} (ha : IsUnit a) : IsUnits a
  | pair {a b : List Char} (ha : IsUnit a) (hb : IsUnit b) : IsUnits (a ++ '\\' :: 'u' :: b)

/-- The escape of a code point takes its units from the front of a text. -/
theorem exists_of_unicodeEscape? {text : List Char} {decoded : Char} {more : Nat}
    (h : unicodeEscape? text = some (decoded, more)) :
    ∃ units rest, text = units ++ rest ∧ units.length = more ∧ IsUnits units := by
  simp only [unicodeEscape?, Option.bind_eq_bind, Option.bind_eq_some_iff] at h
  obtain ⟨unit, hunit, h⟩ := h
  obtain ⟨digits, tail, rfl, hlength, hdigits⟩ :=
    hexUnit?_isSome_iff.mp (Option.isSome_iff_exists.mpr ⟨unit, hunit⟩)
  have hdrop : (digits ++ tail).drop 4 = tail := by rw [← hlength, List.drop_left]
  split at h
  · next low hlow =>
    simp only [Option.some.injEq, Prod.mk.injEq] at h
    obtain ⟨-, rfl⟩ := h
    rw [hdrop] at hlow
    split at hlow
    · unfold lowSurrogate? at hlow
      split at hlow
      · next tail =>
        obtain ⟨hlow, -⟩ := Option.filter_eq_some_iff.mp hlow
        obtain ⟨digits', rest, rfl, hlength', hdigits'⟩ :=
          hexUnit?_isSome_iff.mp (Option.isSome_iff_exists.mpr ⟨low, hlow⟩)
        refine ⟨digits ++ '\\' :: 'u' :: digits', rest, by simp, by simp [hlength, hlength'], ?_⟩
        exact .pair ⟨hlength, hdigits⟩ ⟨hlength', hdigits'⟩
      · cases hlow
    · cases hlow
  · simp only [Option.some.injEq, Prod.mk.injEq] at h
    exact ⟨digits, tail, rfl, hlength.trans h.2, .single ⟨hlength, hdigits⟩⟩

/-- The escape of a code point does not reach past a quote. -/
theorem unicodeEscape?_append_quote (hquote : isTagQuote quote = true) (body rest : List Char) :
    unicodeEscape? (body ++ quote :: rest) = unicodeEscape? body := by
  simp only [unicodeEscape?, hexUnit?_append_quote hquote]
  cases hunit : hexUnit? body with
  | none => rfl
  | some unit =>
    obtain ⟨digits, tail, rfl, hlength, -⟩ :=
      hexUnit?_isSome_iff.mp (Option.isSome_iff_exists.mpr ⟨unit, hunit⟩)
    have hdrop (after : List Char) : (digits ++ after).drop 4 = after := by
      rw [← hlength, List.drop_left]
    rw [List.append_assoc, hdrop, hdrop, lowSurrogate?_append_quote hquote]

/-- What an escape means is settled before the next quote. -/
theorem decodeEscape_append_quote (hquote : isTagQuote quote = true) (escaped : Char)
    (body rest : List Char) :
    decodeEscape escaped (body ++ quote :: rest) = decodeEscape escaped body := by
  unfold decodeEscape
  rw [unicodeEscape?_append_quote hquote]

/-- What an escape takes besides its character is nothing, or the units of a code point. -/
theorem exists_of_decodeEscape (escaped : Char) (text : List Char) :
    ∃ taken rest, text = taken ++ rest ∧ taken.length = (decodeEscape escaped text).2 ∧
      (taken = [] ∨ IsUnits taken) := by
  unfold decodeEscape
  split
  case h_5 =>
    cases h : unicodeEscape? text with
    | none => exact ⟨[], text, rfl, rfl, Or.inl rfl⟩
    | some r =>
      obtain ⟨units, rest, htext, hlength, hunits⟩ := exists_of_unicodeEscape? h
      exact ⟨units, rest, htext, hlength, Or.inr hunits⟩
  all_goals exact ⟨[], text, rfl, rfl, Or.inl rfl⟩

variable (quote) in
/-- What may stand between two quotes, with its value and whether it holds an escape. -/
inductive SpellsString : List Char → List Char → Bool → Prop
  | nil : SpellsString [] [] false
  | plain {c : Char} {body value : List Char} {escape : Bool} (hc : c ≠ quote)
    (hbackslash : c ≠ '\\') (h : SpellsString body value escape) :
    SpellsString (c :: body) (c :: value) escape
  | escape {escaped decoded : Char} {taken body value : List Char} {escape : Bool}
    (htaken : taken = [] ∨ IsUnits taken)
    (hdecode : decodeEscape escaped (taken ++ body) = (decoded, taken.length))
    (h : SpellsString body value escape) :
    SpellsString ('\\' :: escaped :: (taken ++ body)) (decoded :: value) true

private theorem readString?_self (text : List Char) :
    readString? quote (quote :: text) = some ⟨[], false, [quote], text⟩ := by
  rw [readString?.eq_def]
  exact if_pos rfl

private theorem readString?_escape (hquote : isTagQuote quote = true) (escaped : Char)
    (text : List Char) :
    readString? quote ('\\' :: escaped :: text) =
      (readString? quote (text.drop (decodeEscape escaped text).2)).map fun s =>
        ⟨(decodeEscape escaped text).1 :: s.value, true,
          '\\' :: escaped :: text.take (decodeEscape escaped text).2 ++ s.taken, s.rest⟩ := by
  have hne : '\\' ≠ quote := by
    rcases isTagQuote_iff.mp hquote with rfl | rfl <;> decide
  rw [readString?.eq_def]
  dsimp only
  rw [if_neg hne, if_pos rfl]

private theorem readString?_plain {c : Char} (hc : c ≠ quote) (hbackslash : c ≠ '\\')
    (text : List Char) :
    readString? quote (c :: text) =
      (readString? quote text).map fun s => ⟨c :: s.value, s.escape, c :: s.taken, s.rest⟩ := by
  rw [readString?.eq_def]
  dsimp only
  rw [if_neg hc, if_neg hbackslash]

private theorem spellsString_of_readString? (hquote : isTagQuote quote = true) {text : List Char}
    {s : StringReading} (h : readString? quote text = some s) :
    ∃ body, text = body ++ quote :: s.rest ∧ s.taken = body ++ [quote] ∧
      SpellsString quote body s.value s.escape := by
  have hne : '\\' ≠ quote := by
    rcases isTagQuote_iff.mp hquote with rfl | rfl <;> decide
  induction hn : text.length using Nat.strongRecOn generalizing text s with
  | ind n ih =>
    subst hn
    match text with
    | [] =>
      rw [readString?.eq_def] at h
      cases h
    | c :: text =>
      by_cases hc : c = quote
      · subst hc
        rw [readString?_self] at h
        obtain rfl := Option.some.inj h
        exact ⟨[], rfl, rfl, .nil⟩
      by_cases hb : c = '\\'
      · subst hb
        cases text with
        | nil =>
          rw [readString?.eq_def] at h
          dsimp only at h
          rw [if_neg hne, if_pos rfl] at h
          cases h
        | cons escaped text =>
          rw [readString?_escape hquote] at h
          obtain ⟨s', hs', rfl⟩ := Option.map_eq_some_iff.mp h
          obtain ⟨taken, tail, rfl, hlength, htaken⟩ := exists_of_decodeEscape escaped text
          rw [← hlength, List.drop_left] at hs'
          have hlt : tail.length < ('\\' :: escaped :: (taken ++ tail)).length := by
            simp only [List.length_cons, List.length_append]
            omega
          obtain ⟨body, rfl, hs, hspells⟩ := ih tail.length hlt hs' rfl
          have hdecode := decodeEscape_append_quote hquote escaped (taken ++ body) s'.rest
          rw [List.append_assoc] at hdecode
          refine ⟨'\\' :: escaped :: (taken ++ body), ?_, ?_, .escape htaken ?_ hspells⟩
          · simp only [List.cons_append, List.append_assoc]
          · rw [← hlength, List.take_left, hs]
            simp only [List.cons_append, List.append_assoc]
          · rw [← hdecode, hlength]
      · rw [readString?_plain hc hb] at h
        obtain ⟨s', hs', rfl⟩ := Option.map_eq_some_iff.mp h
        obtain ⟨body, rfl, hs, hspells⟩ := ih text.length (by simp) hs' rfl
        exact ⟨c :: body, rfl, by rw [hs, List.cons_append], .plain hc hb hspells⟩

/-- A spelled string is read to its value, whatever follows the closing quote. -/
theorem SpellsString.readString? (hquote : isTagQuote quote = true) {body value : List Char}
    {escape : Bool} (h : SpellsString quote body value escape) (rest : List Char) :
    TemplateReader.readString? quote (body ++ quote :: rest) =
      some ⟨value, escape, body ++ [quote], rest⟩ := by
  induction h with
  | nil => exact readString?_self rest
  | plain hc hbackslash _ ih =>
    rw [List.cons_append, readString?_plain hc hbackslash, ih]
    rfl
  | @escape escaped decoded taken body value _ htaken hdecode _ ih =>
    have hsame := decodeEscape_append_quote hquote escaped (taken ++ body) rest
    rw [hdecode] at hsame
    rw [List.cons_append, List.cons_append, readString?_escape hquote, hsame, List.append_assoc]
    dsimp only
    rw [List.drop_left, List.take_left, ih]
    simp only [Option.map_some, List.cons_append, List.append_assoc]

/-- A string is read exactly where the text before a quote spells its value. -/
theorem readString?_eq_some_iff (hquote : isTagQuote quote = true) {text : List Char}
    {s : StringReading} :
    TemplateReader.readString? quote text = some s ↔
      ∃ body, text = body ++ quote :: s.rest ∧ s.taken = body ++ [quote] ∧
        SpellsString quote body s.value s.escape := by
  constructor
  · exact spellsString_of_readString? hquote
  · rintro ⟨body, rfl, htaken, hspells⟩
    rw [hspells.readString? hquote, ← htaken]

private theorem splitQuote_append_units (hquote : isTagQuote quote = true) {units : List Char}
    (hunits : units = [] ∨ IsUnits units) (rest : List Char) :
    splitQuote quote (units ++ rest) =
      (splitQuote quote rest).map fun (inner, after) => (units ++ inner, after) := by
  have hrun {a : List Char} (ha : IsUnit a) : ∀ c ∈ a, c ≠ '\\' ∧ c ≠ quote :=
    fun c hc => ne_of_hexValue? hquote (ha.2 c hc)
  rcases hunits with rfl | hunits
  · have hnil : ∀ c ∈ ([] : List Char), c ≠ '\\' ∧ c ≠ quote := nofun
    exact splitQuote_append hnil rest
  cases hunits with
  | single ha => exact splitQuote_append (hrun ha) rest
  | @pair a b ha hb =>
    rw [List.append_assoc, splitQuote_append (hrun ha), List.cons_append, List.cons_append,
      splitQuote, splitQuote_append (hrun hb)]
    cases splitQuote quote rest <;> simp

/-- The string in two quotes is also the quoted run in them. -/
theorem SpellsString.fillsQuote (hquote : isTagQuote quote = true) {body value : List Char}
    {escape : Bool} (h : SpellsString quote body value escape) : FillsQuote quote body := by
  have hne : quote ≠ '\\' := by
    rcases isTagQuote_iff.mp hquote with rfl | rfl <;> decide
  induction h with
  | nil => rw [FillsQuote, List.nil_append, splitQuote_cons hne, if_pos rfl]
  | plain hc hbackslash _ ih =>
    rw [FillsQuote, List.cons_append, splitQuote_cons hbackslash, if_neg hc, ih]
    rfl
  | escape htaken _ _ ih =>
    rw [FillsQuote, List.cons_append, List.cons_append, splitQuote, List.append_assoc,
      splitQuote_append_units hquote htaken, ih]
    rfl

/-- A string holds an escape where a backslash is written. -/
theorem SpellsString.escape_iff {body value : List Char} {escape : Bool}
    (h : SpellsString quote body value escape) : escape = true ↔ '\\' ∈ body := by
  induction h with
  | nil => exact iff_of_false nofun nofun
  | plain _ hbackslash _ ih =>
    rw [ih, List.mem_cons]
    exact (or_iff_right hbackslash.symm).symm
  | escape => exact iff_of_true rfl List.mem_cons_self

/-- Without a backslash a string means what is written. -/
theorem SpellsString.value_eq {body value : List Char} {escape : Bool}
    (h : SpellsString quote body value escape) (hplain : '\\' ∉ body) : value = body := by
  induction h with
  | nil => rfl
  | plain _ _ _ ih => rw [ih fun hmem => hplain (List.mem_cons_of_mem _ hmem)]
  | escape => exact absurd List.mem_cons_self hplain

/-- The reader of strings takes what the quoted run takes, whatever escapes it decodes. -/
theorem map_readString? (hquote : isTagQuote quote = true) (text : List Char) :
    (TemplateReader.readString? quote text).map (fun s => (s.taken, s.rest)) =
      (splitQuote quote text).map fun p => (p.1 ++ [quote], p.2) := by
  have hne : quote ≠ '\\' := by
    rcases isTagQuote_iff.mp hquote with rfl | rfl <;> decide
  induction hn : text.length using Nat.strongRecOn generalizing text with
  | ind n ih =>
    subst hn
    match text with
    | [] => rw [readString?.eq_def, splitQuote]; rfl
    | c :: text =>
      by_cases hc : c = quote
      · subst hc
        rw [readString?_self, splitQuote_cons hne, if_pos rfl]
        rfl
      by_cases hb : c = '\\'
      · subst hb
        cases text with
        | nil =>
          rw [readString?.eq_def, splitQuote]
          dsimp only
          rw [if_neg hc, if_pos rfl]
          rfl
        | cons escaped text =>
          -- The units that an escape takes are passed over by the quoted run one by one.
          obtain ⟨taken, tail, rfl, hlength, htaken⟩ := exists_of_decodeEscape escaped text
          have hlt : tail.length < ('\\' :: escaped :: (taken ++ tail)).length := by
            simp only [List.length_cons, List.length_append]
            omega
          have htail := congrArg (Option.map fun p => ('\\' :: escaped :: (taken ++ p.1), p.2))
            (ih tail.length hlt tail rfl)
          rw [readString?_escape hquote, splitQuote, splitQuote_append_units hquote htaken,
            ← hlength, List.drop_left, List.take_left]
          simpa only [Option.map_map, Function.comp_def, List.cons_append, List.append_assoc]
            using htail
      · have htail := congrArg (Option.map fun p => (c :: p.1, p.2))
          (ih text.length (Nat.lt_succ_self _) text rfl)
        rw [readString?_plain hc hb, splitQuote_cons hb, if_neg hc]
        simpa only [Option.map_map, Function.comp_def, List.cons_append] using htail

end

end TemplateReader
