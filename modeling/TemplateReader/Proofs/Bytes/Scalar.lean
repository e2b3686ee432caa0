import TemplateReader.Bytes.Grammar
import TemplateReader.Proofs.Bytes.Attribute
import TemplateReader.Proofs.Bytes.Lexer
import TemplateReader.Proofs.Literal.Leaf

/-!
# Values without members by bytes and by characters

At the place of a character, the rules for words, strings, numbers, names and
programs match by bytes what they match by characters. Escapes look ahead by
slices, each of which holds four characters exactly if it holds four digits.
Where no character begins, no byte is one of ASCII and no slice can be taken, so
that nothing is matched.
-/

namespace TemplateReader.Bytes

section

variable {s text rest : List Char} {c : Cursor} {i : Nat}

/-- A text in ASCII has as many bytes as characters. -/
theorem byteSize_of_not_isWide (h : ∀ ch ∈ text, ¬IsWide ch) : byteSize text = text.length := by
  induction text with
  | nil => rfl
  | cons ch text ih =>
    rw [byteSize_cons, utf8Size_of_not_isWide (h ch List.mem_cons_self),
      ih fun d hd => h d (List.mem_cons_of_mem ch hd), List.length_cons, Nat.add_comm]

private theorem all_utf8EncodeChar {p : Char → Bool} (hp : IsNarrow p) (ch : Char) :
    (String.utf8EncodeChar ch).all (fun b => p (Char.ofNat b.toNat)) = p ch := by
  by_cases hch : IsWide ch
  · obtain ⟨b, hb, hwide⟩ := exists_byte?_of_isWide [] hch ch.utf8Size_pos
    rw [byte?, byteIn?, utf8, List.flatMap_singleton] at hb
    obtain ⟨n, hn, rfl⟩ := Option.map_eq_some_iff.mp hb
    rw [hp ch hch, List.all_eq_false]
    refine ⟨n, List.mem_of_getElem? hn, ?_⟩
    rw [hp _ hwide]
    exact Bool.false_ne_true
  · have hb := @byte?_cons [] ch hch
    rw [byte?, byteIn?, utf8, List.flatMap_singleton, utf8EncodeChar_of_not_isWide hch,
      List.getElem?_cons_zero, Option.map_some] at hb
    rw [utf8EncodeChar_of_not_isWide hch, List.all_cons, List.all_nil, Bool.and_true,
      Option.some.inj hb]

/-- Over the bytes of a text, a narrow class holds where it does over the characters. -/
theorem all_utf8 {p : Char → Bool} (hp : IsNarrow p) (text : List Char) :
    (utf8 text).all (fun b => p (Char.ofNat b.toNat)) = text.all p := by
  rw [utf8, List.all_flatMap]
  exact congrArg text.all (funext (all_utf8EncodeChar hp))

/-- The digits of the hexadecimal system are characters of ASCII. -/
theorem isNarrow_hexValue? : IsNarrow fun ch => (hexValue? ch).isSome := by
  intro ch hch
  have hdigit := isNarrow_isDigit ch hch
  have hle {d : Char} (hd : ¬IsWide d) : ¬ch ≤ d := by
    rw [Char.le_def, UInt32.le_iff_toNat_le]
    intro hle
    exact hd (Nat.lt_of_lt_of_le hch hle)
  have hlower : ¬ch ≤ 'f' := hle (by decide)
  have hupper : ¬ch ≤ 'F' := hle (by decide)
  simp only [hexValue?, hdigit, hlower, hupper, decide_false, Bool.and_false, Bool.false_eq_true,
    if_false, Option.isSome_none]

/-- A character with a hexadecimal value is one of ASCII. -/
theorem not_isWide_of_hexValue? {ch : Char} (h : (hexValue? ch).isSome = true) : ¬IsWide ch := by
  intro hch
  cases h.symm.trans (isNarrow_hexValue? ch hch)

/-- A code unit is read at a place as from the text there. -/
theorem hexUnitAt_place (h : rest <:+ s) : hexUnitAt s (place s rest) = hexUnit? rest := by
  have hslice {digits : List Char} := @slice?_place_eq_some_iff s digits rest (place s rest + 4) h
  unfold hexUnitAt
  by_cases hunit : (hexUnit? rest).isSome = true
  · obtain ⟨digits, tail, rfl, hlength, hdigits⟩ := hexUnit?_isSome_iff.mp hunit
    have hsize := byteSize_of_not_isWide fun ch hch => not_isWide_of_hexValue? (hdigits ch hch)
    have hdigits' := hslice.mpr ⟨tail, rfl, by rw [hsize, hlength]⟩
    simp only [hdigits', Option.bind_eq_bind, Option.bind_some, all_utf8 isNarrow_hexValue?]
    rw [if_pos (List.all_eq_true.mpr hdigits)]
    match digits, hlength with
    | [_, _, _, _], _ => rfl
  · rw [Option.not_isSome_iff_eq_none.mp hunit, Option.bind_eq_bind, Option.bind_eq_none_iff]
    intro digits hdigits
    obtain ⟨tail, rfl, hsize⟩ := hslice.mp hdigits
    rw [all_utf8 isNarrow_hexValue?]
    apply if_neg
    intro hall
    have hdigits := List.all_eq_true.mp hall
    have hlength := byteSize_of_not_isWide fun ch hch => not_isWide_of_hexValue? (hdigits ch hch)
    exact hunit (hexUnit?_isSome_iff.mpr ⟨digits, tail, rfl, by omega, hdigits⟩)

private theorem exists_of_hexUnit? {unit : Nat} (h : rest <:+ s)
    (hunit : hexUnit? rest = some unit) :
    ∃ tail, tail <:+ s ∧ rest.drop 4 = tail ∧ place s rest + 4 = place s tail := by
  obtain ⟨digits, tail, rfl, hlength, hdigits⟩ :=
    hexUnit?_isSome_iff.mp (Option.isSome_iff_exists.mpr ⟨unit, hunit⟩)
  have hsize := byteSize_of_not_isWide fun ch hch => not_isWide_of_hexValue? (hdigits ch hch)
  refine ⟨tail, suffix_of_append h, ?_, ?_⟩
  · rw [← hlength, List.drop_left]
  · rw [place_append h, hsize, hlength]

/-- At the place of a final part, a low surrogate is read by bytes as by characters. -/
theorem lowSurrogateAt_place (h : rest <:+ s) :
    lowSurrogateAt s (place s rest) = lowSurrogate? rest := by
  have hslice := @slice?_place_eq_some_iff s ['\\', 'u'] rest (place s rest + 2) h
  unfold lowSurrogateAt
  by_cases hrest : ∃ tail, rest = '\\' :: 'u' :: tail
  · obtain ⟨tail, rfl⟩ := hrest
    have htail := suffix_of_cons (suffix_of_cons h)
    have hplace : place s ('\\' :: 'u' :: tail) + 2 = place s tail := by
      have hfirst := place_cons_of_not_isWide h (by decide)
      have hsecond := place_cons_of_not_isWide (suffix_of_cons h) (by decide)
      omega
    rw [if_pos (hslice.mpr ⟨tail, rfl, rfl⟩), hplace, hexUnitAt_place htail]
    rfl
  · have hnone : lowSurrogate? rest = none := by
      unfold lowSurrogate?
      split
      · next tail => exact absurd ⟨tail, rfl⟩ hrest
      · rfl
    rw [hnone]
    apply if_neg
    intro hpart
    obtain ⟨tail, htail, -⟩ := hslice.mp hpart
    exact hrest ⟨tail, htail⟩

/-- What is read as a low surrogate is in the range of low surrogates. -/
theorem lowSurrogate?_range {low : Nat} (h : lowSurrogate? text = some low) :
    0xdc00 ≤ low ∧ low < 0xe000 := by
  unfold lowSurrogate? at h
  split at h
  · obtain ⟨-, hrange⟩ := Option.filter_eq_some_iff.mp h
    simpa using hrange
  · cases h

/-- At the place of a final part, a unicode escape is read by bytes as by characters. -/
theorem unicodeEscapeAt_place (h : rest <:+ s) :
    unicodeEscapeAt s (place s rest) = unicodeEscape? rest := by
  unfold unicodeEscapeAt unicodeEscape?
  rw [hexUnitAt_place h]
  cases hunit : hexUnit? rest with
  | none => simp only [Option.bind_eq_bind, Option.bind_none]
  | some unit =>
    obtain ⟨tail, htail, hdrop, hplace⟩ := exists_of_hexUnit? h hunit
    simp only [Option.bind_eq_bind, Option.bind_some, hplace, hdrop, lowSurrogateAt_place htail]
    cases hlow : if 0xd800 ≤ unit && unit < 0xdc00 then lowSurrogate? tail else none with
    | none => dsimp only
    | some low =>
      split at hlow
      · next hrange =>
        have hrange' := lowSurrogate?_range hlow
        simp only [Bool.and_eq_true, decide_eq_true_eq] at hrange
        have hvalid : (0x10000 + (unit - 0xd800) * 0x400 + (low - 0xdc00)).isValidChar := by
          unfold Nat.isValidChar
          omega
        dsimp only
        rw [if_pos hvalid]
      · cases hlow

/-- The digits of an escape are looked for behind it, if it has a use for them. -/
theorem escapeAt_eq {escaped : Char} (h : rest <:+ s) (hi : escaped = 'u' → i = place s rest) :
    escapeAt s i escaped = .ok (decodeEscape escaped rest) := by
  unfold escapeAt
  split
  case h_5 =>
    rw [hi rfl, unicodeEscapeAt_place h, decodeEscape]
    cases hescape : unicodeEscape? rest with
    | none => rfl
    | some r =>
      obtain ⟨decoded, used⟩ := r
      have hused : 1 ≤ used := by
        obtain ⟨units, tail, -, rfl, hunits⟩ := exists_of_unicodeEscape? hescape
        cases hunits with
        | single ha => exact ha.1 ▸ by decide
        | pair ha =>
          rw [List.length_append, ha.1]
          omega
      dsimp only
      rw [minus_eq hused, ok_bind, Nat.sub_add_cancel hused]
      rfl
  case h_6 hn ht hr h0 hu =>
    rw [decodeEscape.eq_6 _ _ hn ht hr h0 hu]
    rfl
  all_goals rfl

/-- The characters of a string are read from an offset behind its opening quote as from the text
there. -/
theorem stringBody_eq {quote : Char} {chars : List Char} (hquote : ¬IsWide quote)
    (h : chars <:+ text) (value : List Char) (escape : Bool) :
    stringBody text quote (place text chars) chars value escape =
      .ok ((readString? quote chars).map fun r =>
        (value ++ r.value, escape || r.escape, place text r.rest)) := by
  fun_induction readString? quote chars generalizing value escape with
  | case1 =>
    rw [stringBody]
    rfl
  | case2 chars =>
    rw [stringBody.eq_def]
    dsimp only
    rw [if_pos rfl, place_cons_of_not_isWide h hquote]
    simp only [Option.map_some, List.append_nil, Bool.or_false]
    rfl
  | case3 hne =>
    rw [stringBody, if_neg hne, if_pos rfl]
    rfl
  | case4 escaped chars decoded more hdecode hne ih =>
    have hescaped := suffix_of_cons h
    have hchars := suffix_of_cons hescaped
    have hbackslash := place_cons_of_not_isWide h (by decide)
    have hi : escaped = 'u' → place text ('\\' :: escaped :: chars) + 2 = place text chars := by
      rintro rfl
      have hu := place_cons_of_not_isWide hescaped (by decide)
      omega
    have hmore : place text ('\\' :: escaped :: chars) + 1 + escaped.utf8Size +
        byteSize (chars.take more) = place text (chars.drop more) := by
      have hsplit := List.take_append_drop more chars
      have hplace := place_append (hsplit.symm ▸ hchars)
      rw [hbackslash, ← place_cons hescaped, hplace, hsplit]
    rw [stringBody, if_neg hne, if_pos rfl]
    dsimp only
    rw [escapeAt_eq hchars hi, hdecode, ok_bind]
    dsimp only
    rw [hmore, ih ((List.drop_suffix more chars).trans hchars)]
    simp only [Option.map_map, Function.comp_def, List.append_assoc, List.singleton_append,
      Bool.true_or, Bool.or_true]
  | case5 ch chars hne hb ih =>
    rw [stringBody.eq_def]
    dsimp only
    rw [if_neg hne, if_neg hb, ← place_cons h, ih (suffix_of_cons h)]
    simp only [Option.map_map, Function.comp_def, List.append_assoc, List.singleton_append]

/-- A literal over a stretch of the text is made without fail, with the token that is made by
characters. -/
theorem Stands.scalarAt_eq (h : Stands s [] c) (hc : c.rest = text ++ rest) {size : Nat}
    (hsize : byteSize text = size) (value : Scalar) (escape : Bool) :
    scalarAt s c.offset (c.offset + size) value escape = .ok (scalarToken c text value escape) := by
  subst hsize
  have hstop : c.offset + byteSize text = place s rest := (h.advance hc).whole.2
  have hslice := h.sliceAt_append hc
  rw [List.append_nil, ← hstop] at hslice
  rw [scalarAt, hslice, ok_bind]
  rfl

/-- The byte at a place is outside a narrow class exactly if the first character there is, if any.
-/
theorem byte?_any_eq_false_iff {p : Char → Bool} (hp : IsNarrow p) (h : rest <:+ s) :
    (byte? s (place s rest)).any p = false ↔ ∀ ch ∈ rest.head?, p ch = false := by
  rw [byte?_any_place hp h, Option.any_eq_false]
  rfl

/-- At a place of a text, a word stands by bytes exactly if it stands by characters. -/
theorem Stands.wordStandsAt_eq (h : Stands s [] c) (word : List Char) :
    wordStandsAt s c.offset word = beginsWithWord word c.rest := by
  obtain ⟨hsuffix, hoffset⟩ := h.whole
  rw [hoffset, wordStandsAt, slice?_place_end hsuffix, Bool.eq_iff_iff, beginsWithWord_iff]
  dsimp only
  rw [Bool.and_eq_true, List.isPrefixOf_iff_prefix, Bool.not_eq_true']
  constructor
  · rintro ⟨⟨rest, hrest⟩, hends⟩
    rw [← hrest] at hsuffix hends
    rw [← place_append hsuffix,
      byte?_any_eq_false_iff isNarrow_isWordChar (suffix_of_append hsuffix)] at hends
    exact ⟨rest, hrest.symm, hends⟩
  · rintro ⟨rest, hrest, hends⟩
    refine ⟨⟨rest, hrest.symm⟩, ?_⟩
    rw [hrest] at hsuffix ⊢
    rwa [← place_append hsuffix,
      byte?_any_eq_false_iff isNarrow_isWordChar (suffix_of_append hsuffix)]

variable {value : Option (Nat → Run (Option Token))} {scope : Scope}

/-- At a place of a text, null is read by bytes as by characters. -/
theorem Stands.null_eq (h : Stands s [] c) :
    ByteRule.null s value c.offset = .ok (Rule.null scope c) := by
  rw [ByteRule.null, Rule.null, h.wordStandsAt_eq]
  split
  · next hword =>
    obtain ⟨rest, hc, -⟩ := beginsWithWord_iff.mp hword
    have hsize : byteSize "null".toList = 4 := rfl
    rw [h.scalarAt_eq hc hsize]
    rfl
  · rfl

/-- At a place of a text, a boolean is read by bytes as by characters. -/
theorem Stands.boolean_eq (h : Stands s [] c) :
    ByteRule.boolean s value c.offset = .ok (Rule.boolean scope c) := by
  rw [ByteRule.boolean, Rule.boolean, h.wordStandsAt_eq, h.wordStandsAt_eq]
  split
  · next hword =>
    obtain ⟨rest, hc, -⟩ := beginsWithWord_iff.mp hword
    have hsize : byteSize "true".toList = 4 := rfl
    rw [h.scalarAt_eq hc hsize]
    rfl
  · split
    · next hword =>
      obtain ⟨rest, hc, -⟩ := beginsWithWord_iff.mp hword
      have hsize : byteSize "false".toList = 5 := rfl
      rw [h.scalarAt_eq hc hsize]
      rfl
    · rfl

/-- At a place of a text, a string is read by bytes as by characters. -/
theorem Stands.string_eq (h : Stands s [] c) :
    ByteRule.string s value c.offset = .ok (Rule.string scope c) := by
  obtain ⟨hsuffix, hoffset⟩ := h.whole
  rw [ByteRule.string, Rule.string, hoffset, slice?_place_end hsuffix, ← hoffset]
  cases hc : c.rest with
  | nil => rfl
  | cons quote chars =>
    dsimp only
    split
    · next hq =>
      have hquote : isTagQuote quote = true := isTagQuote_iff.mpr (by simpa using hq)
      have hascii := not_isWide_of_isTagQuote hquote
      have hbody := stringBody_eq hascii (List.suffix_cons quote chars) [] false
      rw [place_cons (List.suffix_refl (quote :: chars)), place_self, Nat.zero_add] at hbody
      rw [hbody, ok_bind]
      cases hread : readString? quote chars with
      | none => rfl
      | some r =>
        obtain ⟨body, hchars, htaken, -⟩ := (readString?_eq_some_iff hquote).mp hread
        have hsplit : quote :: chars = (quote :: r.taken) ++ r.rest := by
          rw [hchars, htaken, List.cons_append, List.append_assoc, List.singleton_append]
        have hsize : byteSize (quote :: r.taken) = place (quote :: chars) r.rest := by
          rw [hsplit, place_append (List.suffix_refl _), place_self, Nat.zero_add]
        dsimp only [Option.map_some]
        rw [List.nil_append, Bool.false_or, h.scalarAt_eq (hc.trans hsplit) hsize]
        rfl
    · rfl

private theorem digitsSize_unsigned {sign tail : List Char} (h : sign ++ tail <:+ s)
    (hfirst : (if byte? s (place s (sign ++ tail)) = some '-' then place s (sign ++ tail) + 1
      else place s (sign ++ tail)) = place s tail) :
    digitsSize s (place s (sign ++ tail)) =
      .ok ((splitUnsigned? sign tail).elim 0 fun r => byteSize r.1) := by
  have htail := suffix_of_append h
  have hsplit : tail.takeWhile Char.isDigit ++ tail.dropWhile Char.isDigit = tail :=
    List.takeWhile_append_dropWhile
  have hstart := place_append h
  rw [digitsSize, hfirst, runEnd_place_end isNarrow_isDigit.isEven htail, ok_bind, splitUnsigned?]
  cases hdigits : tail.takeWhile Char.isDigit with
  | nil =>
    rw [hdigits, List.nil_append] at hsplit
    rw [hsplit]
    exact if_pos rfl
  | cons digit digits =>
    rw [hdigits] at hsplit
    have hstop := place_append (hsplit.symm ▸ htail)
    rw [hsplit] at hstop
    have hpos := byteSize_pos (List.cons_ne_nil digit digits)
    rw [if_neg (by omega), minus_eq (by omega)]
    dsimp only [Option.elim_some]
    rw [byteSize_append]
    exact congrArg Except.ok (by omega)

/-- At a place of a text, the digits counted by bytes are those split off by characters. -/
theorem Stands.digitsSize_eq (h : Stands s [] c) :
    digitsSize s c.offset = .ok ((splitDigits? c.rest).elim 0 fun r => byteSize r.1) := by
  obtain ⟨hsuffix, hoffset⟩ := h.whole
  have hbyte := @byte?_eq_some_place_iff s c.rest '-' (by decide) hsuffix
  rw [hoffset]
  by_cases hminus : ∃ tail, c.rest = '-' :: tail
  · obtain ⟨tail, hc⟩ := hminus
    rw [hc] at hsuffix hbyte ⊢
    refine @digitsSize_unsigned s ['-'] tail hsuffix ?_
    rw [List.singleton_append, if_pos (hbyte.mpr rfl)]
    exact place_cons_of_not_isWide hsuffix (by decide)
  · rw [splitDigits?_of_ne hminus]
    refine @digitsSize_unsigned s [] c.rest hsuffix ?_
    apply if_neg
    intro hhead
    obtain ⟨tail, hc⟩ := List.head?_eq_some_iff.mp (hbyte.mp hhead)
    exact hminus ⟨tail, hc⟩

/-- What is parsed as a decimal is split at its point again. -/
theorem decimal?_eq {whole fraction : List Char} (hwhole : IsWhole whole) :
    decimal? (whole ++ '.' :: fraction) =
      Binary64.ofDecimal (signedDigits (whole ++ fraction)).1
        (signedDigits (whole ++ fraction)).2 (-(fraction.length : Int)) := by
  have hpoint : ∀ ch ∈ whole, (ch ≠ '.' : Bool) = true := by
    obtain ⟨sign, digits, rfl, hsign, -, hdigits⟩ := hwhole
    intro ch hch
    rw [decide_eq_true_eq]
    rintro rfl
    rcases List.mem_append.mp hch with hch | hch
    · rcases hsign with rfl | rfl
      · cases hch
      · cases List.mem_singleton.mp hch
    · cases hdigits _ hch
  obtain ⟨htake, hdrop⟩ := @takeWhile_append_of_ends _ whole ('.' :: fraction) hpoint (by
    rintro ch ⟨⟩
    rfl)
  rw [decimal?, htake, hdrop]
  rfl

private theorem Stands.digits_cases (h : Stands s [] c) :
    splitDigits? c.rest = none ∧ digitsSize s c.offset = .ok 0 ∨
      ∃ digits rest, splitDigits? c.rest = some (digits, rest) ∧ c.rest = digits ++ rest ∧
        IsWhole digits ∧ digitsSize s c.offset = .ok (byteSize digits) ∧ byteSize digits ≠ 0 := by
  have hsize := h.digitsSize_eq
  cases hdigits : splitDigits? c.rest with
  | none =>
    rw [hdigits] at hsize
    exact Or.inl ⟨rfl, hsize⟩
  | some r =>
    obtain ⟨digits, rest⟩ := r
    rw [hdigits] at hsize
    obtain ⟨hc, hwhole, -⟩ := splitDigits?_eq_some_iff.mp hdigits
    have hpos := byteSize_pos hwhole.ne_nil
    exact Or.inr ⟨digits, rest, rfl, hc, hwhole, hsize, Nat.ne_of_gt hpos⟩

private theorem float_eq_map {whole tail : List Char}
    (hdigits : splitDigits? c.rest = some (whole, '.' :: tail)) :
    Rule.float scope c =
      if tail.takeWhile Char.isDigit = [] then none
      else (decimal? (whole ++ '.' :: tail.takeWhile Char.isDigit)).map fun x =>
        scalarToken c (whole ++ '.' :: tail.takeWhile Char.isDigit) (.float x) false := by
  obtain ⟨-, hwhole, -⟩ := splitDigits?_eq_some_iff.mp hdigits
  rw [Rule.float, hdigits, decimal?_eq hwhole]
  simp only [Option.bind_eq_bind, Option.bind_some]
  cases tail.takeWhile Char.isDigit with
  | nil => rfl
  | cons digit digits =>
    rw [if_neg (List.cons_ne_nil digit digits), Option.map_eq_bind]
    rfl

private theorem float_eq_none {whole rest : List Char}
    (hdigits : splitDigits? c.rest = some (whole, rest)) (h : ¬rest.head? = some '.') :
    Rule.float scope c = none := by
  rw [Rule.float, hdigits]
  simp only [Option.bind_eq_bind, Option.bind_some]
  split
  · exact absurd rfl h
  · rfl

/-- At a place of a text, a float is read by bytes as by characters. -/
theorem Stands.float_eq (h : Stands s [] c) :
    ByteRule.float s value c.offset = .ok (Rule.float scope c) := by
  unfold ByteRule.float
  rcases h.digits_cases with ⟨hdigits, hsize⟩ | ⟨whole, rest, hdigits, hc, -, hsize, hne⟩
  · rw [hsize, ok_bind, Rule.float, hdigits]
    exact if_pos (Or.inl rfl)
  · have hpoint : c.offset + byteSize whole = place s rest := (h.advance hc).whole.2
    have hrest : rest <:+ s := (h.advance hc).whole.1
    have hbyte := @byte?_eq_some_place_iff s rest '.' (by decide) hrest
    rw [hsize, ok_bind, hpoint]
    by_cases hdot : rest.head? = some '.'
    · rw [if_neg (not_or_intro hne (not_not_intro (hbyte.mpr hdot)))]
      obtain ⟨tail, rfl⟩ := List.head?_eq_some_iff.mp hdot
      have htail := suffix_of_cons hrest
      have hsplit : tail.takeWhile Char.isDigit ++ tail.dropWhile Char.isDigit = tail :=
        List.takeWhile_append_dropWhile
      have hstop := place_append (hsplit.symm ▸ htail)
      rw [hsplit] at hstop
      have htext : c.rest = (whole ++ '.' :: tail.takeWhile Char.isDigit) ++
          tail.dropWhile Char.isDigit := by
        rw [hc, List.append_assoc, List.cons_append, hsplit]
      have hend : c.offset + byteSize (whole ++ '.' :: tail.takeWhile Char.isDigit) =
          place s (tail.dropWhile Char.isDigit) := (h.advance htext).whole.2
      have hslice := h.sliceAt_append htext
      rw [List.append_nil] at hslice
      rw [float_eq_map hdigits, place_cons_of_not_isWide hrest (by decide)]
      dsimp only
      rw [runEnd_place_end isNarrow_isDigit.isEven htail, ok_bind]
      by_cases hfraction : tail.takeWhile Char.isDigit = []
      · rw [hfraction, byteSize_nil, Nat.add_zero] at hstop
        rw [if_pos hstop, if_pos hfraction]
        rfl
      · have hpos := byteSize_pos hfraction
        rw [if_neg (by omega), if_neg hfraction, hslice, ok_bind]
        cases decimal? (whole ++ '.' :: tail.takeWhile Char.isDigit) with
        | none => rfl
        | some number =>
          dsimp only
          rw [← hend, h.scalarAt_eq htext rfl]
          rfl
    · rw [float_eq_none hdigits hdot]
      exact if_pos (Or.inr (mt hbyte.mp hdot))

/-- At a place of a text, an integer is read by bytes as by characters. -/
theorem Stands.integer_eq (h : Stands s [] c) :
    ByteRule.integer s value c.offset = .ok (Rule.integer scope c) := by
  unfold ByteRule.integer Rule.integer
  rcases h.digits_cases with ⟨hdigits, hsize⟩ | ⟨digits, rest, hdigits, hc, -, hsize, hne⟩
  · rw [hdigits, hsize, ok_bind]
    exact if_pos rfl
  · have hstop : c.offset + byteSize digits = place s rest := (h.advance hc).whole.2
    have hslice := h.sliceAt_append hc
    rw [List.append_nil, ← hstop] at hslice
    rw [hdigits, hsize, ok_bind, Option.bind_eq_bind, Option.bind_some, if_neg hne, hslice,
      ok_bind]
    dsimp only
    cases wholeNumber? (signedDigits digits).1 (signedDigits digits).2 with
    | none => rfl
    | some value =>
      dsimp only
      rw [h.scalarAt_eq hc rfl]
      rfl

/-- At a place of a text, an identifier is read by bytes as by characters. -/
theorem Stands.identifierAt_eq (h : Stands s [] c) :
    identifierAt s c.offset = .ok (identifier? c) := by
  obtain ⟨hsuffix, hoffset⟩ := h.whole
  rw [identifierAt, identifier?, hoffset, byte?_any_place isNarrow_isWordStart hsuffix]
  cases hc : c.rest with
  | nil => rfl
  | cons first text =>
    rw [hc] at hsuffix
    rw [List.head?_cons, Option.any_some]
    dsimp only
    by_cases hfirst : isWordStart first = true
    · have hchar := isWordChar_of_isWordStart hfirst
      have hascii : ¬IsWide first := by
        intro hwide
        rw [isNarrow_isWordStart first hwide] at hfirst
        cases hfirst
      have hdrop : (first :: text).dropWhile isWordChar = text.dropWhile isWordChar := by
        rw [List.dropWhile_cons, if_pos hchar]
      have hslice := @sliceAt_takeWhile_end s (first :: text) isWordChar hsuffix
      rw [if_pos hfirst, if_pos hfirst, place_cons_of_not_isWide hsuffix hascii,
        runEnd_place_end isNarrow_isWordChar.isEven (suffix_of_cons hsuffix), ok_bind, ← hdrop,
        hslice, ok_bind]
      have hsplit : (first :: text).takeWhile isWordChar ++ (first :: text).dropWhile isWordChar =
        first :: text := List.takeWhile_append_dropWhile
      have hstop := place_append (hsplit.symm ▸ hsuffix)
      rw [hsplit] at hstop
      rw [hstop]
      rfl
    · rw [if_neg hfirst, if_neg hfirst]
      rfl

/-- At a place of a text, a program is read by bytes as by characters. -/
theorem Stands.program_eq (h : Stands s [] c) :
    ByteRule.program s value c.offset = .ok (Rule.program scope c) := by
  obtain ⟨hsuffix, hoffset⟩ := h.whole
  unfold ByteRule.program Rule.program
  split
  · next text hc =>
    rw [hc] at hsuffix hoffset
    rw [hoffset, findProgram_place hsuffix, ok_bind, ← hoffset]
    cases hsplit : splitBraces 0 text with
    | none => rfl
    | some r =>
      obtain ⟨inner, rest⟩ := r
      obtain ⟨rfl, -⟩ := splitBraces_eq_some_iff.mp hsplit
      have hinner := h.sliceAt_inner hc (by decide) (by decide)
      rw [List.append_nil] at hinner
      have htext : c.rest = ('{' :: inner ++ ['}']) ++ rest := by
        rw [hc, List.append_assoc, List.cons_append, List.singleton_append]
      have hend : c.offset + byteSize inner + 2 = place s rest := by
        have hstop : c.offset + byteSize ('{' :: inner ++ ['}']) = place s rest :=
          (h.advance htext).whole.2
        rw [← hstop, byteSize_append, byteSize_cons]
        have hopening : '{'.utf8Size = 1 := rfl
        have hclosing : byteSize ['}'] = 1 := rfl
        omega
      dsimp only [Option.map_some]
      rw [← bind_assoc, hinner, ok_bind, hend]
      rfl
  · next hne =>
    have hbyte := @byte?_eq_some_place_iff s c.rest '{' (by decide) hsuffix
    have hnone : findProgram s c.offset = .ok none := by
      rw [hoffset, findProgram]
      apply if_neg
      intro hbrace
      obtain ⟨text, hc⟩ := List.head?_eq_some_iff.mp (hbyte.mp hbrace)
      exact hne text hc
    rw [hnone]
    rfl

/-- No character begins at an offset: the text cannot be split there, and the byte there, if any, is
outside ASCII. -/
structure IsAstray (s : List Char) (i : Nat) : Prop where
  splitBytes? : splitBytes? i s = none
  isWide : ∀ b, byte? s i = some b → IsWide b

/-- An offset is the place of a cursor in the text, or no character begins there. -/
theorem exists_stands_or_isAstray (s : List Char) (i : Nat) :
    (∃ c, Stands s [] c ∧ c.offset = i ∧ Cursor.atOffset s i = c) ∨
      IsAstray s i ∧ Cursor.atOffset s i = ⟨i, []⟩ := by
  rcases exists_place_or_isWide s i with ⟨rest, hrest, rfl⟩ | ⟨hsplit, hwide⟩
  · exact Or.inl ⟨_, stands_place hrest, rfl, atOffset_place hrest⟩
  · refine Or.inr ⟨⟨hsplit, hwide⟩, ?_⟩
    rw [Cursor.atOffset, hsplit]
    rfl

/-- No slice begins where no character begins. -/
theorem IsAstray.slice?_eq_none (h : IsAstray s i) (j : Nat) : slice? s i j = none := by
  rw [slice?, h.splitBytes?]
  rfl

/-- Where no character begins, the byte is in no narrow class. -/
theorem IsAstray.byte?_any (h : IsAstray s i) {p : Char → Bool} (hp : IsNarrow p) :
    (byte? s i).any p = false := by
  rw [Option.any_eq_false]
  exact fun b hb => hp b (h.isWide b hb)

/-- Where no character begins, there is no byte of ASCII. -/
theorem IsAstray.byte?_ne (h : IsAstray s i) {d : Char} (hd : ¬IsWide d) : byte? s i ≠ some d :=
  fun hb => hd (h.isWide d hb)

/-- Where no character begins, no word stands. -/
theorem IsAstray.wordStandsAt_eq_false (h : IsAstray s i) (word : List Char) :
    wordStandsAt s i word = false := by
  rw [wordStandsAt, h.slice?_eq_none]

/-- Where no character begins, there are no digits. -/
theorem IsAstray.digitsSize_eq (h : IsAstray s i) : digitsSize s i = .ok 0 := by
  have hrun : runEnd s Char.isDigit (byteSize s) i = .ok i := by
    apply loop_done
    unfold runTurn
    split
    · next hi =>
      cases hb : byte? s i with
      | none => exact absurd hi (Nat.not_lt.mpr (byte?_eq_none_iff.mp hb))
      | some b =>
        have hdigit := isNarrow_isDigit b (h.isWide b hb)
        rw [byteAt, hb, ok_bind, hdigit]
        rfl
    · rfl
  rw [digitsSize, if_neg (h.byte?_ne (by decide)), hrun]
  exact if_pos rfl

/-- Where no character begins, there is no identifier. -/
theorem IsAstray.identifierAt_eq (h : IsAstray s i) : identifierAt s i = .ok none := by
  rw [identifierAt, h.byte?_any isNarrow_isWordStart]
  rfl

/-- Where no character begins, there is no string. -/
theorem IsAstray.string_eq (h : IsAstray s i) : ByteRule.string s value i = .ok none := by
  rw [ByteRule.string, h.slice?_eq_none]
  rfl

end

end TemplateReader.Bytes
