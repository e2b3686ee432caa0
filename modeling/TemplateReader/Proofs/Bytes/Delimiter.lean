import TemplateReader.Bytes.Delimiter
import TemplateReader.Proofs.Bytes.Loop
import TemplateReader.Proofs.Delimiter.Extent

/-!
# Boundaries by bytes and by characters

Every search for the end of a construct, started at the place of its opening,
ends without a fault and finds the place that the search by characters finds. A
backslash may send the search into the middle of a character; no byte there is
a delimiter, so that it comes out at the next character.
-/

namespace TemplateReader.Bytes

section

variable {s text rest : List Char} {quote c : Char}

/-- A turn of the search for a quote goes by the byte at its offset, and skips the one behind a
backslash. -/
theorem quoteTurn_of_byteAt {i : Nat} {b : Char} (hb : byteAt s i = .ok b) :
    quoteTurn s quote i () =
      .ok (if b = '\\' then .next (i + 2) ()
        else if b = quote then .done (some (i + 1))
        else .next (i + 1) ()) := by
  simp only [quoteTurn, lt_of_byteAt hb, if_true, hb, ok_bind, pure_eq_ok]

private theorem quoteTurn_of_ne {i : Nat} {b : Char} (hb : byteAt s i = .ok b) (hslash : b ≠ '\\')
    (hquote : b ≠ quote) : quoteTurn s quote i () = .ok (.next (i + 1) ()) := by
  rw [quoteTurn_of_byteAt hb, if_neg hslash, if_neg hquote]

/-- At the end of the text the search for a quote finds none. -/
theorem quoteTurn_end {i : Nat} (hi : byteSize s ≤ i) :
    quoteTurn s quote i () = .ok (.done none) := by
  rw [quoteTurn, if_neg (Nat.not_lt.mpr hi)]
  rfl

private theorem quoteLoop_place (hquote : ¬IsWide quote) (h : text <:+ s) :
    loop (byteSize s) (quoteTurn s quote) (place s text) () =
      .ok ((splitQuote quote text).map fun p => place s p.2) := by
  fun_induction splitQuote quote text with
  | case1 => exact loop_done (quoteTurn_end (Nat.le_refl _))
  | case2 =>
    have hslash : ¬IsWide '\\' := by decide
    have hfirst : place s ['\\'] + 1 = byteSize s := place_cons_of_not_isWide h hslash
    have hturn : quoteTurn s quote (place s ['\\']) () = .ok (.next (place s ['\\'] + 2) ()) := by
      rw [quoteTurn_of_byteAt (byteAt_place h hslash), if_pos rfl]
    rw [loop_next hturn (by omega) (by omega)]
    exact loop_done (quoteTurn_end (by omega))
  | case3 c text ih =>
    have hslash : ¬IsWide '\\' := by decide
    have hturn : quoteTurn s quote (place s ('\\' :: c :: text)) () =
        .ok (.next (place s ('\\' :: c :: text) + 2) ()) := by
      rw [quoteTurn_of_byteAt (byteAt_place h hslash), if_pos rfl]
    rw [loop_pair h hslash hturn, ih (suffix_of_cons (suffix_of_cons h)), Option.map_map]
    · rfl
    · intro i b hb hwide
      exact quoteTurn_of_ne hb (hwide.ne hslash) (hwide.ne hquote)
  | case4 text hnil hcons =>
    have hslash := ne_backslash_of_cases hnil hcons
    apply loop_done
    rw [quoteTurn_of_byteAt (byteAt_place h hquote), if_neg hslash, if_pos rfl,
      place_cons_of_not_isWide h hquote]
    rfl
  | case5 c text hnil hcons hne ih =>
    have hslash := ne_backslash_of_cases hnil hcons
    rw [Option.map_map]
    refine Eq.trans ?_ (ih (suffix_of_cons h))
    apply loop_char h
    · intro hc
      exact quoteTurn_of_ne (byteAt_place h hc) hslash hne
    · intro _ i b hb hwide _
      exact quoteTurn_of_ne hb (hwide.ne (by decide)) (hwide.ne hquote)

/-- The quotes of a script are characters of ASCII. -/
theorem not_isWide_of_isScriptQuote (h : isScriptQuote c = true) : ¬IsWide c := by
  intro hc
  rw [isNarrow_isScriptQuote c hc] at h
  cases h

/-- The search for a closing quote finds where the quoted run ends. -/
theorem findQuote_place (hquote : isScriptQuote quote = true) (h : quote :: text <:+ s) :
    findQuote s (place s (quote :: text)) =
      .ok ((splitQuote quote text).map fun p => place s p.2) := by
  have hascii := not_isWide_of_isScriptQuote hquote
  have hbyte := (byte?_eq_some_place_iff hascii h).mpr rfl
  rw [findQuote, hbyte]
  simp only [hquote, if_true]
  rw [place_cons_of_not_isWide h hascii]
  exact quoteLoop_place hascii (suffix_of_cons h)

/-- A quoted run is its content between two quotes, in front of what is left. -/
theorem quoted_append {inner : List Char} (hs : splitQuote quote text = some (inner, rest)) :
    quote :: text = (quote :: inner ++ [quote]) ++ rest := by
  rw [eq_append_of_splitQuote hs]
  simp only [List.cons_append, List.append_assoc, List.nil_append]

/-- What follows a quoted run begins behind its opening quote. -/
theorem quoted_place {inner : List Char} (h : quote :: text <:+ s)
    (hs : splitQuote quote text = some (inner, rest)) :
    rest <:+ s ∧ place s (quote :: text) < place s rest := by
  rw [quoted_append hs] at h ⊢
  exact ⟨suffix_of_append h, place_lt_of_append h (List.cons_ne_nil _ _)⟩

/-- A turn of the search for a closing brace goes by the byte at its offset, and leaps over quoted
runs. -/
theorem programTurn_of_byteAt {i depth : Nat} {b : Char} (hb : byteAt s i = .ok b) :
    programTurn s i depth =
      if isScriptQuote b then
        findQuote s i >>= fun
          | none => .ok (.done none)
          | some j => .ok (.next j depth)
      else if b = '{' then .ok (.next (i + 1) (depth + 1))
      else if b = '}' then
        minus depth 1 >>= fun depth =>
          .ok (if depth = 0 then .done (some (i + 1)) else .next (i + 1) depth)
      else .ok (.next (i + 1) depth) := by
  rw [programTurn, if_pos (lt_of_byteAt hb), hb]
  rfl

private theorem programTurn_of_isWide {i depth : Nat} {b : Char} (hb : byteAt s i = .ok b)
    (hwide : IsWide b) : programTurn s i depth = .ok (.next (i + 1) depth) := by
  rw [programTurn_of_byteAt hb, isNarrow_isScriptQuote b hwide, if_neg Bool.false_ne_true,
    if_neg (hwide.ne (by decide)), if_neg (hwide.ne (by decide))]

private theorem programLoop_place {depth : Nat} (h : text <:+ s) :
    loop (byteSize s) (programTurn s) (place s text) (depth + 1) =
      .ok ((splitBraces depth text).map fun p => place s p.2) := by
  fun_induction splitBraces depth text with
  | case1 depth =>
    apply loop_done
    rw [programTurn, place_nil, if_neg (Nat.lt_irrefl _)]
    rfl
  | case2 depth c text hc hq =>
    apply loop_done
    rw [programTurn_of_byteAt (byteAt_place h (not_isWide_of_isScriptQuote hc)), if_pos hc,
      findQuote_place hc h, hq]
    rfl
  | case3 depth c text hc quoted rest hq hlt ih =>
    obtain ⟨hrest, hplace⟩ := quoted_place h hq
    have hturn : programTurn s (place s (c :: text)) (depth + 1) =
        .ok (.next (place s rest) (depth + 1)) := by
      rw [programTurn_of_byteAt (byteAt_place h (not_isWide_of_isScriptQuote hc)), if_pos hc,
        findQuote_place hc h, hq]
      rfl
    rw [loop_next hturn hplace (place_lt_of_cons h), ih hrest, Option.map_map]
    rfl
  | case4 depth text hq ih =>
    have hascii : ¬IsWide '{' := by decide
    have hturn : programTurn s (place s ('{' :: text)) (depth + 1) =
        .ok (.next (place s ('{' :: text) + 1) (depth + 1 + 1)) := by
      rw [programTurn_of_byteAt (byteAt_place h hascii), if_neg hq, if_pos rfl]
    rw [loop_next hturn (Nat.lt_succ_self _) (place_lt_of_cons h),
      place_cons_of_not_isWide h hascii, ih (suffix_of_cons h), Option.map_map]
    rfl
  | case5 text hq hb =>
    have hascii : ¬IsWide '}' := by decide
    apply loop_done
    rw [programTurn_of_byteAt (byteAt_place h hascii), if_neg hq, if_neg hb, if_pos rfl,
      minus_eq (Nat.le_refl _), place_cons_of_not_isWide h hascii]
    rfl
  | case6 text depth hq hb ih =>
    have hascii : ¬IsWide '}' := by decide
    have hturn : programTurn s (place s ('}' :: text)) (depth + 1 + 1) =
        .ok (.next (place s ('}' :: text) + 1) (depth + 1)) := by
      rw [programTurn_of_byteAt (byteAt_place h hascii), if_neg hq, if_neg hb, if_pos rfl,
        minus_eq (Nat.le_add_left _ _)]
      rfl
    rw [loop_next hturn (Nat.lt_succ_self _) (place_lt_of_cons h),
      place_cons_of_not_isWide h hascii, ih (suffix_of_cons h), Option.map_map]
    rfl
  | case7 depth c text hq hb hc ih =>
    rw [Option.map_map]
    refine Eq.trans ?_ (ih (suffix_of_cons h))
    apply loop_char h
    · intro hascii
      rw [programTurn_of_byteAt (byteAt_place h hascii), if_neg hq, if_neg hb, if_neg hc]
    · intro _ i b hbyte hwide _
      exact programTurn_of_isWide hbyte hwide

/-- The search for a closing brace finds where the braced run ends. -/
theorem findProgram_place (h : '{' :: text <:+ s) :
    findProgram s (place s ('{' :: text)) =
      .ok ((splitBraces 0 text).map fun p => place s p.2) := by
  have hascii : ¬IsWide '{' := by decide
  have hbyte := (byte?_eq_some_place_iff hascii h).mpr rfl
  have hturn : programTurn s (place s ('{' :: text)) 0 =
      .ok (.next (place s ('{' :: text) + 1) (0 + 1)) := by
    rw [programTurn_of_byteAt (byteAt_place h hascii), if_neg (by decide), if_pos rfl]
  rw [findProgram, if_pos hbyte, loop_next hturn (Nat.lt_succ_self _) (place_lt_of_cons h),
    place_cons_of_not_isWide h hascii]
  exact programLoop_place (suffix_of_cons h)

/-- A run in braces is its content between the braces, in front of what is left. -/
theorem braced_append {inner : List Char} (hs : splitBraces 0 text = some (inner, rest)) :
    '{' :: text = ('{' :: inner ++ ['}']) ++ rest := by
  rw [eq_append_of_splitBraces hs]
  simp only [List.cons_append, List.append_assoc, List.nil_append]

/-- What follows a braced run begins behind its opening brace. -/
theorem braced_place {inner : List Char} (h : '{' :: text <:+ s)
    (hs : splitBraces 0 text = some (inner, rest)) :
    rest <:+ s ∧ place s ('{' :: text) < place s rest := by
  rw [braced_append hs] at h ⊢
  exact ⟨suffix_of_append h, place_lt_of_append h (List.cons_ne_nil _ _)⟩

/-- The quotes of a tag are characters of ASCII. -/
theorem not_isWide_of_isTagQuote (h : isTagQuote c = true) : ¬IsWide c := by
  intro hc
  rw [isNarrow_isTagQuote c hc] at h
  cases h

/-- A turn of the search for the end of a tag goes by the byte at its offset, and leaps over quoted
runs and runs in braces. -/
theorem markupTurn_of_byteAt {i : Nat} {b : Char} (hb : byteAt s i = .ok b) :
    markupTurn s i () =
      if isTagQuote b then
        findQuote s i >>= fun
          | none => .ok (.done none)
          | some j => .ok (.next j ())
      else if b = '{' then
        findProgram s i >>= fun
          | none => .ok (.done none)
          | some j => .ok (.next j ())
      else if b = '>' then .ok (.done (some (i + 1)))
      else .ok (.next (i + 1) ()) := by
  rw [markupTurn, if_pos (lt_of_byteAt hb), hb]
  rfl

private theorem toOption_passing (passed : List Char)
    (e : Except TagFault (List Char × List Char)) :
    (passing passed e).toOption.map (fun p => place s p.2) =
      e.toOption.map fun p => place s p.2 := by
  cases e with
  | ok p => rfl
  | error fault => rfl

private theorem markupLoop_place (h : text <:+ s) :
    loop (byteSize s) (markupTurn s) (place s text) () =
      .ok ((splitTag text).toOption.map fun p => place s p.2) := by
  fun_induction splitTag text with
  | case1 =>
    apply loop_done
    rw [markupTurn, place_nil, if_neg (Nat.lt_irrefl _)]
    rfl
  | case2 c text hc hq =>
    apply loop_done
    rw [markupTurn_of_byteAt (byteAt_place h (not_isWide_of_isTagQuote hc)), if_pos hc,
      findQuote_place (isScriptQuote_of_isTagQuote hc) h, hq]
    rfl
  | case3 c text hc quoted rest hq hlt ih =>
    obtain ⟨hrest, hplace⟩ := quoted_place h hq
    have hturn : markupTurn s (place s (c :: text)) () = .ok (.next (place s rest) ()) := by
      rw [markupTurn_of_byteAt (byteAt_place h (not_isWide_of_isTagQuote hc)), if_pos hc,
        findQuote_place (isScriptQuote_of_isTagQuote hc) h, hq]
      rfl
    rw [loop_next hturn hplace (place_lt_of_cons h), ih hrest, toOption_passing]
  | case4 text hq hb =>
    apply loop_done
    rw [markupTurn_of_byteAt (byteAt_place h (by decide)), if_neg hb, if_pos rfl,
      findProgram_place h, hq]
    rfl
  | case5 text braced rest hs hlt hq ih =>
    obtain ⟨hrest, hplace⟩ := braced_place h hs
    have hturn : markupTurn s (place s ('{' :: text)) () = .ok (.next (place s rest) ()) := by
      rw [markupTurn_of_byteAt (byteAt_place h (by decide)), if_neg hq, if_pos rfl,
        findProgram_place h, hs]
      rfl
    rw [loop_next hturn hplace (place_lt_of_cons h), ih hrest, toOption_passing]
  | case6 text hq hb =>
    have hascii : ¬IsWide '>' := by decide
    apply loop_done
    rw [markupTurn_of_byteAt (byteAt_place h hascii), if_neg hq, if_neg hb, if_pos rfl,
      place_cons_of_not_isWide h hascii]
    rfl
  | case7 c text hq hb hg ih =>
    rw [toOption_passing]
    refine Eq.trans ?_ (ih (suffix_of_cons h))
    apply loop_char h
    · intro hascii
      rw [markupTurn_of_byteAt (byteAt_place h hascii), if_neg hq, if_neg hb, if_neg hg]
    · intro _ i b hbyte hwide _
      rw [markupTurn_of_byteAt hbyte, isNarrow_isTagQuote b hwide, if_neg Bool.false_ne_true,
        if_neg (hwide.ne (by decide)), if_neg (hwide.ne (by decide))]

/-- The search for the end of a tag finds it, or nothing if the tag has none. -/
theorem findMarkup_place (h : '<' :: text <:+ s) :
    findMarkup s (place s ('<' :: text)) =
      .ok ((splitTag text).toOption.map fun p => place s p.2) := by
  have hascii : ¬IsWide '<' := by decide
  have hbyte := (byte?_eq_some_place_iff hascii h).mpr rfl
  rw [findMarkup, if_pos hbyte, place_cons_of_not_isWide h hascii]
  exact markupLoop_place (suffix_of_cons h)

/-- A pattern is found as many bytes behind a place as there are before its first occurrence. -/
theorem find?_place {pattern before : List Char} (h : text <:+ s)
    (hs : splitPattern pattern text = some (before, rest)) :
    find? pattern text = some (byteSize before) ∧ pattern ++ rest <:+ s ∧
      place s (pattern ++ rest) = place s text + byteSize before := by
  have htext := eq_append_of_splitPattern hs
  rw [htext] at h
  refine ⟨?_, suffix_of_append h, ?_⟩
  · rw [find?, hs]
    rfl
  · rw [place_append h, ← htext]

/-- Where splitting at a pattern fails, the search for the pattern fails. -/
theorem find?_eq_none {pattern : List Char} (hs : splitPattern pattern text = none) :
    find? pattern text = none := by
  rw [find?, hs]
  rfl

/-- The search for the closing of a comment finds where the comment ends. -/
theorem findComment_place (h : commentOpening ++ text <:+ s) :
    findComment s (place s (commentOpening ++ text)) =
      .ok ((splitPattern commentClosing text).map fun p => place s p.2) := by
  have htext := suffix_of_append h
  have hopening : commentOpening.isPrefixOf (commentOpening ++ text) = true :=
    List.isPrefixOf_iff_prefix.mpr (List.prefix_append _ _)
  have hinside : place s (commentOpening ++ text) + 4 = place s text := (place_append h).symm
  rw [findComment, slice?_place_end h]
  simp only [hopening, if_true]
  rw [hinside, sliceAt_place_end htext]
  cases hs : splitPattern commentClosing text with
  | none =>
    rw [ok_bind, find?_eq_none hs]
    rfl
  | some p =>
    obtain ⟨before, rest⟩ := p
    obtain ⟨hfind, hclosing, hplace⟩ := find?_place htext hs
    rw [ok_bind, hfind, Option.map_some, Option.map_some, ← hplace, place_append hclosing]
    rfl

private theorem utf8Size_toLower (c : Char) : c.toLower.utf8Size = c.utf8Size := by
  unfold Char.toLower
  split
  · next h =>
    have hle : c.val.toNat ≤ 90 := UInt32.le_iff_toNat_le.mp h.2
    have hsize : c.utf8Size = 1 :=
      Char.utf8Size_eq_one_iff.mpr (UInt32.le_iff_toNat_le.mpr (Nat.le_trans hle (by decide)))
    rw [hsize, Char.utf8Size_eq_one_iff, UInt32.le_iff_toNat_le, UInt32.toNat_add]
    exact Nat.le_trans (Nat.mod_le _ _) (Nat.le_trans (Nat.add_le_add_right hle _) (by decide))
  · rfl

private theorem byteSize_eq_of_eqIgnoreCase {a b : List Char} (h : eqIgnoreCase a b = true) :
    byteSize a = byteSize b := by
  induction a generalizing b with
  | nil =>
    cases b with
    | nil => rfl
    | cons d b => simp [eqIgnoreCase] at h
  | cons c a ih =>
    cases b with
    | nil => simp [eqIgnoreCase] at h
    | cons d b =>
      simp only [eqIgnoreCase, List.map_cons, beq_iff_eq, List.cons.injEq] at h
      have hsize : c.utf8Size = d.utf8Size := by
        rw [← utf8Size_toLower c, h.1, utf8Size_toLower]
      rw [byteSize_cons, byteSize_cons, hsize, ih (beq_iff_eq.mpr h.2)]

private theorem splitFirst_eq_of_pattern {α : Type} {f : List Char → Option α} {pattern : List Char}
    (hf : ∀ t, dropWord? pattern t = none → f t = none) :
    splitFirst f text =
      (splitPattern pattern text).bind fun p =>
        (splitFirst f (pattern ++ p.2)).map fun q => (p.1 ++ q.1, q.2) := by
  induction text with
  | nil =>
    cases hd : dropWord? pattern [] with
    | none =>
      simp only [splitPattern, splitFirst, hd, hf [] hd, Option.map_none, Option.bind_none]
    | some r =>
      simp only [splitPattern, splitFirst, hd, Option.map_some, Option.bind_some,
        ← eq_append_of_dropWord? hd, List.nil_append]
      exact Option.map_id'.symm
  | cons c text ih =>
    cases hd : dropWord? pattern (c :: text) with
    | none =>
      rw [splitFirst, hf _ hd, ih, splitPattern, splitPattern, splitFirst, hd]
      dsimp only
      cases splitFirst (dropWord? pattern) text with
      | none => rfl
      | some p =>
        simp only [Option.bind_some, Option.map_some, Option.map_map]
        rfl
    | some r =>
      rw [splitPattern, splitFirst.eq_2 (dropWord? pattern), hd]
      simp only [Option.bind_some, ← eq_append_of_dropWord? hd, List.nil_append]
      exact Option.map_id'.symm

private theorem closeTag?_of_dropWord?_eq_none {name : List Char}
    (h : dropWord? ['<', '/'] text = none) : closeTag? name text = none := by
  rw [closeTag?, h]
  rfl

private theorem splitRawText_eq {name : List Char} :
    splitRawText name text =
      (splitPattern ['<', '/'] text).bind fun p =>
        match closeTag? name ('<' :: '/' :: p.2) with
        | some rest => some (p.1, rest)
        | none => (splitRawText name p.2).map fun q => (p.1 ++ '<' :: '/' :: q.1, q.2) := by
  rw [splitRawText, splitFirst_eq_of_pattern fun t ht => closeTag?_of_dropWord?_eq_none ht]
  congr 1
  funext p
  have hslash : closeTag? name ('/' :: p.2) = none := closeTag?_of_dropWord?_eq_none rfl
  rw [List.cons_append, List.cons_append, List.nil_append, splitFirst]
  cases closeTag? name ('<' :: '/' :: p.2) with
  | some rest => simp only [Option.map_some, List.append_nil]
  | none =>
    dsimp only
    rw [splitFirst, hslash]
    simp only [Option.map_map]
    rfl

private theorem slice?_name_place {name : List Char} (h : text <:+ s) :
    (slice? s (place s text) (place s text + byteSize name)).any
        (fun candidate => eqIgnoreCase candidate name) =
      (dropWordIgnoreCase? name text).isSome := by
  rw [Bool.eq_iff_iff, Option.any_eq_true, Option.isSome_iff_exists]
  constructor
  · rintro ⟨candidate, hslice, hname⟩
    obtain ⟨after, rfl, -⟩ := (slice?_place_eq_some_iff h).mp hslice
    rw [eqIgnoreCase_comm] at hname
    exact ⟨after, dropWordIgnoreCase?_append hname after⟩
  · rintro ⟨after, hdrop⟩
    obtain ⟨found, hname, rfl⟩ := eq_append_of_dropWordIgnoreCase? hdrop
    refine ⟨found, (slice?_place_eq_some_iff h).mpr ⟨after, rfl, ?_⟩, ?_⟩
    · rw [byteSize_eq_of_eqIgnoreCase hname]
    · rw [eqIgnoreCase_comm]
      exact hname

private theorem closeTagTurn_place {before : List Char} (name : List Char) (h : text <:+ s)
    (hs : splitPattern ['<', '/'] text = some (before, rest)) :
    closeTagTurn s name (place s text) () =
      .ok (match closeTag? name ('<' :: '/' :: rest) with
        | some after => .done (some (place s text + byteSize before, place s after))
        | none => .next (place s rest) ()) := by
  obtain ⟨hfind, hopening, hplace⟩ := find?_place h hs
  have hrest := suffix_of_append hopening
  have hstart : place s text + byteSize before + 2 = place s rest := by
    rw [← hplace, place_append hopening]
    rfl
  rw [closeTagTurn, slice?_place_end h, Option.bind_some, hfind]
  dsimp only
  rw [hstart, slice?_name_place hrest, closeTag?]
  simp only [dropWord?, if_true, Option.bind_eq_bind, Option.bind_some]
  cases hdrop : dropWordIgnoreCase? name rest with
  | none => rfl
  | some afterName =>
    obtain ⟨found, hname, rfl⟩ := eq_append_of_dropWordIgnoreCase? hdrop
    have hafter := suffix_of_append hrest
    have hend : place s (found ++ afterName) + byteSize name = place s afterName := by
      rw [byteSize_eq_of_eqIgnoreCase hname, place_append hrest]
    have hspaces := (List.dropWhile_suffix (l := afterName) isSpace).trans hafter
    simp only [Option.isSome_some, if_true, Option.bind_some]
    rw [hend, runEnd_place_end isNarrow_isSpace.isEven hafter, ok_bind]
    simp only [byte?_eq_some_place_iff (show ¬IsWide '>' by decide) hspaces]
    cases hd : afterName.dropWhile isSpace with
    | nil => rfl
    | cons c tail =>
      rw [hd] at hspaces
      by_cases hc : c = '>'
      · subst hc
        rw [place_cons_of_not_isWide hspaces (by decide)]
        rfl
      · have hhead : (c :: tail).head? ≠ some '>' := fun he => hc (Option.some.inj he)
        rw [if_neg hhead]
        split
        · next after hafter =>
          split at hafter
          · next rest hrest => exact absurd (List.cons.inj hrest).1 hc
          · cases hafter
        · rfl

/-- The search for a close tag finds where the raw text before it ends, and where the tag does. -/
theorem findCloseTag_place {name : List Char} (h : text <:+ s) :
    findCloseTag s (place s text) name =
      .ok ((splitRawText name text).map fun p =>
        (place s text + byteSize p.1, place s p.2)) := by
  induction hn : text.length using Nat.strongRecOn generalizing text with
  | ind n ih =>
    rw [splitRawText_eq]
    cases hs : splitPattern ['<', '/'] text with
    | none =>
      apply loop_done
      rw [closeTagTurn, slice?_place_end h, Option.bind_some, find?_eq_none hs]
      rfl
    | some p =>
      obtain ⟨before, rest⟩ := p
      have hturn := closeTagTurn_place name h hs
      simp only [Option.bind_some]
      cases hc : closeTag? name ('<' :: '/' :: rest) with
      | some after =>
        apply loop_done
        rw [hturn, hc]
        rfl
      | none =>
        rw [hc] at hturn
        obtain ⟨-, hopening, hplace⟩ := find?_place h hs
        have hrest := place_append hopening
        have htwo : byteSize ['<', '/'] = 2 := rfl
        have hle := place_le s rest
        have hlength := length_lt_of_splitPattern (List.cons_ne_nil _ _) hs
        rw [findCloseTag, loop_next hturn (by omega) (by omega)]
        refine (ih rest.length (hn ▸ hlength) (suffix_of_append hopening) rfl).trans ?_
        rw [Option.map_map]
        congr 2
        funext q
        simp only [Function.comp, byteSize_append, byteSize_cons, Prod.mk.injEq, and_true]
        have hlt : '<'.utf8Size = 1 := rfl
        have hslash : '/'.utf8Size = 1 := rfl
        omega

end

end TemplateReader.Bytes
