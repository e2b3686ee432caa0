import TemplateReader.Proofs.Bytes.Regex
import TemplateReader.Proofs.Bytes.Statement
import TemplateReader.Proofs.Offset.Reading

/-!
# Scripts by bytes and by characters

The scan of a script takes the same steps by bytes and by characters, except
that it takes one for every byte of a character outside ASCII. Such a character
is punctuation to the scan, and so is each of its bytes.
-/

namespace TemplateReader.Bytes

section

variable {s text : List Char} {c : Cursor}

private theorem regexTurn_of_isWide {i : Nat} {inClass : Bool} {b : Char}
    (hb : byteAt s i = .ok b) (hwide : IsWide b) :
    regexTurn (utf8 s) i inClass = .ok (.next (i + 1) inClass) := by
  have hne : ∀ d, ¬IsWide d → b ≠ d := fun d hd => hwide.ne hd
  rw [regexTurn_of_byteIn hb, if_neg (hne _ (by decide)), if_neg (hne _ (by decide)),
    if_neg (hne _ (by decide)), if_neg (hne _ (by decide)), decide_eq_false (hne '/' (by decide)),
    Bool.false_and, if_neg Bool.false_ne_true]

private theorem regexLoop_place {inClass : Bool} (h : text <:+ s) :
    loop (byteSize s) (regexTurn (utf8 s)) (place s text) inClass =
      .ok ((afterRegex? inClass text).map (place s)) := by
  fun_induction afterRegex? inClass text with
  | case1 => exact loop_done (regexTurn_end (length_utf8 s).le)
  | case2 =>
    have hslash : ¬IsWide '\\' := by decide
    have hfirst : place s ['\\'] + 1 = byteSize s := place_cons_of_not_isWide h hslash
    have hturn : ∀ inClass, regexTurn (utf8 s) (place s ['\\']) inClass =
        .ok (.next (place s ['\\'] + 2) inClass) := by
      intro inClass
      rw [regexTurn_of_byteIn (byteAt_place h hslash), if_pos rfl]
    rw [loop_next (hturn _) (by omega) (by omega)]
    exact loop_done (regexTurn_end (by rw [length_utf8]; omega))
  | case3 inClass c text ih =>
    have hslash : ¬IsWide '\\' := by decide
    have hturn : regexTurn (utf8 s) (place s ('\\' :: c :: text)) inClass =
        .ok (.next (place s ('\\' :: c :: text) + 2) inClass) := by
      rw [regexTurn_of_byteIn (byteAt_place h hslash), if_pos rfl]
    rw [loop_pair h hslash hturn, ih (suffix_of_cons (suffix_of_cons h))]
    intro i b hb hwide
    exact regexTurn_of_isWide hb hwide
  | case4 inClass text =>
    apply loop_done
    rw [regexTurn_of_byteIn (byteAt_place h (by decide)), if_neg (by decide), if_pos rfl]
    rfl
  | case5 inClass text _ _ _ ih =>
    have hascii : ¬IsWide '[' := by decide
    have hturn : regexTurn (utf8 s) (place s ('[' :: text)) inClass =
        .ok (.next (place s ('[' :: text) + 1) true) := by
      rw [regexTurn_of_byteIn (byteAt_place h hascii), if_neg (by decide), if_neg (by decide),
        if_pos rfl]
    rw [loop_next hturn (Nat.lt_succ_self _) (place_lt_of_cons h),
      place_cons_of_not_isWide h hascii, ih (suffix_of_cons h)]
  | case6 inClass text _ _ _ _ ih =>
    have hascii : ¬IsWide ']' := by decide
    have hturn : regexTurn (utf8 s) (place s (']' :: text)) inClass =
        .ok (.next (place s (']' :: text) + 1) false) := by
      rw [regexTurn_of_byteIn (byteAt_place h hascii), if_neg (by decide), if_neg (by decide),
        if_neg (by decide), if_pos rfl]
    rw [loop_next hturn (Nat.lt_succ_self _) (place_lt_of_cons h),
      place_cons_of_not_isWide h hascii, ih (suffix_of_cons h)]
  | case7 inClass c text hnil hcons hline hopen hclose hend =>
    have hslash := ne_backslash_of_cases hnil hcons
    have hascii : ¬IsWide c := by
      intro hwide
      rw [decide_eq_false (hwide.ne (by decide)), Bool.false_and] at hend
      cases hend
    apply loop_done
    rw [regexTurn_of_byteIn (byteAt_place h hascii), if_neg hslash, if_neg hline, if_neg hopen,
      if_neg hclose, if_pos hend, place_cons_of_not_isWide h hascii]
    rfl
  | case8 inClass c text hnil hcons hline hopen hclose hend ih =>
    have hslash := ne_backslash_of_cases hnil hcons
    refine Eq.trans ?_ (ih (suffix_of_cons h))
    apply loop_char h
    · intro hascii
      rw [regexTurn_of_byteIn (byteAt_place h hascii), if_neg hslash, if_neg hline, if_neg hopen,
        if_neg hclose, if_neg hend]
    · intro _ i b hb hwide _
      exact regexTurn_of_isWide hb hwide

/-- A regular expression ends where its characters end. -/
theorem regexEnd_place (h : '/' :: text <:+ s) :
    regexEnd (utf8 s) (place s ('/' :: text)) =
      .ok ((afterRegex? false text).map (place s)) := by
  rw [regexEnd, length_utf8, place_cons_of_not_isWide h (by decide)]
  exact regexLoop_place (suffix_of_cons h)

/-- What is behind a regular expression is a final part of the text behind its opening slash. -/
theorem suffix_of_afterRegex? {inClass : Bool} {rest : List Char}
    (h : afterRegex? inClass text = some rest) : rest <:+ text := by
  fun_induction afterRegex? inClass text with
  | case1 | case2 | case4 => cases h
  | case3 inClass c text ih =>
    exact (ih h).trans ((List.suffix_cons _ _).trans (List.suffix_cons _ _))
  | case5 inClass text _ _ _ ih => exact (ih h).trans (List.suffix_cons _ _)
  | case6 inClass text _ _ _ _ ih => exact (ih h).trans (List.suffix_cons _ _)
  | case7 inClass c text =>
    obtain rfl := Option.some.inj h
    exact List.suffix_cons _ _
  | case8 inClass c text _ _ _ _ _ _ ih => exact (ih h).trans (List.suffix_cons _ _)

/-- A regular expression that has no end ends where it begins. -/
theorem suffix_behindRegex (text : List Char) : (afterRegex? false text).getD text <:+ text := by
  cases h : afterRegex? false text with
  | none => exact List.suffix_rfl
  | some rest => exact suffix_of_afterRegex? h

/-- So does a string. -/
theorem suffix_behindQuote (quote : Char) (text : List Char) :
    ((splitQuote quote text).map Prod.snd).getD text <:+ text := by
  cases h : splitQuote quote text with
  | none => exact List.suffix_rfl
  | some p => exact ⟨p.1 ++ [quote], by simp [eq_append_of_splitQuote h]⟩

/-- A comment that has no end ends with the text. -/
theorem suffix_behindBlock (text : List Char) :
    ((splitPattern ['*', '/'] text).map Prod.snd).getD [] <:+ text := by
  cases h : splitPattern ['*', '/'] text with
  | none => exact List.nil_suffix
  | some p => exact ⟨p.1 ++ ['*', '/'], by simp [eq_append_of_splitPattern h]⟩

private theorem lineEnd_place (h : text <:+ s) :
    (find? ['\n'] text).elim (byteSize s) (place s text + ·) =
      place s (text.dropWhile (· != '\n')) := by
  induction text with
  | nil => rfl
  | cons d text ih =>
    by_cases hd : d = '\n'
    · subst hd
      rfl
    · have hfind : find? ['\n'] (d :: text) = (find? ['\n'] text).map (d.utf8Size + ·) := by
        have hdrop : dropWord? ['\n'] (d :: text) = none := if_neg (Ne.symm hd)
        rw [find?, splitPattern, splitFirst, hdrop, find?, splitPattern]
        simp only [Option.map_map]
        rfl
      have hkeep : (d != '\n') = true := bne_iff_ne.mpr hd
      rw [List.dropWhile_cons, if_pos hkeep, ← ih (suffix_of_cons h), hfind]
      cases find? ['\n'] text with
      | none => rfl
      | some n =>
        simp only [Option.map_some, Option.elim_some]
        rw [place_cons h, Nat.add_assoc]

private theorem blockEnd_place (h : text <:+ s) :
    (find? ['*', '/'] text).elim (byteSize s) (place s text + · + 2) =
      place s (((splitPattern ['*', '/'] text).map Prod.snd).getD []) := by
  cases hs : splitPattern ['*', '/'] text with
  | none =>
    rw [find?_eq_none hs]
    rfl
  | some p =>
    obtain ⟨before, rest⟩ := p
    obtain ⟨hfind, hclosing, hplace⟩ := find?_place h hs
    rw [hfind]
    simp only [Option.elim_some, Option.map_some, Option.getD_some]
    rw [← hplace]
    exact (place_append hclosing).symm

/-- A turn at the cursor takes a step, and adds what the step finds to the imports, at offsets that
count from `base`. -/
private def Takes (s : List Char) (base : Nat) (found : List Import)
    (step : ScriptStep) (turn : Run (Turn ScanState (List Import))) : Prop :=
  Stands s [] step.after ∧
    turn = .ok (.next step.after.offset
      (step.state, found ++ (step.found.map (Import.move (· + base))).toList))

section

variable {base : Nat} {state : ScriptState} {found : List Import}

private theorem takes_of_none {after : Cursor} {state' : ScriptState}
    {turn : Run (Turn ScanState (List Import))} (hafter : Stands s [] after)
    (hturn : turn = .ok (.next after.offset (state', found))) :
    Takes s base found ⟨none, state', after⟩ turn := by
  refine ⟨hafter, ?_⟩
  rw [hturn, Option.map_none, Option.toList_none, List.append_nil]

/-- A slash that begins no comment opens a regular expression or divides. -/
theorem slashStep_of_head? (hline : text.head? ≠ some '/') (hblock : text.head? ≠ some '*') :
    slashStep state c text =
      if state.regexAllowed then
        ⟨none, .operand, (c.advance ['/'] text).seek ((afterRegex? false text).getD text)⟩
      else ⟨none, .afterMark '/', c.advance ['/'] text⟩ := by
  unfold slashStep
  split
  · exact absurd rfl hline
  · exact absurd rfl hblock
  · rfl

private theorem slashTurn_takes (h : Stands s [] c) (hc : c.rest = '/' :: text) :
    Takes s base found (slashStep state c text) (slashTurn s c.offset (state, found)) := by
  obtain ⟨hnext, hone⟩ := h.advance_one hc (by decide)
  obtain ⟨hrest, hplace⟩ := h.whole
  obtain ⟨htext, hnextPlace⟩ := hnext.whole
  have hsecond : ∀ d, ¬IsWide d → (byte? s (c.offset + 1) = some d ↔ text.head? = some d) := by
    intro d hd
    rw [← hone, hnextPlace]
    exact byte?_eq_some_place_iff hd htext
  rw [slashTurn]
  simp only [hsecond '/' (by decide), hsecond '*' (by decide)]
  by_cases hline : text.head? = some '/'
  · obtain ⟨comment, rfl⟩ := List.head?_eq_some_iff.mp hline
    rw [if_pos hline, hplace, sliceAt_place_end hrest, ok_bind, lineEnd_place hrest]
    have hafter := h.skipWhile (· != '\n')
    refine takes_of_none hafter ?_
    rw [hafter.whole.2]
    rfl
  · by_cases hblock : text.head? = some '*'
    · obtain ⟨comment, rfl⟩ := List.head?_eq_some_iff.mp hblock
      have hcomment := suffix_of_cons htext
      have htwo : c.offset + 2 = place s comment := by
        rw [← place_cons_of_not_isWide htext (by decide)]
        change c.offset + 1 + 1 = _
        rw [← hone, hnextPlace]
        rfl
      have hstop : ((splitPattern ['*', '/'] comment).map Prod.snd).getD [] <:+ c.rest := by
        rw [hc]
        exact (suffix_behindBlock comment).trans (List.suffix_append ['/', '*'] comment)
      have hafter := h.seek hstop
      rw [if_neg hline, if_pos hblock, htwo, sliceAt_place_end hcomment, ok_bind,
        blockEnd_place hcomment]
      refine takes_of_none hafter ?_
      rw [hafter.whole.2]
      rfl
    · rw [if_neg hline, if_neg hblock, slashStep_of_head? hline hblock]
      by_cases hregex : state.regexAllowed = true
      · have hafter := hnext.seek (suffix_behindRegex text)
        rw [hc] at hrest hplace
        rw [if_pos hregex, if_pos hregex, hplace, regexEnd_place hrest, ok_bind]
        refine takes_of_none hafter ?_
        rw [hafter.whole.2, ← hplace, ← hone, hnextPlace]
        cases afterRegex? false text <;> rfl
      · rw [if_neg hregex, if_neg hregex]
        exact takes_of_none hnext (hone ▸ rfl)

private theorem wordTurn_takes (h : Stands s [] c) :
    Takes s base found (wordStep state c) (wordTurn s base c.offset (state, found)) := by
  have hnext := h.skipWhile isWordChar
  rw [wordTurn, ← place_nil, h.runEnd_eq isNarrow_isWordChar.isEven, ok_bind, h.sliceAt_eq, ok_bind,
    importAt, wordStep]
  dsimp only
  by_cases hkeyword : (state.statementStart &&
      decide (c.rest.takeWhile isWordChar = "import".toList)) = true
  · have hword := of_decide_eq_true (Bool.and_eq_true_iff.mp hkeyword).2
    have hstart : c.offset + 6 = place s (c.skipWhile isWordChar).rest := by
      rw [← hnext.whole.2, Cursor.skipWhile, Cursor.advance, hword]
      rfl
    rw [if_pos hkeyword, if_pos hkeyword, parseImport_place hnext.whole.1 hstart, ok_bind]
    cases hs : importStatement? (c.skipWhile isWordChar).rest with
    | none => exact takes_of_none hnext rfl
    | some p =>
      obtain ⟨statement, rest⟩ := p
      have hrest := suffix_of_importStatement? hs
      have hafter := hnext.seek hrest
      refine ⟨hafter, ?_⟩
      simp only [Option.map_some, Cursor.spanTo, hafter.whole.2]
      rfl
  · rw [if_neg hkeyword, if_neg hkeyword]
    exact takes_of_none hnext rfl

private theorem byteTurn_takes (base : Nat) (state : ScriptState) (found : List Import) {ch : Char}
    (h : Stands s [] c) (hc : c.rest = ch :: text) (hascii : ¬IsWide ch) :
    Takes s base found (scriptStep state c ch text)
      (byteTurn s base c.offset ch (state, found)) := by
  obtain ⟨hnext, hone⟩ := h.advance_one hc hascii
  unfold scriptStep byteTurn
  dsimp only
  by_cases hquote : isScriptQuote ch = true
  · rw [if_pos hquote, if_pos hquote]
    obtain ⟨hrest, hplace⟩ := h.whole
    rw [hc] at hrest hplace
    have hafter := hnext.seek (suffix_behindQuote ch text)
    refine takes_of_none hafter ?_
    rw [hplace, findQuote_place hquote hrest, ok_bind, hafter.whole.2, ← hplace, ← hone,
      hnext.whole.2]
    cases splitQuote ch text <;> rfl
  · rw [if_neg hquote, if_neg hquote]
    by_cases hslash : ch = '/'
    · subst hslash
      rw [if_pos rfl, if_pos rfl]
      exact slashTurn_takes h hc
    · rw [if_neg hslash, if_neg hslash]
      by_cases hmark : (ch = '\n' || ch = ';' || ch = '{' || ch = '}') = true
      · rw [if_pos hmark, if_pos hmark]
        exact takes_of_none hnext (hone ▸ rfl)
      · rw [if_neg hmark, if_neg hmark]
        by_cases hspace : isSpace ch = true
        · rw [if_pos hspace, if_pos hspace]
          exact takes_of_none hnext (hone ▸ rfl)
        · rw [if_neg hspace, if_neg hspace]
          by_cases hword : isWordStart ch = true
          · rw [if_pos hword, if_pos hword]
            exact wordTurn_takes h
          · rw [if_neg hword, if_neg hword]
            by_cases hdigit : ch.isDigit = true
            · rw [if_pos hdigit, if_pos hdigit]
              have hafter := h.skipWhile isWordChar
              refine takes_of_none hafter ?_
              rw [← place_nil, h.runEnd_eq isNarrow_isWordChar.isEven]
              rfl
            · rw [if_neg hdigit, if_neg hdigit]
              exact takes_of_none hnext (hone ▸ rfl)

private theorem byteTurn_of_isWide {i : Nat} {b : Char} (hb : IsWide b) :
    byteTurn s base i b (state, found) = .ok (.next (i + 1) (⟨false, true⟩, found)) := by
  have hne : ∀ d, ¬IsWide d → decide (b = d) = false := fun d hd => decide_eq_false (hb.ne hd)
  have hslash : b ≠ '/' := hb.ne (by decide)
  rw [byteTurn, isNarrow_isScriptQuote b hb, isNarrow_isSpace b hb, isNarrow_isWordStart b hb,
    isNarrow_isDigit b hb, if_neg hslash, hne '\n' (by decide), hne ';' (by decide),
    hne '{' (by decide), hne '}' (by decide), ScriptState.afterMark, hne ')' (by decide),
    hne ']' (by decide)]
  rfl

private theorem scriptStep_of_isWide {ch : Char} (hch : IsWide ch) :
    scriptStep state c ch text = ⟨none, ⟨false, true⟩, c.advance [ch] text⟩ := by
  have hne : ∀ d, ¬IsWide d → decide (ch = d) = false := fun d hd => decide_eq_false (hch.ne hd)
  have hslash : ch ≠ '/' := hch.ne (by decide)
  rw [scriptStep, isNarrow_isScriptQuote ch hch, isNarrow_isSpace ch hch,
    isNarrow_isWordStart ch hch, isNarrow_isDigit ch hch, if_neg hslash, hne '\n' (by decide),
    hne ';' (by decide), hne '{' (by decide), hne '}' (by decide), ScriptState.afterMark,
    hne ')' (by decide), hne ']' (by decide)]
  rfl

private theorem scanTurn_of_byteAt {i : Nat} {b : Char} (hb : byteAt s i = .ok b) :
    scanTurn s base i (state, found) = byteTurn s base i b (state, found) := by
  simp only [scanTurn, lt_of_byteAt hb, if_true, hb, ok_bind]

private theorem scanLoop_of_isWide {ch : Char} (h : ch :: text <:+ s) (hch : IsWide ch) :
    loop (byteSize s) (scanTurn s base) (place s (ch :: text)) (state, found) =
      loop (byteSize s) (scanTurn s base) (place s text) (⟨false, true⟩, found) := by
  have hcons := place_cons h
  have hpos := ch.utf8Size_pos
  obtain ⟨b, hb, hwide⟩ := exists_byteAt_of_isWide h hch (Nat.le_refl _) (by omega)
  have hturn : scanTurn s base (place s (ch :: text)) (state, found) =
      .ok (.next (place s (ch :: text) + 1) (⟨false, true⟩, found)) := by
    rw [scanTurn_of_byteAt hb, byteTurn_of_isWide hwide]
  rw [loop_next hturn (Nat.lt_succ_self _) (place_lt_of_cons h)]
  apply loop_pass h hch
  · intro i b hb hwide _
    rw [scanTurn_of_byteAt hb, byteTurn_of_isWide hwide]
  · omega
  · omega

private theorem scanLoop_eq (h : Stands s [] c) (state : ScriptState) (found : List Import) :
    loop (byteSize s) (scanTurn s base) c.offset (state, found) =
      .ok (found ++ (importsFrom state c).map (Import.move (· + base))) := by
  induction hn : c.rest.length using Nat.strongRecOn generalizing c state found with
  | ind n ih =>
    obtain ⟨hrest, hplace⟩ := h.whole
    rw [importsFrom_eq]
    cases hc : c.rest with
    | nil =>
      apply loop_done
      rw [hplace, hc, scanTurn, place_nil, if_neg (Nat.lt_irrefl _), List.map_nil, List.append_nil]
      rfl
    | cons ch text =>
      have hlength := length_scriptStep_lt (s := state) hc
      dsimp only
      by_cases hch : IsWide ch
      · have hnext : Stands s [] (c.advance [ch] text) := h.advance hc
        rw [scriptStep_of_isWide hch] at hlength ⊢
        rw [hc] at hrest hplace
        rw [hplace, scanLoop_of_isWide hrest hch]
        have hbehind := ih _ (hn ▸ hlength) hnext ⟨false, true⟩ found rfl
        rw [hnext.whole.2] at hbehind
        exact hbehind
      · obtain ⟨b, hb, hlike⟩ := h.exists_byteAt hc
        obtain rfl := (hlike.eq_iff hch).mpr rfl
        obtain ⟨hafter, hturn⟩ := byteTurn_takes base state found h hc hch
        rw [← scanTurn_of_byteAt hb] at hturn
        have hlt := h.offset_lt_of_length hafter hlength
        rw [loop_next hturn hlt (Nat.lt_of_lt_of_le hlt (place_nil s ▸ hafter.offset_le)),
          ih _ (hn ▸ hlength) hafter _ _ rfl, List.map_append, List.append_assoc]
        cases (scriptStep state c b text).found with
        | none => rfl
        | some found => rfl

/-- The imports of a script are the same by bytes as by characters. -/
theorem scan_eq (script : List Char) (base : Nat) :
    scan script base = .ok (scriptImports base script) := by
  have hshift := scriptImports_shift base 0 script
  rw [Nat.zero_add] at hshift
  rw [hshift]
  exact scanLoop_eq (stands_atStart script) .fresh []

end

end

end TemplateReader.Bytes
