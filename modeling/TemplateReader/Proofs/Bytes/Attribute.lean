import TemplateReader.Proofs.Bytes.Tag
import TemplateReader.Proofs.Template.Attributes

/-!
# Attributes by bytes and by characters

An attribute read by bytes knows where its tag ends and looks up the bytes of
the whole text; read by characters it sees the inside of the tag only. Both
read the same attributes, and stop at the same errors.
-/

namespace TemplateReader.Bytes

section

variable {s tail text rest : List Char} {c : Cursor}

private theorem filter_split {split : List Char → Option (List Char × List Char)} {close : Char}
    {Fills : List Char → Prop}
    (hsplit : ∀ {text inner rest}, split text = some (inner, rest) ↔
      text = inner ++ close :: rest ∧ Fills inner) (h : text ++ tail <:+ s) :
    ((split (text ++ tail)).map fun p => place s p.2).filter (· ≤ place s tail) =
      (split text).map fun p => place s (p.2 ++ tail) := by
  have htail := suffix_of_append h
  cases hs : split text with
  | some p =>
    obtain ⟨inner, rest⟩ := p
    obtain ⟨rfl, hfills⟩ := hsplit.mp hs
    have hlong : split (inner ++ close :: rest ++ tail) = some (inner, rest ++ tail) :=
      hsplit.mpr ⟨by rw [List.append_assoc, List.cons_append], hfills⟩
    rw [List.append_assoc, List.cons_append] at h
    have hrest := suffix_of_cons (suffix_of_append h)
    have hle : place s (rest ++ tail) ≤ place s tail := by
      rw [place_append hrest]
      exact Nat.le_add_right _ _
    rw [hlong]
    simp only [Option.map_some, Option.filter_some, hle, decide_true, if_true]
  | none =>
    cases hlong : split (text ++ tail) with
    | none => rfl
    | some p =>
      obtain ⟨inner, rest⟩ := p
      obtain ⟨htext, hfills⟩ := hsplit.mp hlong
      have hrest : rest <:+ s := by
        rw [htext] at h
        exact suffix_of_cons (suffix_of_append h)
      by_cases hle : place s rest ≤ place s tail
      · obtain ⟨more, rfl⟩ := suffix_of_place_le hrest htail hle
        rw [← List.cons_append, ← List.append_assoc, List.append_cancel_right_eq] at htext
        rw [hsplit.mpr ⟨htext, hfills⟩] at hs
        cases hs
      · simp only [Option.map_some, Option.filter_some, hle, decide_false, Bool.false_eq_true,
          if_false, Option.map_none]

private theorem findQuote_within {quote : Char} (hquote : isScriptQuote quote = true)
    (h : Stands s tail c) (hc : c.rest = quote :: text) :
    ∃ found, findQuote s c.offset = .ok found ∧
      found.filter (· ≤ place s tail) =
        (splitQuote quote text).map fun p => place s (p.2 ++ tail) := by
  have hsuffix := h.suffix
  have hoffset := h.offset
  rw [hc, List.cons_append] at hsuffix hoffset
  rw [hoffset, findQuote_place hquote hsuffix]
  exact ⟨_, rfl, filter_split splitQuote_eq_some_iff (suffix_of_cons hsuffix)⟩

private theorem findProgram_within (h : Stands s tail c) (hc : c.rest = '{' :: text) :
    ∃ found, findProgram s c.offset = .ok found ∧
      found.filter (· ≤ place s tail) =
        (splitBraces 0 text).map fun p => place s (p.2 ++ tail) := by
  have hsuffix := h.suffix
  have hoffset := h.offset
  rw [hc, List.cons_append] at hsuffix hoffset
  rw [hoffset, findProgram_place hsuffix]
  exact ⟨_, rfl, filter_split splitBraces_eq_some_iff (suffix_of_cons hsuffix)⟩

/-- Between its two delimiters, each of one byte, a run has a slice. -/
theorem Stands.sliceAt_inner {left right : Char} {inner : List Char} (h : Stands s tail c)
    (hc : c.rest = left :: (inner ++ right :: rest)) (hleft : ¬IsWide left)
    (hright : ¬IsWide right) :
    (minus (place s (rest ++ tail)) 1 >>= fun stop => sliceAt s (c.offset + 1) stop) =
      .ok inner := by
  have hsuffix := h.suffix
  have hoffset := h.offset
  rw [hc, List.cons_append, List.append_assoc, List.cons_append] at hsuffix hoffset
  have hinner := suffix_of_cons hsuffix
  have hlast := place_cons_of_not_isWide (suffix_of_append hinner) hright
  rw [hoffset, place_cons_of_not_isWide hsuffix hleft, ← hlast, minus_eq (Nat.le_add_left _ _),
    ok_bind, Nat.add_sub_cancel]
  exact sliceAt_place hinner

/-- The slice of a delimited run is the run with both of its delimiters. -/
theorem Stands.sliceAt_whole {left right : Char} {inner : List Char} (h : Stands s tail c)
    (hc : c.rest = left :: (inner ++ right :: rest)) :
    sliceAt s c.offset (place s (rest ++ tail)) = .ok (left :: inner ++ [right]) := by
  apply h.sliceAt_append
  rw [hc]
  simp only [List.cons_append, List.append_assoc, List.nil_append]

private theorem braced_rest {inner : List Char} (hc : c.rest = '{' :: text)
    (hs : splitBraces 0 text = some (inner, rest)) : c.rest = '{' :: (inner ++ '}' :: rest) := by
  rw [hc, eq_append_of_splitBraces hs]

private theorem quoted_rest {quote : Char} {inner : List Char} (hc : c.rest = quote :: text)
    (hs : splitQuote quote text = some (inner, rest)) :
    c.rest = quote :: (inner ++ quote :: rest) := by
  rw [hc, eq_append_of_splitQuote hs]

private theorem suffix_of_delimited {left right : Char} {inner : List Char}
    (hc : c.rest = left :: (inner ++ right :: rest)) : rest <:+ c.rest :=
  ⟨left :: inner ++ [right], by simp [hc]⟩

/-- A braced attribute is read by bytes as by characters. -/
theorem Stands.braceAttribute_eq (h : Stands s tail c) (hc : c.rest = '{' :: text) :
    braceAttribute s c.offset (place s tail) = .ofReading ((readBraced c text).map Prod.fst) := by
  obtain ⟨found, hfound, hwithin⟩ := findProgram_within h hc
  rw [braceAttribute, hfound, ok_bind, hwithin, readBraced]
  cases hs : splitBraces 0 text with
  | none => rfl
  | some p =>
    obtain ⟨inner, rest⟩ := p
    have hrest := braced_rest hc hs
    have hoffset := (h.seek (suffix_of_delimited hrest)).offset
    simp only [Option.map_some]
    rw [← bind_assoc, h.sliceAt_inner hrest (by decide) (by decide)]
    simp only [Except.map, Cursor.spanTo, hoffset]
    rfl

/-- A value is read by bytes as by characters. -/
theorem Stands.attributeValue_eq (h : Stands s tail c) :
    attributeValue s c.offset (place s tail) =
      .ofReading ((readAttributeValue c).map Prod.fst) := by
  have hbare : IsEven fun ch => !isSpace ch := isNarrow_isSpace.isEven.not
  cases hc : c.rest with
  | nil =>
    have hend : ¬c.offset < place s tail := h.offset_eq hc ▸ Nat.lt_irrefl _
    have hslice := h.sliceAt_eq fun ch => !isSpace ch
    unfold attributeValue readAttributeValue
    rw [if_neg fun hand => hend hand.1, if_neg fun hand => hend hand.1, h.runEnd_eq hbare, ok_bind,
      hslice, hc]
    rfl
  | cons ch text =>
    have hlt := h.offset_lt hc
    have hquoted := h.byte?_any isNarrow_isTagQuote hc
    have hbraced := h.byte?_eq_some_iff (d := '{') (by decide) hc
    unfold attributeValue readAttributeValue
    simp only [hlt, true_and, hquoted, hbraced]
    by_cases hq : isTagQuote ch = true
    · obtain ⟨found, hfound, hwithin⟩ := findQuote_within (isScriptQuote_of_isTagQuote hq) h hc
      have hascii := not_isWide_of_isTagQuote hq
      rw [if_pos hq, hfound, ok_bind, hwithin, hc]
      simp only [hq, if_true]
      cases hs : splitQuote ch text with
      | none => rfl
      | some p =>
        obtain ⟨inner, rest⟩ := p
        have hrest := quoted_rest hc hs
        have hoffset := (h.seek (suffix_of_delimited hrest)).offset
        simp only [Option.map_some]
        rw [← bind_assoc, h.sliceAt_inner hrest hascii hascii, ok_bind, h.sliceAt_whole hrest,
          ok_bind]
        simp only [Except.map, Cursor.spanTo, hoffset]
        rfl
    · rw [if_neg hq, hc]
      simp only [hq, Bool.false_eq_true, if_false]
      by_cases hb : ch = '{'
      · subst hb
        obtain ⟨found, hfound, hwithin⟩ := findProgram_within h hc
        rw [if_pos rfl, hfound, ok_bind, hwithin]
        simp only [if_true]
        cases hs : splitBraces 0 text with
        | none => rfl
        | some p =>
          obtain ⟨inner, rest⟩ := p
          have hrest := braced_rest hc hs
          have hoffset := (h.seek (suffix_of_delimited hrest)).offset
          simp only [Option.map_some]
          rw [← bind_assoc, h.sliceAt_inner hrest (by decide) (by decide)]
          simp only [Except.map, Cursor.spanTo, hoffset]
          rfl
      · rw [if_neg hb, if_neg hb, h.runEnd_eq hbare, ok_bind, h.sliceAt_eq, hc]
        rfl

/-- A named attribute is read by bytes as by characters. -/
theorem Stands.namedAttribute_eq (h : Stands s tail c) :
    namedAttribute s c.offset (place s tail) = .ofReading ((readNamed c).map Prod.fst) := by
  have hname := h.skipWhile isAttributeNameChar
  have hspaces := hname.skipWhile isSpace
  unfold namedAttribute readNamed
  rw [h.runEnd_eq isEven_isAttributeNameChar, ok_bind, h.sliceAt_eq, ok_bind,
    hname.runEnd_eq isNarrow_isSpace.isEven, ok_bind]
  dsimp only
  generalize (c.skipWhile isAttributeNameChar).skipWhile isSpace = equals at hspaces ⊢
  cases hrest : equals.rest with
  | nil =>
    rw [if_neg (hspaces.offset_eq hrest ▸ Nat.lt_irrefl _)]
    rfl
  | cons ch text =>
    obtain ⟨b, hb, hlike⟩ := hspaces.exists_byteAt hrest
    rw [if_pos (hspaces.offset_lt hrest), hb]
    by_cases hch : ch = '='
    · subst hch
      obtain ⟨hafter, hoffset⟩ := hspaces.advance_one hrest (by decide)
      have hvalue := hafter.skipWhile isSpace
      rw [(hlike.eq_iff (by decide)).mpr rfl, ← hoffset]
      change (Bytes.runEnd s isSpace (place s tail) _ >>= _) = _
      rw [hafter.runEnd_eq isNarrow_isSpace.isEven, ok_bind, hvalue.attributeValue_eq]
      cases hv : readAttributeValue ((equals.advance ['='] text).skipWhile isSpace) with
      | error e =>
        simp only [hv]
        rfl
      | ok r =>
        simp only [hv]
        rfl
    · have hne : (b == '=') = false := by
        rw [beq_eq_false_iff_ne]
        exact fun he => hch ((hlike.eq_iff (by decide)).mp he)
      change (if (b == '=') = true then _ else _) = _
      rw [hne, if_neg Bool.false_ne_true]
      split
      · next more heq => exact absurd (List.cons.inj heq).1 hch
      · rfl

/-- Behind an attribute that is read, the cursor stands where the attribute ends. -/
theorem Stands.of_readsAttribute {d : Cursor} {p : Property} (h : Stands s tail c)
    (hread : ReadsAttribute c (.ok (p, d))) : Stands s tail d ∧ p.span.stop = d.offset := by
  obtain ⟨x, hx, htext⟩ := hread.exists_text
  refine ⟨h.passes hx, ?_⟩
  rw [htext.span_eq, hx.offset]

private theorem attributesTurn_eq {ch : Char} (state : List Property × Bool) (h : Stands s tail c)
    (hc : (c.skipWhile isSpace).rest = ch :: text) :
    ∃ b, IsLike b ch ∧ attributesTurn s (place s tail) c.offset state =
      if b = '{' then do
        let property ← braceAttribute s (c.skipWhile isSpace).offset (place s tail)
        return .next property.span.stop (state.1 ++ [property], state.2)
      else if isAttributeNameChar b then do
        let property ← namedAttribute s (c.skipWhile isSpace).offset (place s tail)
        return .next property.span.stop (state.1 ++ [property], state.2)
      else .ok (.next ((c.skipWhile isSpace).offset + 1)
        (state.1, b = '/' && (c.skipWhile isSpace).offset + 1 = place s tail)) := by
  have hstart := h.skipWhile isSpace
  obtain ⟨b, hb, hlike⟩ := hstart.exists_byteAt hc
  refine ⟨b, hlike, ?_⟩
  rw [attributesTurn, h.runEnd_eq isNarrow_isSpace.isEven, ok_bind,
    if_neg (Nat.not_le_of_lt (hstart.offset_lt hc)), hb, ok_bind]
  rfl

private theorem attributesLoop_property {read : Except TemplateError (Property × Cursor)}
    {before : List Property} (h : Stands s tail c)
    (hturn : attributesTurn s (place s tail) c.offset (before, false) = (do
      let property ← Run.ofReading (read.map Prod.fst)
      return .next property.span.stop (before ++ [property], false)))
    (hread : ReadsAttribute (c.skipWhile isSpace) read)
    (ih : ∀ d, Stands s tail d → d.rest.length < c.rest.length → ∀ before,
      loop (byteSize s) (attributesTurn s (place s tail)) d.offset (before, false) =
        .ofReading ((readAttributes d).map fun r => (before ++ r.1, r.2))) :
    loop (byteSize s) (attributesTurn s (place s tail)) c.offset (before, false) =
      .ofReading (Except.map (fun (r : List Property × Bool) => (before ++ r.1, r.2)) do
        let (property, after) ← read
        let (properties, closing) ← readAttributes after
        return (property :: properties, closing)) := by
  cases read with
  | error e => exact loop_halt hturn
  | ok r =>
    obtain ⟨p, d⟩ := r
    obtain ⟨hd, hstop⟩ := (h.skipWhile isSpace).of_readsAttribute hread
    have hlength := Nat.lt_of_lt_of_le hread.length_lt (c.length_skipWhile_le isSpace)
    have hlt := h.offset_lt_of_length hd hlength
    have hturn' : attributesTurn s (place s tail) c.offset (before, false) =
        .ok (.next d.offset (before ++ [p], false)) := by
      rw [hturn, ← hstop]
      rfl
    have hsize := Nat.lt_of_lt_of_le hlt (Nat.le_trans hd.offset_le (place_le s tail))
    rw [loop_next hturn' hlt hsize, ih d hd hlength]
    simp only [bind, Except.bind]
    cases readAttributes d with
    | error e => rfl
    | ok r => simp [Except.map, pure, Except.pure]

private theorem attributesTurn_end {state : List Property × Bool} (h : Stands s tail c)
    (hc : (c.skipWhile isSpace).rest = []) :
    attributesTurn s (place s tail) c.offset state = .ok (.done state) := by
  have hend := (h.skipWhile isSpace).offset_eq hc
  rw [attributesTurn, h.runEnd_eq isNarrow_isSpace.isEven, ok_bind,
    if_pos (Nat.le_of_eq hend.symm), pure_eq_ok]

private theorem attributesLoop_eq (h : Stands s tail c) (before : List Property) :
    loop (byteSize s) (attributesTurn s (place s tail)) c.offset (before, false) =
      .ofReading ((readAttributes c).map fun r => (before ++ r.1, r.2)) := by
  induction hn : c.rest.length using Nat.strongRecOn generalizing c before with
  | ind n ih =>
    have hstart := h.skipWhile isSpace
    have hlength := c.length_skipWhile_le isSpace
    have hrest (d : Cursor) (hd : Stands s tail d) (hlt : d.rest.length < c.rest.length)
        (before : List Property) :
        loop (byteSize s) (attributesTurn s (place s tail)) d.offset (before, false) =
          .ofReading ((readAttributes d).map fun r => (before ++ r.1, r.2)) :=
      ih _ (hn ▸ hlt) hd before rfl
    rw [readAttributes_eq]
    cases hc : (c.skipWhile isSpace).rest with
    | nil =>
      apply loop_done
      rw [attributesTurn_end h hc]
      simp only [List.append_nil]
    | cons ch text =>
      obtain ⟨b, hlike, hturn⟩ := attributesTurn_eq (before, false) h hc
      dsimp only
      by_cases hb : ch = '{'
      · subst hb
        rw [if_pos rfl]
        rw [if_pos ((hlike.eq_iff (by decide)).mpr rfl), hstart.braceAttribute_eq hc] at hturn
        exact attributesLoop_property h hturn (.braced hc rfl) hrest
      · rw [if_neg hb]
        rw [if_neg fun he => hb ((hlike.eq_iff (by decide)).mp he)] at hturn
        by_cases hname : isAttributeNameChar ch = true
        · rw [if_pos hname]
          rw [if_pos ((hlike.even isEven_isAttributeNameChar).trans hname),
            hstart.namedAttribute_eq] at hturn
          exact attributesLoop_property h hturn (.named hc hname rfl) hrest
        · rw [if_neg hname]
          have hascii : ¬IsWide ch := fun hwide => hname (isAttributeNameChar_of_isWide hwide)
          obtain ⟨hnext, hoffset⟩ := hstart.advance_one hc hascii
          obtain rfl : b = ch := (hlike.eq_iff hascii).mpr rfl
          rw [if_neg hname, ← hoffset] at hturn
          rw [hc] at hlength
          have hlt := h.offset_lt_of_length hnext hlength
          have hsize := Nat.lt_of_lt_of_le hlt (Nat.le_trans hnext.offset_le (place_le s tail))
          rw [loop_next hturn hlt hsize]
          cases text with
          | nil =>
            have hend : attributesTurn s (place s tail)
                ((c.skipWhile isSpace).advance [b] []).offset (before, decide (b = '/')) =
                  .ok (.done (before, decide (b = '/'))) := attributesTurn_end hnext rfl
            rw [hnext.offset_eq rfl] at hend ⊢
            simp only [decide_true, Bool.and_true, List.isEmpty_nil]
            rw [loop_done hend]
            by_cases hslash : b = '/'
            · simp only [hslash, decide_true, if_true, Except.map, ofReading_ok, List.append_nil]
            · rw [readAttributes_eq]
              simp only [hslash, decide_false, Bool.false_eq_true, if_false, Cursor.skipWhile,
                Cursor.advance, List.dropWhile_nil, Except.map, ofReading_ok, List.append_nil]
          | cons next more =>
            have hne : ¬((c.skipWhile isSpace).advance [b] (next :: more)).offset = place s tail :=
              Nat.ne_of_lt (hnext.offset_lt rfl)
            simp only [hne, decide_false, Bool.and_false, List.isEmpty_cons, Bool.false_eq_true,
              if_false]
            exact hrest _ hnext hlength before

/-- The attributes of a tag are read by bytes as by characters. -/
theorem Stands.attributes_eq (h : Stands s tail c) :
    attributes s c.offset (place s tail) =
      .ofReading ((readAttributes c).map fun r => (attributeObject c.offset r.1, r.2)) := by
  rw [attributes, attributesLoop_eq h []]
  cases readAttributes c with
  | error e => rfl
  | ok r => rfl

end

end TemplateReader.Bytes
