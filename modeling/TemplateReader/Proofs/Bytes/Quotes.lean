import TemplateReader.Proofs.Bytes.Scalar

/-!
# String literals and quoted runs

Two scanners of the bytes of a text come to the end of a string: one decodes
escapes and skips the digits of code units, the other passes over the byte behind
each backslash. At every quote both find the same end or none.
-/

namespace TemplateReader.Bytes

/-- At an offset of a text a literal stands for the string in the quotes there: it holds an escape
where a backslash is written, and without one it means what is between its quotes. -/
structure QuotedAt (text : List Char) (offset : Nat) (l : Literal) : Prop where
  start : l.span.start = offset
  raw : slice? text offset l.span.stop = some l.raw.toList
  escape : l.escape = true ↔ '\\' ∈ l.raw.toList
  value : ∃ value, l.value = .string value ∧
    ('\\' ∉ l.raw.toList → ∃ quote, isTagQuote quote = true ∧
      l.raw.toList = quote :: (value.toList ++ [quote]))

section

variable {text body rest : List Char} {quote : Char}

/-- A string in the quotes at a cursor is read as a literal of what it spells. -/
theorem quotedAt_scalarToken {c : Cursor} {value : List Char} {escape : Bool}
    (h : Stands text [] c) (hc : c.rest = quote :: (body ++ quote :: rest))
    (hquote : isTagQuote quote = true) (hspells : SpellsString quote body value escape) :
    ∃ l, scalarToken c (quote :: (body ++ [quote])) (.string (String.ofList value)) escape =
        .literal l ∧ l.span.stop = place text rest ∧ QuotedAt text c.offset l := by
  obtain ⟨hsuffix, hoffset⟩ := h.whole
  have hsplit : c.rest = quote :: (body ++ [quote]) ++ rest := by
    rw [hc, List.cons_append, List.append_assoc, List.singleton_append]
  rw [hsplit] at hsuffix hoffset
  have hstop : c.offset + byteSize (quote :: (body ++ [quote])) = place text rest := by
    rw [hoffset, place_append hsuffix]
  have hbackslash : '\\' ≠ quote := by
    rcases isTagQuote_iff.mp hquote with rfl | rfl <;> decide
  have hmem : '\\' ∈ quote :: (body ++ [quote]) ↔ '\\' ∈ body := by
    simp only [List.mem_cons, List.mem_append, hbackslash, List.not_mem_nil, or_false, false_or]
  refine ⟨_, rfl, hstop, rfl, ?_, ?_, String.ofList value, rfl, ?_⟩
  · rw [String.toList_ofList]
    dsimp only
    rw [hstop, hoffset]
    exact slice?_place hsuffix
  · rw [String.toList_ofList, hmem]
    exact hspells.escape_iff
  · intro hplain
    rw [String.toList_ofList, hmem] at hplain
    refine ⟨quote, hquote, ?_⟩
    rw [String.toList_ofList, String.toList_ofList, hspells.value_eq hplain]

/-- At a quote the rule for strings gives what is read behind the quote. -/
theorem string_of_isTagQuote {tail : List Char} (hquote : isTagQuote quote = true) (scope : Scope)
    (offset : Nat) :
    Rule.string scope ⟨offset, quote :: tail⟩ = (readString? quote tail).map fun s =>
      scalarToken ⟨offset, quote :: tail⟩ (quote :: s.taken) (.string (String.ofList s.value))
        s.escape :=
  if_pos hquote

/-- At a quote the rule for strings and the search for a closing quote come to the same end, or
neither comes to any; and the rule gives the literal of the text up to there. -/
theorem string_agrees_findQuote {offset : Nat}
    (h : (byte? text offset).any isTagQuote = true) (value : Option (Nat → Run (Option Token)))
    (scope : Scope) :
    ∃ stop? token?, findQuote text offset = .ok stop? ∧
      ByteRule.string text value offset = .ok token? ∧
      Rule.string scope (.atOffset text offset) = token? ∧
      (token?.isSome ↔ stop?.isSome) ∧
      ∀ token, token? = some token → ∃ l, token = .literal l ∧ stop? = some l.span.stop ∧
        QuotedAt text offset l := by
  rw [Option.any_eq_true] at h
  obtain ⟨quote, hbyte, hquote⟩ := h
  have hascii := not_isWide_of_isTagQuote hquote
  rcases exists_place_or_isWide text offset with ⟨chars, hchars, rfl⟩ | ⟨-, hwide⟩
  · have hhead := (byte?_eq_some_place_iff hascii hchars).mp hbyte
    obtain ⟨tail, rfl⟩ := List.head?_eq_some_iff.mp hhead
    have hstands := stands_place hchars
    have hmap := map_readString? hquote tail
    refine ⟨_, _, findQuote_place (isScriptQuote_of_isTagQuote hquote) hchars, hstands.string_eq,
      by rw [atOffset_place hchars], ?_⟩
    rw [string_of_isTagQuote hquote]
    cases hread : readString? quote tail with
    | none =>
      rw [hread, Option.map_none, eq_comm, Option.map_eq_none_iff] at hmap
      rw [hmap]
      exact ⟨Iff.rfl, nofun⟩
    | some s =>
      obtain ⟨body, rfl, htaken, hspells⟩ := (readString?_eq_some_iff hquote).mp hread
      obtain ⟨l, htoken, hstop, hquoted⟩ := quotedAt_scalarToken hstands rfl hquote hspells
      obtain ⟨p, hp, hrest⟩ := Option.map_eq_some_iff.mp ((hread ▸ hmap).symm)
      rw [hp, Option.map_some, Option.map_some, htaken, htoken, (Prod.mk.inj hrest).2]
      refine ⟨Iff.rfl, ?_⟩
      rintro token ⟨⟩
      exact ⟨l, rfl, congrArg some hstop.symm, hquoted⟩
  · exact absurd (hwide quote hbyte) hascii

end

/-- A string with an escaped quote, an escaped character outside ASCII, a pair of surrogates, and a
code unit that the closing quote cuts short. -/
private def escapedText : List Char := "é'\\'\\é\\ud83d\\uDE00\\u00\\u12''".toList

/-- For a string with every kind of escape both scanners stop at the same offset. -/
theorem string_agrees_findQuote_escaped :
    (byte? escapedText 2).any isTagQuote = true ∧
      ∃ l, ByteRule.string escapedText none 2 = .ok (some (.literal l)) ∧ l.span.stop = 29 ∧
        QuotedAt escapedText 2 l := by
  have hquote : (byte? escapedText 2).any isTagQuote = true := by decide +kernel
  have hrun : findQuote escapedText 2 = .ok (some 29) := by decide +kernel
  obtain ⟨stop?, token?, hfind, hstring, -, hiff, htoken⟩ :=
    string_agrees_findQuote hquote none ⟨escapedText, 0, 0, 0, fun _ _ _ => none⟩
  obtain rfl := Except.ok.inj (hfind.symm.trans hrun)
  obtain ⟨token, rfl⟩ := Option.isSome_iff_exists.mp (hiff.mpr rfl)
  obtain ⟨l, rfl, hstop, hquoted⟩ := htoken token rfl
  exact ⟨hquote, l, hstring, (Option.some.inj hstop).symm, hquoted⟩

end TemplateReader.Bytes
