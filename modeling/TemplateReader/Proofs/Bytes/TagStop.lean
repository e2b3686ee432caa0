import TemplateReader.Proofs.Bytes.Automaton
import TemplateReader.Proofs.Bytes.Tag

/-!
# Tags without an end

The search for the end of a tag and the search for what keeps a tag from ending
are two loops. Only the first of them stops at a `>`, and where a tag has no end it
meets none. So both take the same turns, from the first byte of the tag to one
place: a quote or a brace that nothing closes, or else the end of the text. What is
reported is what stands at that place.
-/

namespace TemplateReader.Bytes

/-- A construct begins at an offset, and no byte behind that ends it. -/
def Search.IsOpenAt (k : Search) (s : List Char) (start : Nat) : Prop :=
  ∃ σ, (byte? s start).bind k.start? = some σ ∧ ∀ i, start < i → ¬k.LastAt s σ (start + 1) i

/-- The search for the end of the tag that begins at `start` comes to an offset. -/
def TagSearchMeets (s : List Char) (start i : Nat) : Prop :=
  ComesTo (markupTurn s) (start + 1) () i ()

/-- A quote of a tag stands at an offset and is not closed. -/
def IsOpenQuote (s : List Char) (i : Nat) : Prop :=
  (byte? s i).any isTagQuote = true ∧ Search.quote.IsOpenAt s i

/-- A brace stands at an offset and is not closed. -/
def IsOpenBrace (s : List Char) (i : Nat) : Prop := Search.program.IsOpenAt s i

/-- A tag name reaches from one offset to another: it is not followed by a further character of a
name. -/
structure IsTagNameAt (s : List Char) (start stop : Nat) (name : List Char) : Prop where
  /-- The name stands there. -/
  slice : slice? s start stop = some name
  /-- It is made of the characters of names. -/
  name : ∀ c ∈ name, isTagNameChar c = true
  /-- No such character follows. -/
  ends : (byte? s stop).any isTagNameChar = false

/-- Where the search for the end of a tag stops if it finds none. -/
inductive TagStop where
  /-- At a quote that is not closed. -/
  | openQuote (offset : Nat)
  /-- At a brace that is not closed. -/
  | openBrace (offset : Nat)
  /-- At the end of the text. -/
  | textEnd
deriving DecidableEq, Repr

namespace TagStop

/-- The search for the end of the tag that begins at `start` stops there. It stops at the end of the
text if every quote and every brace that it meets is closed. -/
def Holds (s : List Char) (start : Nat) : TagStop → Prop
  | openQuote i => TagSearchMeets s start i ∧ IsOpenQuote s i
  | openBrace i => TagSearchMeets s start i ∧ IsOpenBrace s i
  | textEnd => TagSearchMeets s start (byteSize s) ∧
      ∀ i, TagSearchMeets s start i → ¬IsOpenQuote s i ∧ ¬IsOpenBrace s i

/-- The error of the quote or the brace that the search stops at. -/
def openError? : TagStop → Option TemplateError
  | openQuote i => some ⟨.unterminatedQuote, ⟨i, i + 1⟩⟩
  | openBrace i => some ⟨.unterminatedProgram, ⟨i, i + 1⟩⟩
  | textEnd => none

/-- The error that tells of a stop: a quote and a brace are marked themselves, and the end of the
text is told by the tag from its `<` to the end of its name. -/
inductive Reports (s : List Char) (start : Nat) : TagStop → TemplateError → Prop
  | openQuote (i : Nat) : Reports s start (.openQuote i) ⟨.unterminatedQuote, ⟨i, i + 1⟩⟩
  | openBrace (i : Nat) : Reports s start (.openBrace i) ⟨.unterminatedProgram, ⟨i, i + 1⟩⟩
  | textEnd {stop : Nat} {name : List Char}
    (hname : IsTagNameAt s (if byte? s (start + 1) = some '/' then start + 2 else start + 1)
      stop name) :
    Reports s start .textEnd ⟨.unterminatedTag (String.ofList name), ⟨start, stop⟩⟩

end TagStop

/-- What the two searches do at an offset: the turns of the search for the end of a tag, and of the
search for what keeps it from ending. -/
inductive TagTurns (s : List Char) (i : Nat) :
    Run (Turn Unit (Option Nat)) → Run (Turn Unit (Option TemplateError)) → Prop
  | textEnd (hi : byteSize s ≤ i) : TagTurns s i (.ok (.done none)) (.ok (.done none))
  | openQuote (hopen : IsOpenQuote s i) :
    TagTurns s i (.ok (.done none)) (.ok (.done (some ⟨.unterminatedQuote, ⟨i, i + 1⟩⟩)))
  | openBrace (hopen : IsOpenBrace s i) :
    TagTurns s i (.ok (.done none)) (.ok (.done (some ⟨.unterminatedProgram, ⟨i, i + 1⟩⟩)))
  | tagEnd (hi : byte? s i = some '>') :
    TagTurns s i (.ok (.done (some (i + 1)))) (.ok (.next (i + 1) ()))
  | next {j : Nat} (hij : i < j) (hj : j ≤ byteSize s) (hquote : ¬IsOpenQuote s i)
    (hbrace : ¬IsOpenBrace s i) : TagTurns s i (.ok (.next j ())) (.ok (.next j ()))

section

variable {s : List Char} {start i j : Nat} {b : Char} {k : Search}

/-- A construct is open at an offset exactly if it begins there and the search for its end finds
none. -/
theorem Search.isOpenAt_iff :
    k.IsOpenAt s i ↔ ((byte? s i).bind k.start?).isSome = true ∧ k.find s i = .ok none := by
  rw [Search.search_eq, Except.ok.injEq, Search.stop?, Search.IsOpenAt]
  cases (byte? s i).bind k.start? with
  | none => simp
  | some σ =>
    rw [Option.bind_some, Search.scan_eq_none_iff]
    constructor
    · rintro ⟨_, ⟨⟩, hnone⟩
      exact ⟨rfl, hnone⟩
    · rintro ⟨-, hnone⟩
      exact ⟨σ, rfl, hnone⟩

/-- What a search finds lies behind the offset, and not behind the end of the text. -/
theorem Search.bounds_of_find (h : k.find s i = .ok (some j)) : i < j ∧ j ≤ byteSize s := by
  rw [Search.search_eq, Except.ok.injEq, Search.stop?, Option.bind_eq_some_iff] at h
  obtain ⟨σ, -, hscan⟩ := h
  obtain ⟨last, rfl, ⟨hle, hlast⟩, -⟩ := Search.scan_eq_some_iff.mp hscan
  exact ⟨Nat.lt_succ_of_lt hle, hlast.lt⟩

/-- A quoted run is open at a quote exactly if the search for its end finds none. -/
theorem isOpenQuote_iff (hb : byte? s i = some b) (hquote : isTagQuote b = true) :
    IsOpenQuote s i ↔ findQuote s i = .ok none := by
  have hstart : ((byte? s i).bind Search.quote.start?).isSome = true := by
    rw [hb, Option.bind_some, Search.start?, if_pos (isScriptQuote_of_isTagQuote hquote)]
    rfl
  rw [IsOpenQuote, Search.isOpenAt_iff, hb, Option.any_some]
  rw [hb] at hstart
  exact ⟨fun h => h.2.2, fun h => ⟨hquote, hstart, h⟩⟩

/-- A run in braces is open at a brace exactly if the search for its end finds none. -/
theorem isOpenBrace_iff (hb : byte? s i = some '{') :
    IsOpenBrace s i ↔ findProgram s i = .ok none := by
  rw [IsOpenBrace, Search.isOpenAt_iff, hb]
  exact and_iff_right rfl

/-- No quoted run is open where no quote is. -/
theorem not_isOpenQuote (hb : byte? s i = some b) (hquote : isTagQuote b = false) :
    ¬IsOpenQuote s i := by
  rintro ⟨hany, -⟩
  rw [hb, Option.any_some, hquote] at hany
  cases hany

/-- No run in braces is open where no brace is. -/
theorem not_isOpenBrace (hb : byte? s i = some b) (hbrace : b ≠ '{') : ¬IsOpenBrace s i := by
  rintro ⟨σ, hstart, -⟩
  rw [hb, Option.bind_some, Search.start?, if_neg hbrace] at hstart
  cases hstart

/-- A turn at a quote or a brace of a tag goes behind what it opens, in both searches, or ends
them. -/
theorem tagTurns (s : List Char) (i : Nat) :
    TagTurns s i (markupTurn s i ()) (faultTurn s i ()) := by
  cases hb : byte? s i with
  | none =>
    have hi : byteSize s ≤ i := byte?_eq_none_iff.mp hb
    rw [markupTurn, faultTurn, if_neg (Nat.not_lt.mpr hi), if_neg (Nat.not_lt.mpr hi)]
    exact .textEnd hi
  | some b =>
    have hbyte : byteAt s i = .ok b := by rw [byteAt, hb]
    rw [markupTurn_of_byteAt hbyte, faultTurn_of_byteAt hbyte]
    by_cases hquote : isTagQuote b = true
    · have hbrace : ¬IsOpenBrace s i := not_isOpenBrace hb (by rintro rfl; cases hquote)
      obtain ⟨found, hfound⟩ : ∃ found, findQuote s i = .ok found := ⟨_, Search.findQuote_eq⟩
      rw [if_pos hquote, if_pos hquote, hfound]
      cases found with
      | none => exact .openQuote ((isOpenQuote_iff hb hquote).mpr hfound)
      | some j =>
        obtain ⟨hij, hj⟩ := Search.bounds_of_find (k := .quote) hfound
        refine .next hij hj (fun hopen => ?_) hbrace
        cases hfound.symm.trans ((isOpenQuote_iff hb hquote).mp hopen)
    · have hclosed : ¬IsOpenQuote s i := not_isOpenQuote hb (Bool.eq_false_iff.mpr hquote)
      rw [if_neg hquote, if_neg hquote]
      by_cases hbrace : b = '{'
      · subst hbrace
        obtain ⟨found, hfound⟩ : ∃ found, findProgram s i = .ok found := ⟨_, Search.findProgram_eq⟩
        rw [if_pos rfl, if_pos rfl, hfound]
        cases found with
        | none => exact .openBrace ((isOpenBrace_iff hb).mpr hfound)
        | some j =>
          obtain ⟨hij, hj⟩ := Search.bounds_of_find (k := .program) hfound
          refine .next hij hj hclosed fun hopen => ?_
          cases hfound.symm.trans ((isOpenBrace_iff hb).mp hopen)
      · rw [if_neg hbrace, if_neg hbrace]
        by_cases hend : b = '>'
        · subst hend
          exact .tagEnd hb
        · rw [if_neg hend]
          exact .next (Nat.lt_succ_self i) (lt_of_byteAt hbyte) hclosed (not_isOpenBrace hb hbrace)

/-- Where the search for the end of a tag goes on, so does the other, to the same place. -/
theorem faultTurn_of_markupTurn (h : markupTurn s i () = .ok (.next j ())) :
    faultTurn s i () = .ok (.next j ()) ∧ i < j ∧ j ≤ byteSize s := by
  have hturns := tagTurns s i
  rw [h] at hturns
  generalize faultTurn s i () = fault at hturns ⊢
  cases hturns with
  | next hij hj => exact ⟨rfl, hij, hj⟩

/-- The search ends at a quote or a brace that is not closed. -/
theorem markupTurn_of_isOpen (h : IsOpenQuote s i ∨ IsOpenBrace s i) :
    markupTurn s i () = .ok (.done none) := by
  have hturns := tagTurns s i
  generalize markupTurn s i () = turn, faultTurn s i () = fault at hturns ⊢
  cases hturns with
  | textEnd | openQuote | openBrace => rfl
  | tagEnd hb =>
    rcases h with hquote | hbrace
    · exact absurd hquote (not_isOpenQuote hb rfl)
    · exact absurd hbrace (not_isOpenBrace hb (by decide))
  | next _ _ hquote hbrace => exact (h.elim hquote hbrace).elim

/-- What is open begins inside the text. -/
theorem lt_of_isOpen (h : IsOpenQuote s i ∨ IsOpenBrace s i) : i < byteSize s := by
  rw [← Nat.not_le, ← byte?_eq_none_iff]
  intro hnone
  rcases h with ⟨hquote, -⟩ | ⟨σ, hstart, -⟩
  · rw [hnone] at hquote
    cases hquote
  · rw [hnone] at hstart
    cases hstart

/-- No quote is a brace. -/
theorem IsOpenQuote.not_isOpenBrace (h : IsOpenQuote s i) : ¬IsOpenBrace s i := by
  obtain ⟨b, hb, hquote⟩ := Option.any_eq_true _ _ |>.mp h.1
  refine Bytes.not_isOpenBrace hb ?_
  rintro rfl
  cases hquote

/-- The search never comes behind the end of the text. -/
theorem TagSearchMeets.le (h : TagSearchMeets s start i) (hstart : start < byteSize s) :
    i ≤ byteSize s :=
  h.invariant (P := fun i _ => i ≤ byteSize s) (fun _ hturn => (faultTurn_of_markupTurn hturn).2.2)
    hstart

/-- A quote or a brace that is met and not closed is where the search ends. -/
theorem TagSearchMeets.eq_of_isOpen (hi : TagSearchMeets s start i) (hj : TagSearchMeets s start j)
    (hopen : IsOpenQuote s i ∨ IsOpenBrace s i) (hdone : markupTurn s j () = .ok (.done none)) :
    i = j :=
  hi.unique hj (markupTurn_of_isOpen hopen) hdone

/-- The search stops in one way only. -/
theorem TagStop.Holds.unique {stop other : TagStop} (h : stop.Holds s start)
    (hother : other.Holds s start) : other = stop := by
  cases stop with
  | openQuote i =>
    obtain ⟨hmeets, hopen⟩ := h
    cases other with
    | openQuote j =>
      rw [hother.1.eq_of_isOpen hmeets (.inl hother.2) (markupTurn_of_isOpen (.inl hopen))]
    | openBrace j =>
      obtain rfl := hother.1.eq_of_isOpen hmeets (.inr hother.2) (markupTurn_of_isOpen (.inl hopen))
      exact absurd hother.2 hopen.not_isOpenBrace
    | textEnd => exact absurd hopen (hother.2 i hmeets).1
  | openBrace i =>
    obtain ⟨hmeets, hopen⟩ := h
    cases other with
    | openQuote j =>
      obtain rfl := hother.1.eq_of_isOpen hmeets (.inl hother.2) (markupTurn_of_isOpen (.inr hopen))
      exact absurd hopen hother.2.not_isOpenBrace
    | openBrace j =>
      rw [hother.1.eq_of_isOpen hmeets (.inr hother.2) (markupTurn_of_isOpen (.inr hopen))]
    | textEnd => exact absurd hopen (hother.2 i hmeets).2
  | textEnd =>
    cases other with
    | openQuote j => exact absurd hother.2 (h.2 j hother.1).1
    | openBrace j => exact absurd hother.2 (h.2 j hother.1).2
    | textEnd => rfl

/-- Where the search for the end of a tag ends without one, it stops, and the other search ends as
well, with the quote or the brace that is not closed. -/
theorem exists_holds_of_markupTurn (hstart : start < byteSize s) (hmeets : TagSearchMeets s start j)
    (hdone : markupTurn s j () = .ok (.done none)) :
    ∃ stop : TagStop, stop.Holds s start ∧ faultTurn s j () = .ok (.done stop.openError?) := by
  have hturns := tagTurns s j
  rw [hdone] at hturns
  generalize hfault : faultTurn s j () = fault at hturns ⊢
  cases hturns with
  | textEnd hj =>
    obtain rfl : j = byteSize s := Nat.le_antisymm (hmeets.le hstart) hj
    have hclosed : ∀ i, TagSearchMeets s start i → ¬(IsOpenQuote s i ∨ IsOpenBrace s i) := by
      intro i hi hopen
      exact absurd (hi.eq_of_isOpen hmeets hopen hdone) (Nat.ne_of_lt (lt_of_isOpen hopen))
    exact ⟨.textEnd, ⟨hmeets, fun i hi => not_or.mp (hclosed i hi)⟩, rfl⟩
  | openQuote hopen => exact ⟨.openQuote j, ⟨hmeets, hopen⟩, rfl⟩
  | openBrace hopen => exact ⟨.openBrace j, ⟨hmeets, hopen⟩, rfl⟩

/-- From the place of a final part on, the name at its front is read. -/
theorem isTagNameAt_place {text : List Char} (h : text <:+ s) :
    IsTagNameAt s (place s text) (place s text + byteSize (tagName text)) (tagName text) := by
  have hsplit : tagName text ++ text.dropWhile isTagNameChar = text :=
    List.takeWhile_append_dropWhile
  have hstop : place s text + byteSize (tagName text) = place s (text.dropWhile isTagNameChar) := by
    rw [← hsplit] at h
    have hplace := place_append h
    rw [hsplit] at hplace
    exact hplace.symm
  rw [hstop]
  refine ⟨?_, fun c hc => List.mem_takeWhile_imp hc, ?_⟩
  · rw [← hsplit] at h
    have hslice := slice?_place h
    rwa [hsplit] at hslice
  · rw [byte?_any_place isNarrow_isTagNameChar ((List.dropWhile_suffix _).trans h),
      Option.any_eq_false]
    intro c hc
    rw [head?_dropWhile_eq_false isTagNameChar text c hc]

/-- Behind the `<` of a tag, or behind its slash, begins a final part of the text. -/
theorem exists_place_of_nameStart (hopen : byte? s start = some '<') :
    ∃ text, text <:+ s ∧
      (if byte? s (start + 1) = some '/' then start + 2 else start + 1) = place s text := by
  obtain ⟨text, hsuffix, rfl⟩ := exists_place_of_byte? (by decide) hopen
  have hnext := place_cons_of_not_isWide hsuffix (by decide)
  split
  · next hslash =>
    obtain ⟨rest, hrest, hplace⟩ := exists_place_of_byte? (by decide) hslash
    refine ⟨rest, suffix_of_cons hrest, ?_⟩
    rw [← place_cons_of_not_isWide hrest (by decide), ← hplace]
  · exact ⟨text, suffix_of_cons hsuffix, hnext⟩

/-- The stop at which the searches end is reported. -/
theorem TagStop.exists_unterminatedTag {stop : TagStop} (hopen : byte? s start = some '<')
    (hmeets : TagSearchMeets s start j)
    (hfault : faultTurn s j () = .ok (.done stop.openError?)) :
    ∃ e, unterminatedTag s start = .ok e ∧ stop.Reports s start e := by
  have hloop : loop (byteSize s) (faultTurn s) (start + 1) () = .ok stop.openError? := by
    rw [hmeets.loop_eq fun hturn => ?_, loop_done hfault]
    obtain ⟨hnext, hij, hj⟩ := faultTurn_of_markupTurn hturn
    exact ⟨hnext, hij, Nat.lt_of_lt_of_le hij hj⟩
  rw [unterminatedTag, hloop]
  cases stop with
  | openQuote i => exact ⟨_, rfl, .openQuote i⟩
  | openBrace i => exact ⟨_, rfl, .openBrace i⟩
  | textEnd =>
    obtain ⟨text, htext, hstart⟩ := exists_place_of_nameStart hopen
    have hname := isTagNameAt_place htext
    rw [← hstart] at hname
    refine ⟨_, ?_, .textEnd hname⟩
    simp only [TagStop.openError?, ok_bind, hstart, tagNameAt_place htext, pure_eq_ok]

/-- Where the search over the bytes finds no end of a tag, neither does the one by characters, and
both report the same error. -/
theorem exists_readTag_of_findMarkup_eq_none (hopen : byte? s start = some '<')
    (hnone : findMarkup s start = .ok none) :
    ∃ text e, Cursor.atOffset s start = ⟨start, '<' :: text⟩ ∧
      readTag ⟨start, '<' :: text⟩ text = .error e ∧ unterminatedTag s start = .ok e := by
  obtain ⟨text, hsuffix, rfl⟩ := exists_place_of_byte? (by decide) hopen
  rw [findMarkup_place hsuffix] at hnone
  refine ⟨text, ?_⟩
  cases hs : splitTag text with
  | error fault =>
    refine ⟨_, atOffset_place hsuffix, ?_, unterminatedTag_place hsuffix hs⟩
    rw [readTag, hs]
  | ok r =>
    rw [hs] at hnone
    cases hnone

/-- A tag that has no end is reported as what the search for its end stops at, and the search stops
in one way only: at the first quote or the first brace that is not closed, which is then marked
itself, or at the end of the text if all that it meets are closed, and then the tag is marked from
its `<` to the end of its name. The readers of tags report the same. -/
theorem unterminatedTag_reportsStop (hopen : byte? s start = some '<')
    (hnone : findMarkup s start = .ok none) :
    (∃! stop : TagStop, stop.Holds s start) ∧
      ∃ e, unterminatedTag s start = .ok e ∧
        (∀ stop : TagStop, stop.Holds s start → stop.Reports s start e) ∧
        ∃ text, Cursor.atOffset s start = ⟨start, '<' :: text⟩ ∧
          readTag ⟨start, '<' :: text⟩ text = .error e := by
  have hstart : start < byteSize s := by
    rw [← Nat.not_le, ← byte?_eq_none_iff, hopen]
    exact Option.some_ne_none _
  have hloop := hnone
  rw [findMarkup, if_pos hopen] at hloop
  obtain ⟨j, _, hmeets, hdone⟩ := exists_comesTo_of_loop hloop
  obtain ⟨stop, hstop, hfault⟩ := exists_holds_of_markupTurn hstart hmeets hdone
  obtain ⟨e, he, hreports⟩ := TagStop.exists_unterminatedTag hopen hmeets hfault
  obtain ⟨text, e', hcursor, hread, he'⟩ := exists_readTag_of_findMarkup_eq_none hopen hnone
  obtain rfl := Except.ok.inj (he.symm.trans he')
  refine ⟨⟨stop, hstop, fun other hother => hstop.unique hother⟩, e, he, ?_, text, hcursor, hread⟩
  intro other hother
  obtain rfl := hstop.unique hother
  exact hreports

end

/-- A tag with a `>` in quotes and a brace in quotes and braces, and behind them an open quote. -/
private def openQuoteTag : List Char := "é <p t=\"a>b\" u=\x7b'\x7d'\x7d v='c>d".toList

/-- The search for the end of this tag stops at the last quote, and that is what the error reports.
-/
theorem unterminatedTag_reportsStop_openQuote :
    byte? openQuoteTag 3 = some '<' ∧ findMarkup openQuoteTag 3 = .ok none ∧
      unterminatedTag openQuoteTag 3 = .ok ⟨.unterminatedQuote, ⟨24, 25⟩⟩ ∧
      (TagStop.openQuote 24).Holds openQuoteTag 3 := by
  have hopen : byte? openQuoteTag 3 = some '<' := by decide +kernel
  have hnone : findMarkup openQuoteTag 3 = .ok none := by decide +kernel
  have hrun : unterminatedTag openQuoteTag 3 = .ok ⟨.unterminatedQuote, ⟨24, 25⟩⟩ := by
    decide +kernel
  refine ⟨hopen, hnone, hrun, ?_⟩
  obtain ⟨⟨stop, hstop, -⟩, e, he, hreports, -⟩ := unterminatedTag_reportsStop hopen hnone
  obtain rfl := Except.ok.inj (he.symm.trans hrun)
  cases hreports stop hstop with
  | openQuote => exact hstop

/-- A tag whose quotes and braces are closed is marked up to the end of its name. -/
example : unterminatedTag "</p x=\x7b1\x7d y='>'".toList 0 =
    .ok ⟨.unterminatedTag "p", ⟨0, 3⟩⟩ := by
  decide +kernel

end TemplateReader.Bytes
