import Mathlib.Order.Bounds.Defs
import TemplateReader.Bytes.Lexer
import TemplateReader.Proofs.Bytes.Loop
import TemplateReader.Proofs.Grammar.Matching

/-!
# Lexers over bytes never go wrong

A lexer that stands on a boundary of its text takes every step over the bytes
without a fault, and with the result that the step has by characters. A text
taken up at any number has the lexer on a boundary: the greatest one that is not
above the number.
-/

namespace TemplateReader.Bytes

section

variable {s : List Char} {c : Char} {i m n : Nat}

/-- The boundaries of a text are its start and those of what follows the first character, moved by
its bytes. -/
theorem isBoundary_cons_iff :
    IsBoundary (c :: s) n ↔ n = 0 ∨ ∃ m, IsBoundary s m ∧ n = c.utf8Size + m := by
  constructor
  · rintro ⟨before, after, htext, rfl⟩
    cases before with
    | nil => exact Or.inl rfl
    | cons b before =>
      obtain ⟨rfl, rfl⟩ := List.cons.inj htext
      exact Or.inr ⟨byteSize before, isBoundary_byteSize before after, rfl⟩
  · rintro (rfl | ⟨m, ⟨before, after, rfl, rfl⟩, rfl⟩)
    · exact isBoundary_zero _
    · exact ⟨c :: before, after, rfl, rfl⟩

/-- A lexer that takes up a text stands on the greatest boundary that is not above the offset. -/
theorem isGreatest_floorBoundary (s : List Char) (i : Nat) :
    IsGreatest {n | IsBoundary s n ∧ n ≤ i} (Lexer.floorBoundary s i) := by
  induction s generalizing i with
  | nil =>
    refine ⟨⟨isBoundary_zero [], Nat.zero_le i⟩, ?_⟩
    rintro n ⟨hn, -⟩
    exact hn.le
  | cons c s ih =>
    rw [Lexer.floorBoundary]
    split
    · next hc =>
      obtain ⟨⟨hboundary, hle⟩, hgreatest⟩ := ih (i - c.utf8Size)
      refine ⟨⟨isBoundary_cons_iff.mpr (Or.inr ⟨_, hboundary, rfl⟩), by omega⟩, ?_⟩
      rintro n ⟨hn, hni⟩
      rcases isBoundary_cons_iff.mp hn with rfl | ⟨m, hm, rfl⟩
      · exact Nat.zero_le _
      · exact Nat.add_le_add_left (hgreatest ⟨hm, by omega⟩) _
    · next hc =>
      refine ⟨⟨isBoundary_zero _, Nat.zero_le i⟩, ?_⟩
      rintro n ⟨hn, hni⟩
      rcases isBoundary_cons_iff.mp hn with rfl | ⟨m, -, rfl⟩
      · exact Nat.le_refl 0
      · omega

/-- The check for a boundary holds exactly at the boundaries. -/
theorem isBoundary_eq_true_iff : isBoundary s n = true ↔ IsBoundary s n := isBoundary_iff.symm

/-- Moving back from an offset ends at the greatest boundary that is not above it. -/
theorem floorBoundary_eq (h : IsGreatest {n | IsBoundary s n ∧ n ≤ i} m) :
    floorBoundary s i = .ok m := by
  obtain ⟨⟨hboundary, hle⟩, hgreatest⟩ := h
  induction i with
  | zero =>
    obtain rfl := Nat.le_zero.mp hle
    rw [floorBoundary, if_pos (isBoundary_eq_true_iff.mpr hboundary)]
  | succ i ih =>
    rw [floorBoundary]
    by_cases hi : IsBoundary s (i + 1)
    · rw [if_pos (isBoundary_eq_true_iff.mpr hi)]
      exact congrArg Except.ok (Nat.le_antisymm (hgreatest ⟨hi, Nat.le_refl _⟩) hle)
    · have hne : m ≠ i + 1 := by
        rintro rfl
        exact hi hboundary
      have hmi : m ≤ i := by
        change m ≤ i + 1 at hle
        omega
      rw [if_neg fun h => hi (isBoundary_eq_true_iff.mp h)]
      apply ih ?_ hmi
      rintro n ⟨hn, hni⟩
      exact hgreatest ⟨hn, Nat.le_succ_of_le hni⟩

/-- Taking up a text never fails, and moves back to a boundary as the lexer by characters does. -/
theorem loadAt_eq (l : Lexer) (text : List Char) (index : Nat) :
    loadAt l text index = .ok (l.loadAt text index) := by
  obtain ⟨⟨hboundary, hle⟩, hgreatest⟩ := isGreatest_floorBoundary text index
  have hfloor : floorBoundary text (min index (byteSize text)) =
      .ok (Lexer.floorBoundary text index) := by
    refine floorBoundary_eq ⟨⟨hboundary, Nat.le_min.mpr ⟨hle, hboundary.le⟩⟩, ?_⟩
    rintro n ⟨hn, hni⟩
    exact hgreatest ⟨hn, Nat.le_trans hni (Nat.min_le_left _ _)⟩
  rw [loadAt, hfloor]
  rfl

end

section

variable {l : Lexer} {rest : List Char} {name : String}

/-- On a boundary, a lexer stands in front of a final part of its text. -/
theorem stands_cursor (h : IsBoundary l.text l.index) : Stands l.text [] l.cursor := by
  obtain ⟨before, after, htext, hindex⟩ := h
  have hcursor : l.cursor = ⟨byteSize before, after⟩ := by
    rw [Lexer.cursor, htext, ← hindex, Cursor.atOffset_append]
  rw [hcursor, htext, ← place_append_self before after]
  exact stands_place (List.suffix_append before after)

/-- A cursor at the place of a final part has that part in front of it. -/
theorem atOffset_place {s : List Char} (h : rest <:+ s) :
    Cursor.atOffset s (place s rest) = ⟨place s rest, rest⟩ := by
  obtain ⟨before, rfl⟩ := h
  rw [place_append_self, Cursor.atOffset_append]

/-- What is left of the text of a lexer is the slice from its index on. -/
theorem sliceAt_index (h : IsBoundary l.text l.index) :
    sliceAt l.text l.index (byteSize l.text) = .ok l.rest := by
  obtain ⟨hsuffix, hoffset⟩ := (stands_cursor h).whole
  have hindex : l.index = place l.text l.rest := hoffset
  rw [hindex]
  exact sliceAt_place_end hsuffix

/-- The preview of what is unexpected at the place of a final part is that of the part. -/
theorem preview_place {s : List Char} (h : rest <:+ s) :
    preview s (place s rest) = .ok (LexError.preview rest) := by
  rw [preview, sliceAt_place_end h]
  rfl

/-- The preview of what is unexpected at the index of a lexer is that of what is left. -/
theorem preview_index (h : IsBoundary l.text l.index) :
    preview l.text l.index = .ok (LexError.preview l.rest) := by
  rw [preview, sliceAt_index h]
  rfl

/-- What is left without the blanks in front is a final part of the text. -/
theorem trimStart_suffix (h : IsBoundary l.text l.index) : trimStart l.rest <:+ l.text :=
  (List.dropWhile_suffix _).trans (stands_cursor h).whole.1

/-- A final part of a text has no more bytes than the text. -/
theorem byteSize_le_of_suffix {s : List Char} (h : rest <:+ s) : byteSize rest ≤ byteSize s := by
  obtain ⟨before, rfl⟩ := h
  rw [byteSize_append]
  exact Nat.le_add_left _ _

/-- The place behind the blanks is the index moved by their bytes. -/
theorem place_trimStart (h : IsBoundary l.text l.index) :
    place l.text (trimStart l.rest) =
      l.index + (byteSize l.rest - byteSize (trimStart l.rest)) := by
  have hindex : l.index = place l.text l.rest := (stands_cursor h).whole.2
  have hrest : byteSize l.rest ≤ byteSize l.text :=
    byteSize_le_of_suffix (stands_cursor h).whole.1
  have htrim : byteSize (trimStart l.rest) ≤ byteSize l.rest :=
    byteSize_le_of_suffix (List.dropWhile_suffix _)
  rw [place] at hindex ⊢
  omega

/-- Blanks are skipped without fail, up to the place behind them. -/
theorem skipBlanks_eq (h : IsBoundary l.text l.index) :
    skipBlanks l = .ok (place l.text (trimStart l.rest)) := by
  have hle : byteSize (trimStart l.rest) ≤ byteSize l.rest :=
    byteSize_le_of_suffix (List.dropWhile_suffix _)
  rw [skipBlanks, sliceAt_index h, ok_bind, minus_eq hle, place_trimStart h]
  rfl

/-- Whether only blanks are left is found out without fail, with the same answer. -/
theorem expectEnd_eq (h : IsBoundary l.text l.index) : expectEnd l = .ok l.expectEnd := by
  have hsuffix := trimStart_suffix h
  have hoffset := place_trimStart h
  rw [expectEnd, skipBlanks_eq h, ok_bind, Lexer.expectEnd]
  cases hrest : trimStart l.rest with
  | nil => exact if_pos (place_nil _)
  | cons c rest =>
    rw [hrest] at hsuffix hoffset
    rw [if_neg (Nat.ne_of_lt (place_lt_of_cons hsuffix)), preview_place hsuffix, ok_bind, hoffset]
    rfl

/-- A stretch of the text is taken without fail, with the same answer. -/
theorem substring_eq (l : Lexer) (start stop : Nat) :
    substring l start stop = l.substring start stop := by
  rw [substring, Lexer.substring, slice?]
  cases hsplit : splitBytes? (min start (min stop (byteSize l.text))) l.text with
  | none => rfl
  | some parts =>
    obtain ⟨before, rest⟩ := parts
    simp only [Option.bind_eq_bind, Option.bind_some, Nat.min_le_right, if_true]
    cases splitBytes? (min stop (byteSize l.text) - min start (min stop (byteSize l.text))) rest <;>
      rfl

/-- The next blank is found without fail, at the same offset. -/
theorem nextSpace_eq (h : IsBoundary l.text l.index) : nextSpace l = .ok l.nextSpace := by
  rw [nextSpace, sliceAt_index h, ok_bind, Lexer.nextSpace]
  cases hrest : l.rest.dropWhile fun c => !isBlankChar c with
  | nil =>
    have hskip := ((stands_cursor h).skipWhile fun c => !isBlankChar c).whole.2
    have hnil : (l.cursor.skipWhile fun c => !isBlankChar c).rest = [] := hrest
    rw [hnil, place_nil] at hskip
    exact congrArg Except.ok hskip.symm
  | cons c rest => rfl

/-- Every question to a lexer on a boundary is answered, and the lexer is left as it was. -/
theorem answer_eq (h : IsBoundary l.text l.index) (query : Query) :
    answer query l = .ok (l.answer query, l) := by
  induction query generalizing l with
  | matchAt => rfl
  | next => rfl
  | expectEnd =>
    rw [answer, expectEnd_eq h]
    rfl
  | substring =>
    rw [answer, substring_eq]
    rfl
  | nextSpace =>
    rw [answer, nextSpace_eq h]
    rfl
  | clone => rfl
  | both first second ihfirst ihsecond =>
    rw [answer, ihfirst h, ok_bind]
    dsimp only
    rw [ihsecond h]
    rfl
  | nested inner ih =>
    rw [answer, Lexer.answer, Lexer.nested]
    by_cases hlevel : l.level < Lexer.nestingLimit
    · have hdeeper : IsBoundary { l with level := l.level + 1 }.text
          { l with level := l.level + 1 }.index := h
      rw [if_neg (Nat.not_le_of_lt hlevel), if_pos hlevel, ih hdeeper]
      rfl
    · rw [if_pos (Nat.le_of_not_lt hlevel), if_neg hlevel]
      rfl

/-- An optional match is made without fail, with the same token and the same lexer afterwards. -/
theorem optional_eq (l : Lexer) (names : List String) :
    optional l names = .ok (match l.optional names with
      | some (t, after) => (some t, after)
      | none => (none, l)) := by
  rw [optional, Lexer.optional]
  cases l.matchAt l.index (some names) with
  | error => rfl
  | ok found => cases found <;> rfl

/-- An expected match is made without fail, with the same token or error and the same lexer
afterwards. -/
theorem expect_eq (h : IsBoundary l.text l.index) (names : List String) :
    expect l names = .ok (match l.expect names with
      | .ok (t, after) => (.ok t, after)
      | .error e => (.error e, l)) := by
  rw [expect, Lexer.expect]
  by_cases hempty : names.isEmpty = true
  · rw [if_pos hempty, if_pos hempty]
    rfl
  · rw [if_neg hempty, if_neg hempty]
    cases l.matchAt l.index (some names) with
    | error => rfl
    | ok found =>
      cases found with
      | some => rfl
      | none =>
        rw [preview_index h]
        rfl

/-- The search over bytes comes to the first match at a boundary. -/
theorem loop_findTurn (hname : l.registry.has name = true) (h : rest <:+ l.text) :
    loop (byteSize l.text) (findTurn l name) (place l.text rest) () =
      .ok (.ok (Lexer.firstFrom (fun c => (l.matchCursor c [name]).toOption.join)
        (place l.text rest) rest)) := by
  induction rest with
  | nil =>
    apply loop_done
    rw [findTurn, place_nil, if_neg (Nat.lt_irrefl _)]
    rfl
  | cons c rest ih =>
    have hlt := place_lt_of_cons h
    have hnames : ∀ n ∈ [name], l.registry.has n = true := fun n hn =>
      List.mem_singleton.mp hn ▸ hname
    obtain ⟨found, hfound⟩ := Lexer.exists_matchCursor hnames ⟨place l.text (c :: rest), c :: rest⟩
    have hmatch : l.matchAt (place l.text (c :: rest)) (some [name]) = .ok found := by
      rw [Lexer.matchAt, atOffset_place h]
      exact hfound
    rw [Lexer.firstFrom, hfound]
    cases found with
    | some t =>
      apply loop_done
      rw [findTurn, if_pos hlt, hmatch]
      rfl
    | none =>
      have hturn : findTurn l name (place l.text (c :: rest)) () =
          .ok (.next (place l.text rest) ()) := by
        rw [findTurn, if_pos hlt, hmatch]
        dsimp only
        rw [sliceAt_place_end h, ok_bind, place_cons h]
        rfl
      have hforward : place l.text (c :: rest) < place l.text rest := by
        rw [place_cons h]
        exact Nat.lt_add_of_pos_right c.utf8Size_pos
      rw [loop_next hturn hforward hlt, ih (suffix_of_cons h), place_cons h]
      rfl

/-- A search is made without fail, with the same token or error and the same lexer afterwards. -/
theorem find_eq (h : IsBoundary l.text l.index) (name : String) :
    find l name = .ok (match l.find name with
      | .ok (some (t, after)) => (.ok (some t), after)
      | .ok none => (.ok none, l)
      | .error e => (.error e, l)) := by
  rw [find, Lexer.find]
  by_cases hname : l.registry.has name = true
  · have hstart : (l.cursor.skipWhile isBlankChar).offset = place l.text (trimStart l.rest) :=
      ((stands_cursor h).skipWhile isBlankChar).whole.2
    have hrest : (l.cursor.skipWhile isBlankChar).rest = trimStart l.rest := rfl
    rw [if_pos hname, if_pos hname, skipBlanks_eq h, ok_bind,
      loop_findTurn hname (trimStart_suffix h), ok_bind]
    simp only [hstart, hrest]
    cases Lexer.firstFrom (fun c => (l.matchCursor c [name]).toOption.join)
      (place l.text (trimStart l.rest)) (trimStart l.rest) <;> rfl
  · rw [if_neg hname, if_neg hname]
    rfl

/-- Every step of a lexer on a boundary is taken without a fault. -/
theorem perform_eq (h : IsBoundary l.text l.index) (step : Step) :
    perform step l = .ok (l.perform step) := by
  cases step with
  | ask query => exact answer_eq h query
  | load text =>
    rw [perform, loadAt_eq]
    rfl
  | loadAt text index =>
    rw [perform, loadAt_eq]
    rfl
  | optional names =>
    rw [perform, optional_eq, ok_bind, Lexer.perform]
    rcases l.optional names with _ | ⟨t, after⟩ <;> rfl
  | expect names =>
    rw [perform, expect_eq h, ok_bind, Lexer.perform]
    rcases l.expect names with e | ⟨t, after⟩ <;> rfl
  | find name =>
    rw [perform, find_eq h, ok_bind, Lexer.perform]
    rcases l.find name with e | _ | ⟨t, after⟩ <;> rfl

end

end TemplateReader.Bytes
