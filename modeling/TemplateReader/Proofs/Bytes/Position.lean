import TemplateReader.Bytes.Position
import TemplateReader.Proofs.Bytes.Loop
import TemplateReader.Proofs.Text.Position

/-!
# Positions over bytes

Counting line feeds over the bytes before an offset and characters over the line
goes wrong nowhere, and comes to the position that a walk over the characters has. An
offset inside a character has the position behind it: every byte of the
character but the first is one at which the character has been reached.
-/

namespace TemplateReader.Bytes

section

variable {s before rest : List Char} {stop i start : Nat}

private theorem lineTurn_of_byteAt {b : Char} (hi : i < stop) (hb : byteAt s i = .ok b)
    (state : Nat × Nat) :
    lineTurn s stop i state =
      .ok (.next (i + 1) (if b = '\n' then (state.1 + 1, i + 1) else state)) := by
  simp only [lineTurn, hi, if_true, hb, ok_bind, pure_eq_ok]

private theorem lineTurn_pass {b : Char} (hi : i < stop) (hb : byteAt s i = .ok b)
    (hne : b ≠ '\n') (state : Nat × Nat) :
    lineTurn s stop i state = .ok (.next (i + 1) state) := by
  rw [lineTurn_of_byteAt hi hb, if_neg hne]

private theorem lineTurn_done (hi : ¬i < stop) (state : Nat × Nat) :
    lineTurn s stop i state = .ok (.done state) := by
  rw [lineTurn, if_neg hi]
  rfl

/-- Over a first part of a text the line feeds of the part are counted, and the end of the last of
them is kept as the start of the line. -/
theorem lineLoop_append (hs : s = before ++ rest) (hstop : place s rest ≤ stop) :
    loop (byteSize s) (lineTurn s stop) 0 (0, 0) =
      loop (byteSize s) (lineTurn s stop) (place s rest)
        ((Position.behind before).line, place s (lastLine before ++ rest)) := by
  induction before using List.reverseRecOn generalizing rest with
  | nil =>
    obtain rfl : s = rest := hs
    rw [lastLine_nil, List.nil_append, place_self]
    rfl
  | append_singleton before c ih =>
    rw [List.append_assoc, List.singleton_append] at hs
    have hsuffix : c :: rest <:+ s := ⟨before, hs.symm⟩
    have hplace := place_cons hsuffix
    have hpos := c.utf8Size_pos
    have hlt : place s (c :: rest) < stop := by omega
    rw [ih hs (Nat.le_of_lt hlt), Position.behind_concat, Position.after, lastLine_concat]
    by_cases hc : c = '\n'
    · subst hc
      have hbyte := byteAt_place hsuffix (by decide)
      rw [loop_next (lineTurn_of_byteAt hlt hbyte _) (Nat.lt_succ_self _) (place_lt_of_cons hsuffix),
        place_cons_of_not_isWide hsuffix (by decide), if_pos rfl, if_pos rfl, if_pos rfl,
        List.nil_append]
    · rw [if_neg hc, if_neg hc, List.append_assoc, List.singleton_append]
      apply loop_char hsuffix
      · intro hascii
        exact lineTurn_pass hlt (byteAt_place hsuffix hascii) hc _
      · intro _ i b hb hwide hi
        exact lineTurn_pass (Nat.lt_of_lt_of_le hi hstop) hb (hwide.ne (by decide)) _

/-- The characters of a first part begin before the end of the part. -/
theorem takeWhile_charOffsets_append (text rest : List Char) (h : start + i + byteSize text ≤ stop) :
    ((charOffsets i (text ++ rest)).takeWhile fun j => start + j < stop).length =
      text.length +
        ((charOffsets (i + byteSize text) rest).takeWhile fun j => start + j < stop).length := by
  induction text generalizing i with
  | nil => simp
  | cons c text ih =>
    rw [byteSize_cons] at h
    have hpos := c.utf8Size_pos
    have hi : start + i < stop := by omega
    rw [List.cons_append, charOffsets, List.takeWhile_cons, if_pos (decide_eq_true hi),
      List.length_cons, ih (by omega), List.length_cons, byteSize_cons, Nat.add_assoc i,
      Nat.add_right_comm]

/-- A text is counted up to an offset if no line feed stands between a first part of the text and the
offset. Of what is behind that part, the characters count that begin before the offset. -/
theorem positionAt_append {offset : Nat} (hs : s = before ++ rest)
    (hstop : min offset (byteSize s) = stop) (hle : place s rest ≤ stop)
    (hpass : ∀ i, place s rest ≤ i → i < stop → ∃ b, byteAt s i = .ok b ∧ b ≠ '\n') :
    ∃ start, start + byteSize (lastLine before) = place s rest ∧
      positionAt s offset = .ok ⟨(Position.behind before).line, (Position.behind before).column +
        ((charOffsets (byteSize (lastLine before)) rest).takeWhile
          fun i => start + i < stop).length⟩ := by
  obtain ⟨lines, hbefore, -, -⟩ := exists_eq_append_lastLine before
  have hsuffix : lastLine before ++ rest <:+ s :=
    ⟨lines, by rw [hs, ← List.append_assoc, ← hbefore]⟩
  have hplace := place_append hsuffix
  have hsize : stop ≤ byteSize s := hstop ▸ Nat.min_le_right _ _
  have hloop : loop (byteSize s) (lineTurn s stop) 0 (0, 0) =
      .ok ((Position.behind before).line, place s (lastLine before ++ rest)) := by
    rw [lineLoop_append hs hle, loop_through hle hsize, loop_done (lineTurn_done (Nat.lt_irrefl _) _)]
    intro i hlo hhi
    obtain ⟨b, hb, hne⟩ := hpass i hlo hhi
    exact lineTurn_pass hhi hb hne _
  have hslice : sliceAt s (place s (lastLine before ++ rest)) (byteSize s) =
      .ok (lastLine before ++ rest) := by
    have hend : (lastLine before ++ rest) ++ [] <:+ s := by rwa [List.append_nil]
    simpa only [List.append_nil, place_nil] using sliceAt_place hend
  refine ⟨_, hplace.symm, ?_⟩
  simp only [positionAt, hstop, hloop, ok_bind, hslice, pure_eq_ok]
  rw [takeWhile_charOffsets_append _ _ (by omega), Nat.zero_add]
  rfl

/-- The positions that are counted over bytes are those of a walk over the characters. -/
theorem positionAt_eq (s : List Char) (offset : Nat) :
    positionAt s offset = .ok (Position.ofOffset s offset) := by
  rw [← Position.ofOffset_min]
  rcases exists_boundary_or_inside (Nat.min_le_right offset (byteSize s)) with
    ⟨before, rest, hs, hstop⟩ | ⟨before, c, rest, m, hs, hstop, hpos, hm⟩
  · have hplace : place s rest = byteSize before := by rw [hs, place_append_self]
    obtain ⟨start, hstart, hposition⟩ := positionAt_append hs hstop (Nat.le_of_eq hplace)
      fun i hlo hhi => absurd hhi (by omega)
    have hnone : ((charOffsets (byteSize (lastLine before)) rest).takeWhile
        fun i => start + i < byteSize before) = [] := by
      cases rest with
      | nil => rfl
      | cons c rest => exact List.takeWhile_cons_of_neg (by simp; omega)
    rw [hposition, hnone, hstop, List.length_nil, Nat.add_zero]
    conv_rhs => rw [hs, Position.ofOffset_byteSize]
  · have hplace : place s (c :: rest) = byteSize before := by rw [hs, place_append_self]
    have hsuffix : c :: rest <:+ s := ⟨before, hs.symm⟩
    have hcons := place_cons hsuffix
    have hc : IsWide c := by
      by_contra hascii
      have hsize := utf8Size_of_not_isWide hascii
      omega
    obtain ⟨start, hstart, hposition⟩ := positionAt_append hs hstop (by omega) fun i hlo hhi => by
      obtain ⟨b, hb, hwide⟩ := exists_byteAt_of_isWide hsuffix hc hlo (by omega)
      exact ⟨b, hb, hwide.ne (by decide)⟩
    have hone : ((charOffsets (byteSize (lastLine before)) (c :: rest)).takeWhile
        fun i => start + i < byteSize before + m) = [byteSize (lastLine before)] := by
      rw [charOffsets, List.takeWhile_cons_of_pos (by simp; omega)]
      cases rest with
      | nil => rfl
      | cons d rest =>
        rw [charOffsets, List.takeWhile_cons_of_neg (by simp; omega)]
    rw [hposition, hone, hstop, List.length_singleton]
    conv_rhs => rw [hs, Position.ofOffset_inside before rest hpos hm]

end

end TemplateReader.Bytes

namespace TemplateReader.Position

/-- The position of an offset is that of the greatest boundary that is neither above the offset nor
past the end, one column further on if the offset is inside a character. -/
theorem ofOffset_floor (s : List Char) (offset : Nat) :
    ∃ before rest, s = before ++ rest ∧
      IsGreatest {b | IsBoundary s b ∧ b ≤ min offset (byteSize s)} (byteSize before) ∧
      Bytes.positionAt s offset = .ok (ofOffset s offset) ∧
      (ofOffset s offset).line = before.count '\n' ∧
      (ofOffset s offset).column = (lastLine before).length +
        if byteSize before = min offset (byteSize s) then 0 else 1 := by
  have hposition := Bytes.positionAt_eq s offset
  have hend := ofOffset_min s offset
  rcases exists_boundary_or_inside (Nat.min_le_right offset (byteSize s)) with
    ⟨before, rest, hs, hstop⟩ | ⟨before, c, rest, n, hs, hstop, hpos, hn⟩
  · have hbehind : ofOffset s (byteSize before) = behind before := by
      rw [hs, ofOffset_byteSize]
    rw [hstop] at hend ⊢
    refine ⟨before, rest, hs, hs ▸ isGreatest_byteSize before rest, hposition, ?_, ?_⟩
    · rw [← hend, hbehind, behind]
    · rw [← hend, hbehind, behind, if_pos rfl, Nat.add_zero]
  · have hbehind : ofOffset s (byteSize before + n) =
        ⟨(behind before).line, (behind before).column + 1⟩ := by
      rw [hs, ofOffset_inside before rest hpos hn]
    have hne : byteSize before ≠ byteSize before + n := by omega
    rw [hstop] at hend ⊢
    refine ⟨before, c :: rest, hs, hs ▸ isGreatest_inside before rest hn, hposition, ?_, ?_⟩
    · rw [← hend, hbehind, behind]
    · rw [← hend, hbehind, behind, if_neg hne]

/-- Inside the only character of this text, the greatest boundary below has column zero, and the
offset has column one. -/
theorem ofOffset_insideAccent :
    IsGreatest {b | IsBoundary ['é'] b ∧ b ≤ min 1 (byteSize ['é'])} (byteSize []) ∧
      behind [] = ⟨0, 0⟩ ∧ ofOffset ['é'] 1 = ⟨0, 1⟩ ∧
      Bytes.positionAt ['é'] 1 ≠ .ok (behind []) := by
  have hsize : 1 < 'é'.utf8Size := by decide
  refine ⟨isGreatest_inside [] [] hsize, rfl, by decide, ?_⟩
  rw [Bytes.positionAt_eq]
  decide

end TemplateReader.Position
