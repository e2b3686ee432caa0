import TemplateReader.Proofs.Bytes.Place

/-!
# Loops over bytes

A loop over bytes is followed one character at a time. At a character of ASCII
it takes the turn for that character. Over a character outside ASCII it takes
one turn for each byte, and where these turns change nothing it arrives behind
the character, from whichever of its bytes it set out.
-/

namespace TemplateReader.Bytes

section

variable {α β : Type}

@[simp] theorem ok_bind (a : α) (f : α → Run β) : (Except.ok a >>= f : Run β) = f a := rfl

@[simp] theorem pure_eq_ok (a : α) : (pure a : Run α) = .ok a := rfl

/-- The checked difference of numbers that do not come out negative is their difference. -/
theorem minus_eq {a b : Nat} (h : b ≤ a) : minus a b = .ok (a - b) := if_pos h

end

section

variable {σ α : Type} {size i j : Nat} {turn : Nat → σ → Run (Turn σ α)} {state state' : σ}

/-- A loop whose turn is done ends with the result of the turn. -/
theorem loop_done {result : α} (h : turn i state = .ok (.done result)) :
    loop size turn i state = .ok result := by
  rw [loop, h]

/-- A loop whose turn halts is halted. -/
theorem loop_halt {halt : Halt} (h : turn i state = .error halt) :
    loop size turn i state = .error halt := by
  rw [loop, h]

/-- A loop whose turn makes progress inside the text goes on from where the turn ended. -/
theorem loop_next (h : turn i state = .ok (.next j state')) (hij : i < j) (hi : i < size) :
    loop size turn i state = loop size turn j state' := by
  rw [loop, h]
  exact if_pos ⟨hij, hi⟩

/-- A loop that passes over every byte between two offsets gets from the one to the other. -/
theorem loop_through (hij : i ≤ j) (hj : j ≤ size)
    (hpass : ∀ k, i ≤ k → k < j → turn k state = .ok (.next (k + 1) state)) :
    loop size turn i state = loop size turn j state := by
  induction hn : j - i generalizing i with
  | zero =>
    have hi : i = j := by omega
    rw [hi]
  | succ n ih =>
    rw [loop_next (hpass i (Nat.le_refl i) (by omega)) (Nat.lt_succ_self i) (by omega)]
    exact ih (by omega) (fun k hik => hpass k (by omega)) (by omega)

/-- Turn by turn, a loop that sets out at an offset in a state comes to an offset in a state. -/
inductive ComesTo (turn : Nat → σ → Run (Turn σ α)) : Nat → σ → Nat → σ → Prop
  | here {i : Nat} {state : σ} : ComesTo turn i state i state
  | next {i j k : Nat} {state state' state'' : σ} (hturn : turn i state = .ok (.next j state'))
    (hrest : ComesTo turn j state' k state'') : ComesTo turn i state k state''

/-- A loop with a result comes to where a turn has that result. -/
theorem exists_comesTo_of_loop {result : α} (h : loop size turn i state = .ok result) :
    ∃ j state', ComesTo turn i state j state' ∧ turn j state' = .ok (.done result) := by
  fun_induction loop size turn i state with
  | case1 i state halt hturn => cases h
  | case2 i state found hturn =>
    obtain rfl := Except.ok.inj h
    exact ⟨i, state, .here, hturn⟩
  | case3 i state j state' hturn hforward ih =>
    obtain ⟨k, last, hrest, hdone⟩ := ih h
    exact ⟨k, last, .next hturn hrest, hdone⟩
  | case4 i state j state' hturn hstuck => cases h

/-- There is only one place where a loop has a result. -/
theorem ComesTo.unique {k : Nat} {state'' : σ} {a b : α} (hj : ComesTo turn i state j state')
    (hk : ComesTo turn i state k state'') (hdone : turn j state' = .ok (.done a))
    (hend : turn k state'' = .ok (.done b)) : j = k := by
  induction hj with
  | here =>
    cases hk with
    | here => rfl
    | next hturn => cases hturn.symm.trans hdone
  | next hturn _ ih =>
    cases hk with
    | here => cases hturn.symm.trans hend
    | next hturn' hrest' =>
      obtain ⟨rfl, rfl⟩ := Turn.next.inj (Except.ok.inj (hturn.symm.trans hturn'))
      exact ih hrest' hdone

/-- What every turn that a loop goes on after keeps holds wherever the loop comes. -/
theorem ComesTo.invariant {P : Nat → σ → Prop} (h : ComesTo turn i state j state')
    (hturn : ∀ {i j : Nat} {state state' : σ}, P i state → turn i state = .ok (.next j state') →
      P j state') (hi : P i state) : P j state' := by
  induction h with
  | here => exact hi
  | next hnext _ ih => exact ih (hturn hi hnext)

/-- A loop that takes every turn that another goes on after gets to where the other comes. -/
theorem ComesTo.loop_eq {β : Type} {other : Nat → σ → Run (Turn σ β)}
    (h : ComesTo turn i state j state')
    (hother : ∀ {i j : Nat} {state state' : σ}, turn i state = .ok (.next j state') →
      other i state = .ok (.next j state') ∧ i < j ∧ i < size) :
    loop size other i state = loop size other j state' := by
  induction h with
  | here => rfl
  | next hturn _ ih =>
    obtain ⟨hnext, hij, hi⟩ := hother hturn
    rw [loop_next hnext hij hi, ih]

variable {s rest : List Char} {c : Char}

/-- A loop that passes over every byte outside ASCII gets from any byte of such a character to the
end of the character. -/
theorem loop_pass (h : c :: rest <:+ s) (hc : IsWide c)
    (hpass : ∀ i b, byteAt s i = .ok b → IsWide b → i < place s rest →
      turn i state = .ok (.next (i + 1) state))
    (hlo : place s (c :: rest) ≤ i) (hhi : i ≤ place s rest) :
    loop (byteSize s) turn i state = loop (byteSize s) turn (place s rest) state := by
  refine loop_through hhi (place_le s rest) fun k hik hk => ?_
  obtain ⟨b, hb, hwide⟩ := exists_byteAt_of_isWide h hc (Nat.le_trans hlo hik) hk
  exact hpass k b hb hwide hk

/-- A loop that takes two bytes at a character of ASCII gets over the next character as well, from
whose first byte on it only passes. -/
theorem loop_pair {d : Char} (h : c :: d :: rest <:+ s) (hc : ¬IsWide c)
    (hturn : turn (place s (c :: d :: rest)) state =
      .ok (.next (place s (c :: d :: rest) + 2) state))
    (hpass : ∀ i b, byteAt s i = .ok b → IsWide b → turn i state = .ok (.next (i + 1) state)) :
    loop (byteSize s) turn (place s (c :: d :: rest)) state =
      loop (byteSize s) turn (place s rest) state := by
  have hrest := suffix_of_cons h
  have hfirst := place_cons_of_not_isWide h hc
  rw [loop_next hturn (by omega) (place_lt_of_cons h)]
  by_cases hd : IsWide d
  · apply loop_pass hrest hd
    · intro i b hb hwide _
      exact hpass i b hb hwide
    · omega
    · have hcons := place_cons hrest
      have hpos := d.utf8Size_pos
      omega
  · have hsecond := place_cons_of_not_isWide hrest hd
    have hplace : place s (c :: d :: rest) + 2 = place s rest := by omega
    rw [hplace]

/-- A loop that takes one byte at a time gets from the place of a character to the end of it, if the
bytes of a character outside ASCII leave its state as the character does. -/
theorem loop_char (h : c :: rest <:+ s)
    (hascii : ¬IsWide c → turn (place s (c :: rest)) state =
      .ok (.next (place s (c :: rest) + 1) state))
    (hpass : IsWide c → ∀ i b, byteAt s i = .ok b → IsWide b → i < place s rest →
      turn i state = .ok (.next (i + 1) state)) :
    loop (byteSize s) turn (place s (c :: rest)) state =
      loop (byteSize s) turn (place s rest) state := by
  by_cases hc : IsWide c
  · refine loop_pass h hc (hpass hc) (Nat.le_refl _) ?_
    rw [place_cons h]
    exact Nat.le_add_right _ _
  · rw [loop_next (hascii hc) (Nat.lt_succ_self _) (place_lt_of_cons h),
      place_cons_of_not_isWide h hc]

end

section

variable {s text rest : List Char} {p : Char → Bool}

private theorem runTurn_of_byteAt {stop i : Nat} {b : Char} (hi : i < stop)
    (hb : byteAt s i = .ok b) :
    runTurn s p stop i () = .ok (if p b then .next (i + 1) () else .done i) := by
  simp only [runTurn, hi, if_true, hb, ok_bind, pure_eq_ok]

/-- The bytes of a class from a place on end where the characters of the class end. -/
theorem runEnd_place (hp : IsEven p) (h : text ++ rest <:+ s) :
    runEnd s p (place s rest) (place s (text ++ rest)) =
      .ok (place s (text.dropWhile p ++ rest)) := by
  induction text with
  | nil =>
    apply loop_done
    simp [runTurn]
  | cons c text ih =>
    rw [List.cons_append] at h ⊢
    have htext := suffix_of_cons h
    have hle : place s (text ++ rest) ≤ place s rest := by
      rw [place_append htext]
      exact Nat.le_add_right _ _
    have hlt : place s (c :: (text ++ rest)) < place s rest := by
      have hcons := place_cons h
      have hpos := c.utf8Size_pos
      omega
    rw [List.dropWhile_cons]
    by_cases hpc : p c = true
    · rw [if_pos hpc, ← ih htext]
      apply loop_char h
      · intro hc
        rw [runTurn_of_byteAt hlt (byteAt_place h hc), if_pos hpc]
      · intro hc i b hb hwide hi
        rw [runTurn_of_byteAt (Nat.lt_of_lt_of_le hi hle) hb, hp b c hwide hc, if_pos hpc]
    · rw [if_neg hpc]
      apply loop_done
      by_cases hc : IsWide c
      · have hhi : place s (c :: (text ++ rest)) < place s (text ++ rest) := by
          have hcons := place_cons h
          have hpos := c.utf8Size_pos
          omega
        obtain ⟨b, hb, hwide⟩ := exists_byteAt_of_isWide h hc (Nat.le_refl _) hhi
        rw [runTurn_of_byteAt hlt hb, hp b c hwide hc, if_neg hpc]
        rfl
      · rw [runTurn_of_byteAt hlt (byteAt_place h hc), if_neg hpc]
        rfl

/-- To the end of the text, a run of a class ends where its characters do. -/
theorem runEnd_place_end (hp : IsEven p) (h : text <:+ s) :
    runEnd s p (byteSize s) (place s text) = .ok (place s (text.dropWhile p)) := by
  rw [← List.append_nil text] at h
  simpa only [List.append_nil, place_nil] using runEnd_place hp h

/-- What stands between a place and the end of a run of a class. -/
theorem sliceAt_takeWhile_end (h : text <:+ s) :
    sliceAt s (place s text) (place s (text.dropWhile p)) = .ok (text.takeWhile p) := by
  have hsplit : text.takeWhile p ++ text.dropWhile p = text := List.takeWhile_append_dropWhile
  rw [← hsplit] at h
  have hslice := sliceAt_place h
  rwa [hsplit] at hslice

/-- A run of a class ends where the cursor stands that has skipped it. -/
theorem Stands.runEnd_eq {c : Cursor} (h : Stands s rest c) {p : Char → Bool} (hp : IsEven p) :
    runEnd s p (place s rest) c.offset = .ok (c.skipWhile p).offset := by
  rw [(h.skipWhile p).offset, h.offset]
  exact runEnd_place hp h.suffix

/-- From the place of a cursor, the slice up to the first character outside a class is the run of
characters in it. -/
theorem Stands.sliceAt_eq {c : Cursor} (h : Stands s rest c) (p : Char → Bool) :
    sliceAt s c.offset (c.skipWhile p).offset = .ok (c.rest.takeWhile p) := by
  rw [(h.skipWhile p).offset]
  exact h.sliceAt_append List.takeWhile_append_dropWhile.symm

end

end TemplateReader.Bytes
