import Mathlib.Data.List.Infix
import TemplateReader.Diagnostic.Render
import TemplateReader.Proofs.Delimiter.Extent
import TemplateReader.Proofs.Text.Position

/-!
# Lines of a text

A line ends before a line feed, or before a carriage return and a line feed, or
with the text. The lines of a text are counted by the line feeds in front of
them, so a line is found among them by the number of those.
-/

namespace TemplateReader

/-- What stands behind a line: nothing, or what breaks a line. A carriage return right before a line
feed does not belong to the line. -/
inductive EndsLine (line : List Char) : List Char → Prop where
  /-- The text ends with the line. -/
  | last : EndsLine line []
  /-- A line feed ends the line. -/
  | feed {rest : List Char} (unreturned : line.getLast? ≠ some '\r') : EndsLine line ('\n' :: rest)
  /-- A carriage return and a line feed end the line. -/
  | returnFeed {rest : List Char} : EndsLine line ('\r' :: '\n' :: rest)

/-- A line of a text, behind the lines above it and in front of what is below it. -/
structure IsLine (text above line below : List Char) : Prop where
  /-- The three make up the text. -/
  text_eq : text = above ++ (line ++ below)
  /-- The line begins the text or stands behind a line feed. -/
  above : above = [] ∨ above.getLast? = some '\n'
  /-- No line feed is in the line. -/
  unbroken : '\n' ∉ line
  /-- The line ends in front of what is below it. -/
  below : EndsLine line below

section

variable {text line above below rest inner : List Char} {c : Char}

/-- A single character is a delimiter. -/
theorem isDelimiter_singleton (c : Char) : IsDelimiter [c] := by
  refine ⟨List.cons_ne_nil _ _, fun later rest hne h => ?_⟩
  obtain ⟨d, later, rfl⟩ := List.exists_cons_of_ne_nil hne
  rw [List.cons_append, List.cons_prefix_cons] at h
  rw [List.cons_prefix_cons]
  exact ⟨h.1, List.nil_prefix⟩

/-- A text is split at the first of some character. -/
theorem splitPattern_singleton_eq_some_iff :
    splitPattern [c] text = some (inner, rest) ↔ text = inner ++ c :: rest ∧ c ∉ inner := by
  rw [splitPattern_eq_some_iff (isDelimiter_singleton c), List.singleton_infix_iff,
    List.singleton_append]

/-- A text is not split at a character that is not in it. -/
theorem splitPattern_singleton_eq_none_iff : splitPattern [c] text = none ↔ c ∉ text := by
  rw [splitPattern_eq_none_iff, List.singleton_infix_iff]

/-- A text without a line feed is one line. -/
theorem linesOf_of_unbroken (hne : line ≠ []) (hline : '\n' ∉ line) : linesOf line = [line] := by
  rw [linesOf]
  split
  · rw [List.isEmpty_eq_false_iff.mpr hne]
    rfl
  · next inner rest hsplit =>
    rw [splitPattern_singleton_eq_none_iff.mpr hline] at hsplit
    cases hsplit

/-- A line feed ends the first line, to which a carriage return right before it does not belong. -/
theorem linesOf_append_feed (hline : '\n' ∉ line) (rest : List Char) :
    linesOf (line ++ '\n' :: rest) =
      (if line.getLast? = some '\r' then line.dropLast else line) :: linesOf rest := by
  have hfirst : splitPattern ['\n'] (line ++ '\n' :: rest) = some (line, rest) :=
    splitPattern_singleton_eq_some_iff.mpr ⟨rfl, hline⟩
  rw [linesOf]
  split
  · next hsplit =>
    rw [hfirst] at hsplit
    cases hsplit
  · next inner after hsplit =>
    rw [hfirst] at hsplit
    obtain ⟨rfl, rfl⟩ := Prod.mk.inj (Option.some.inj hsplit)
    rfl

/-- Lines consist of characters of the text. -/
theorem mem_of_mem_linesOf (hline : line ∈ linesOf text) (hc : c ∈ line) : c ∈ text := by
  fun_induction linesOf text with
  | case1 text hsplit hempty => cases hline
  | case2 text hsplit hempty =>
    obtain rfl := List.mem_singleton.mp hline
    exact hc
  | case3 text first rest hsplit hlt ih =>
    rw [(splitPattern_singleton_eq_some_iff.mp hsplit).1]
    rcases List.mem_cons.mp hline with rfl | hline
    · split at hc
      · exact List.mem_append_left _ (List.dropLast_subset _ hc)
      · exact List.mem_append_left _ hc
    · exact List.mem_append_right _ (List.mem_cons_of_mem _ (ih hline))

/-- The lines above a place are as many as line feeds end them, and come first. -/
theorem exists_linesOf_append (habove : above = [] ∨ above.getLast? = some '\n')
    (rest : List Char) :
    ∃ lines, lines.length = above.count '\n' ∧ linesOf (above ++ rest) = lines ++ linesOf rest := by
  fun_induction linesOf above with
  | case1 above hsplit hempty =>
    rw [List.isEmpty_iff.mp hempty]
    exact ⟨[], rfl, rfl⟩
  | case2 above hsplit hempty =>
    have hlast := habove.resolve_left (by simpa using hempty)
    exact absurd (List.mem_of_getLast? hlast) (splitPattern_singleton_eq_none_iff.mp hsplit)
  | case3 above first others hsplit hlt ih =>
    obtain ⟨rfl, hfirst⟩ := splitPattern_singleton_eq_some_iff.mp hsplit
    have hothers : others = [] ∨ others.getLast? = some '\n' := by
      have hlast := habove.resolve_left
        (List.append_ne_nil_of_right_ne_nil _ (List.cons_ne_nil _ _))
      cases others with
      | nil => exact Or.inl rfl
      | cons d others => exact Or.inr (by simpa using hlast)
    obtain ⟨lines, hlength, hlines⟩ := ih hothers
    rw [List.append_assoc, List.cons_append, linesOf_append_feed hfirst, hlines]
    refine ⟨_ :: lines, ?_, rfl⟩
    rw [List.length_cons, hlength, List.count_append, List.count_eq_zero.mpr hfirst,
      List.count_cons_self, Nat.zero_add]

/-- A line that is not empty is found by the number of line feeds above it. -/
theorem IsLine.getElem?_linesOf (h : IsLine text above line below) (hne : line ≠ []) :
    (linesOf text)[above.count '\n']? = some line := by
  have hhead : (linesOf (line ++ below)).head? = some line := by
    cases h.below with
    | last => rw [List.append_nil, linesOf_of_unbroken hne h.unbroken, List.head?_cons]
    | feed hunreturned =>
      rw [linesOf_append_feed h.unbroken, if_neg hunreturned, List.head?_cons]
    | @returnFeed rest =>
      have hreturn : '\n' ∉ line ++ ['\r'] := by simpa using h.unbroken
      have hsplit : line ++ '\r' :: '\n' :: rest = (line ++ ['\r']) ++ '\n' :: rest := by simp
      rw [hsplit, linesOf_append_feed hreturn, List.getLast?_concat, if_pos rfl,
        List.dropLast_concat, List.head?_cons]
  obtain ⟨lines, hlength, hlines⟩ := exists_linesOf_append h.above (line ++ below)
  rw [h.text_eq, hlines, ← hlength, List.getElem?_append_right (Nat.le_refl _), Nat.sub_self,
    ← List.head?_eq_getElem?, hhead]

/-- The last line of a text has no line feed. -/
theorem not_mem_lastLine (text : List Char) : '\n' ∉ lastLine text := by
  intro h
  rw [lastLine, List.mem_reverse] at h
  simpa using List.mem_takeWhile_imp h

/-- What is behind a character that breaks no line ends the line of the character somewhere. -/
theorem exists_endsLine (hreturn : c ≠ '\r') (front rest : List Char) :
    ∃ back below, rest = back ++ below ∧ '\n' ∉ back ∧ EndsLine (front ++ c :: back) below := by
  have hrest : rest.takeWhile (· ≠ '\n') ++ rest.dropWhile (· ≠ '\n') = rest :=
    List.takeWhile_append_dropWhile
  have hbody : '\n' ∉ rest.takeWhile (· ≠ '\n') := fun h => by
    simpa using List.mem_takeWhile_imp h
  cases htail : rest.dropWhile (· ≠ '\n') with
  | nil =>
    rw [htail] at hrest
    exact ⟨_, _, hrest.symm, hbody, .last⟩
  | cons d tail =>
    obtain rfl : d = '\n' := by
      have hd := head?_dropWhile_eq_false (fun d => decide (d ≠ '\n')) rest d (by rw [htail]; rfl)
      simpa using hd
    rw [htail] at hrest
    by_cases hlast : (rest.takeWhile (· ≠ '\n')).getLast? = some '\r'
    · obtain ⟨back, hback⟩ := List.getLast?_eq_some_iff.mp hlast
      rw [hback] at hrest hbody
      refine ⟨back, '\r' :: '\n' :: tail, by simpa using hrest.symm, ?_, .returnFeed⟩
      exact fun h => hbody (List.mem_append_left _ h)
    · refine ⟨_, _, hrest.symm, hbody, .feed fun h => ?_⟩
      generalize rest.takeWhile (· ≠ '\n') = body at h hlast
      cases body with
      | nil =>
        rw [List.getLast?_concat] at h
        exact hreturn (Option.some.inj h)
      | cons d body => exact hlast (by simpa using h)

/-- A character that breaks no line stands on a line, behind what is before it on that line. -/
theorem exists_isLine (hfeed : c ≠ '\n') (hreturn : c ≠ '\r') (before rest : List Char) :
    ∃ above back below, before = above ++ lastLine before ∧ rest = back ++ below ∧
      IsLine (before ++ c :: rest) above (lastLine before ++ c :: back) below := by
  obtain ⟨above, hbefore, -, habove⟩ := exists_eq_append_lastLine before
  obtain ⟨back, below, rfl, hback, hends⟩ := exists_endsLine hreturn (lastLine before) rest
  refine ⟨above, back, below, hbefore, rfl, ⟨?_, habove, ?_, hends⟩⟩
  · rw [List.append_assoc, List.cons_append, ← List.append_assoc above, ← hbefore]
  · intro h
    rcases List.mem_append.mp h with h | h
    · exact not_mem_lastLine before h
    · rcases List.mem_cons.mp h with h | h
      · exact hfeed h.symm
      · exact hback h

end

end TemplateReader
