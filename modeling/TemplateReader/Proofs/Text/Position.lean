import Mathlib.Data.List.Induction
import Mathlib.Order.Bounds.Defs
import TemplateReader.Proofs.Grammar.Boundary
import TemplateReader.Text.Position

/-!
# Positions of boundaries

On a boundary of a text, the position is that behind what the text has before it:
the number of line feeds there, and the number of characters behind the last of them.
Inside a character, it is the position behind the character. So positions grow
with the boundaries, and a boundary is found again from its position.
-/

namespace TemplateReader

/-- The characters behind the last line feed of a text. -/
def lastLine (text : List Char) : List Char := (text.reverse.takeWhile (· ≠ '\n')).reverse

/-- A text up to the end of its `n`-th line feed. -/
def firstLines : (n : Nat) → (text : List Char) → List Char
  | 0, _ => []
  | _ + 1, [] => []
  | n + 1, c :: text => c :: if c = '\n' then firstLines n text else firstLines (n + 1) text

namespace Position

/-- The position behind a text. -/
def behind (text : List Char) : Position := ⟨text.count '\n', (lastLine text).length⟩

/-- One position stands before another: on an earlier line, or earlier on its line. -/
def Precedes (p q : Position) : Prop :=
  p.line < q.line ∨ p.line = q.line ∧ p.column < q.column

/-- The offset of a position: the end of the line feed in front of its line, and the size of as many
characters behind it as the column says. -/
def toOffset (text : List Char) (p : Position) : Nat :=
  byteSize (firstLines p.line text) +
    byteSize ((text.drop (firstLines p.line text).length).take p.column)

end Position

@[simp] theorem lastLine_nil : lastLine [] = [] := rfl

/-- A line feed begins a new line, and any other character goes on with the last one. -/
theorem lastLine_concat (text : List Char) (c : Char) :
    lastLine (text ++ [c]) = if c = '\n' then [] else lastLine text ++ [c] := by
  rw [lastLine, List.reverse_append, List.reverse_singleton, List.singleton_append,
    List.takeWhile_cons]
  by_cases hc : c = '\n'
  · simp [hc]
  · simp [hc, lastLine]

/-- What stands in front of the last line is all the lines that a line feed ends. -/
theorem exists_eq_append_lastLine (text : List Char) :
    ∃ lines, text = lines ++ lastLine text ∧ lines.count '\n' = text.count '\n' ∧
      (lines = [] ∨ lines.getLast? = some '\n') := by
  induction text using List.reverseRecOn with
  | nil => exact ⟨[], rfl, rfl, Or.inl rfl⟩
  | append_singleton text c ih =>
    rw [lastLine_concat]
    by_cases hc : c = '\n'
    · subst hc
      exact ⟨text ++ ['\n'], (List.append_nil _).symm, rfl, Or.inr List.getLast?_concat⟩
    · obtain ⟨lines, htext, hcount, hlines⟩ := ih
      refine ⟨lines, ?_, ?_, hlines⟩
      · rw [if_neg hc, ← List.append_assoc, ← htext]
      · rw [hcount, List.count_append, List.count_singleton, beq_false_of_ne hc]
        rfl

/-- Lines that a line feed ends are found again by their number. -/
theorem firstLines_append {lines : List Char} (hlines : lines = [] ∨ lines.getLast? = some '\n')
    (rest : List Char) : firstLines (lines.count '\n') (lines ++ rest) = lines := by
  induction lines with
  | nil => rw [List.count_nil, firstLines]
  | cons c lines ih =>
    have hlast : (c :: lines).getLast? = some '\n' := hlines.resolve_left (List.cons_ne_nil _ _)
    have hrest : lines = [] ∨ lines.getLast? = some '\n' := by
      cases lines with
      | nil => exact Or.inl rfl
      | cons d lines => exact Or.inr (List.getLast?_cons_cons.symm.trans hlast)
    have hcount : 0 < (c :: lines).count '\n' :=
      List.count_pos_iff.mpr (List.mem_of_getLast? hlast)
    by_cases hc : c = '\n'
    · rw [List.cons_append, hc, List.count_cons_self, firstLines, if_pos rfl, ih hrest]
    · rw [List.count_cons_of_ne hc] at hcount ⊢
      obtain ⟨n, hn⟩ := Nat.exists_eq_add_one.mpr hcount
      rw [List.cons_append, hn, firstLines, if_neg hc, ← hn, ih hrest]

section

variable {text : List Char} {c : Char} {n : Nat}

/-- An offset in a text is a boundary or lies inside a character. -/
theorem exists_boundary_or_inside (h : n ≤ byteSize text) :
    (∃ before rest, text = before ++ rest ∧ n = byteSize before) ∨
      ∃ before c rest m, text = before ++ c :: rest ∧ n = byteSize before + m ∧ 0 < m ∧
        m < c.utf8Size := by
  induction text generalizing n with
  | nil => exact Or.inl ⟨[], [], rfl, Nat.le_zero.mp h⟩
  | cons c text ih =>
    by_cases hzero : n = 0
    · exact Or.inl ⟨[], c :: text, rfl, hzero⟩
    by_cases hinside : n < c.utf8Size
    · exact Or.inr ⟨[], c, text, n, rfl, (Nat.zero_add n).symm, Nat.pos_of_ne_zero hzero, hinside⟩
    · rw [byteSize_cons] at h
      rcases @ih (n - c.utf8Size) (by omega) with ⟨before, rest, rfl, hn⟩ |
          ⟨before, d, rest, m, rfl, hn, hm⟩
      · exact Or.inl ⟨c :: before, rest, rfl, by rw [byteSize_cons]; omega⟩
      · exact Or.inr ⟨c :: before, d, rest, m, rfl, by rw [byteSize_cons]; omega, hm⟩

/-- The greatest boundary up to a boundary is that boundary. -/
theorem isGreatest_byteSize (before rest : List Char) :
    IsGreatest {b | IsBoundary (before ++ rest) b ∧ b ≤ byteSize before} (byteSize before) :=
  ⟨⟨isBoundary_byteSize before rest, Nat.le_refl _⟩, fun _ h => h.2⟩

/-- Inside a character, the greatest boundary that is not above the offset is that before the
character. -/
theorem isGreatest_inside (before rest : List Char) (hn : n < c.utf8Size) :
    IsGreatest {b | IsBoundary (before ++ c :: rest) b ∧ b ≤ byteSize before + n}
      (byteSize before) := by
  refine ⟨⟨isBoundary_byteSize before (c :: rest), Nat.le_add_right _ _⟩, ?_⟩
  rintro b ⟨⟨front, back, htext, rfl⟩, hle⟩
  have hboth : before ++ [c] <+: front ++ back := by
    rw [← htext]
    exact ⟨rest, by rw [List.append_assoc, List.singleton_append]⟩
  have hfront := List.prefix_or_prefix_of_prefix (List.prefix_append front back) hboth
  have hlong : ¬before ++ [c] <+: front := by
    rintro ⟨x, rfl⟩
    simp only [byteSize_append, byteSize_cons, byteSize_nil] at hle
    omega
  rcases List.prefix_concat_iff.mp (hfront.resolve_right hlong) with rfl | ⟨x, rfl⟩
  · exact absurd (List.prefix_refl _) hlong
  · rw [byteSize_append]
    exact Nat.le_add_right _ _

end

namespace Position

section

variable {p q r : Position} {text : List Char} {c : Char} {a b n : Nat}

/-- The position behind one more character is that after the character. -/
theorem behind_concat (text : List Char) (c : Char) :
    behind (text ++ [c]) = (behind text).after c := by
  rw [behind, behind, after, lastLine_concat, List.count_append, List.count_singleton]
  by_cases hc : c = '\n'
  · simp [hc]
  · simp [hc]

/-- A walk over a whole text comes to the position behind it. -/
theorem foldl_after (text : List Char) : text.foldl after ⟨0, 0⟩ = behind text := by
  induction text using List.reverseRecOn with
  | nil => rfl
  | append_singleton text c ih => rw [List.foldl_append, ih, behind_concat]; rfl

/-- The walk over a text goes on behind its first part from the position there. -/
theorem walk_append (p : Position) (before rest : List Char) (n : Nat) :
    p.walk (before ++ rest) (byteSize before + n) = (before.foldl after p).walk rest n := by
  induction before generalizing p with
  | nil => rw [List.nil_append, byteSize_nil, Nat.zero_add, List.foldl_nil]
  | cons c before ih =>
    have hpos := c.utf8Size_pos
    obtain ⟨m, hm⟩ : ∃ m, byteSize (c :: before) + n = m + 1 :=
      ⟨byteSize (c :: before) + n - 1, by rw [byteSize_cons]; omega⟩
    have hrest : m + 1 - c.utf8Size = byteSize before + n := by
      rw [← hm, byteSize_cons]
      omega
    rw [hm, List.cons_append, walk, hrest, ih, List.foldl_cons]

/-- From a boundary on, a walk goes on at the position behind what is before it. -/
theorem ofOffset_add (before rest : List Char) (n : Nat) :
    ofOffset (before ++ rest) (byteSize before + n) = (behind before).walk rest n := by
  rw [ofOffset, walk_append, foldl_after]

/-- The walk over no bytes stays where it is. -/
theorem walk_zero (p : Position) (text : List Char) : p.walk text 0 = p := by
  cases text <;> rfl

/-- On a boundary, the position is that behind what is before it. -/
theorem ofOffset_byteSize (before rest : List Char) :
    ofOffset (before ++ rest) (byteSize before) = behind before := by
  rw [← Nat.add_zero (byteSize before), ofOffset_add, walk_zero]

/-- Past the end, the position is that of the end. -/
theorem ofOffset_min (text : List Char) (offset : Nat) :
    ofOffset text (min offset (byteSize text)) = ofOffset text offset := by
  rcases Nat.le_total offset (byteSize text) with h | h
  · rw [Nat.min_eq_left h]
  · obtain ⟨n, rfl⟩ := Nat.exists_eq_add_of_le h
    have hend (n : Nat) : ofOffset text (byteSize text + n) = behind text := by
      have hwalk := ofOffset_add text [] n
      rwa [List.append_nil, walk] at hwalk
    rw [Nat.min_eq_right h, hend, ← Nat.add_zero (byteSize text), hend]

/-- Inside a character the position is that behind the character, which is on the same line. -/
theorem ofOffset_inside (before rest : List Char) (hpos : 0 < n) (hn : n < c.utf8Size) :
    ofOffset (before ++ c :: rest) (byteSize before + n) =
      ⟨(behind before).line, (behind before).column + 1⟩ := by
  obtain ⟨m, rfl⟩ := Nat.exists_eq_add_one.mpr hpos
  have hc : c ≠ '\n' := by
    rintro rfl
    have hsize : '\n'.utf8Size = 1 := rfl
    omega
  have hrest : m + 1 - c.utf8Size = 0 := by omega
  rw [ofOffset_add, walk, hrest, walk_zero, after, if_neg hc]

/-- What precedes something precedes what that precedes. -/
theorem Precedes.trans (h : p.Precedes q) (h' : q.Precedes r) : p.Precedes r := by
  simp only [Precedes] at *
  omega

/-- What precedes something is not the same. -/
theorem Precedes.ne (h : p.Precedes q) : p ≠ q := by
  rintro rfl
  simp only [Precedes] at h
  omega

/-- Behind one more character, the position is a later one. -/
theorem precedes_after (p : Position) (c : Char) : p.Precedes (p.after c) := by
  rw [after]
  split
  · exact Or.inl (Nat.lt_succ_self _)
  · exact Or.inr ⟨rfl, Nat.lt_succ_self _⟩

/-- Behind more text the position is a later one. -/
theorem precedes_append (before : List Char) {text : List Char} (htext : text ≠ []) :
    (behind before).Precedes (behind (before ++ text)) := by
  induction text using List.reverseRecOn with
  | nil => exact absurd rfl htext
  | append_singleton text c ih =>
    rw [← List.append_assoc, behind_concat]
    by_cases hne : text = []
    · rw [hne, List.append_nil]
      exact precedes_after _ c
    · exact (ih hne).trans (precedes_after _ c)

/-- A later boundary has a later position. -/
theorem precedes_of_lt (ha : IsBoundary text a) (hb : IsBoundary text b) (hab : a < b) :
    (ofOffset text a).Precedes (ofOffset text b) := by
  obtain ⟨before, rest, rfl, rfl⟩ := ha
  obtain ⟨before', rest', htext, rfl⟩ := hb
  have hbefore : before <+: before' := by
    rcases List.append_eq_append_iff.mp htext with ⟨x, rfl, -⟩ | ⟨x, rfl, -⟩
    · exact List.prefix_append _ _
    · rw [byteSize_append] at hab
      omega
  obtain ⟨x, rfl⟩ := hbefore
  have hx : x ≠ [] := by
    rintro rfl
    rw [List.append_nil] at hab
    exact absurd hab (Nat.lt_irrefl _)
  rw [ofOffset_byteSize, htext, ofOffset_byteSize]
  exact precedes_append before hx

/-- The offset of a boundary is found again from its position. -/
theorem toOffset_ofOffset (ha : IsBoundary text a) : toOffset text (ofOffset text a) = a := by
  obtain ⟨before, rest, rfl, rfl⟩ := ha
  obtain ⟨lines, hbefore, hcount, hlines⟩ := exists_eq_append_lastLine before
  have hfirst : firstLines (before.count '\n') (before ++ rest) = lines := by
    rw [← hcount]
    conv_lhs => rw [hbefore, List.append_assoc]
    exact firstLines_append hlines _
  have hdrop : (before ++ rest).drop lines.length = lastLine before ++ rest := by
    conv_lhs => rw [hbefore, List.append_assoc]
    exact List.drop_left
  rw [ofOffset_byteSize, toOffset, behind, hfirst, hdrop, List.take_left, ← byteSize_append,
    ← hbefore]

end

/-- Positions identify offsets: boundaries of a text are in the order of their positions, no two of
them share a position, and the offset of each is the end of the line feed in front of its line with
the size of as many characters behind it as its column says. -/
theorem ofOffset_identifies {text : List Char} {a b : Nat} (ha : IsBoundary text a)
    (hb : IsBoundary text b) :
    (a < b ↔ (ofOffset text a).Precedes (ofOffset text b)) ∧
      (ofOffset text a = ofOffset text b ↔ a = b) ∧
      toOffset text (ofOffset text a) = a := by
  refine ⟨⟨precedes_of_lt ha hb, fun h => ?_⟩, ⟨fun h => ?_, fun h => by rw [h]⟩,
    toOffset_ofOffset ha⟩
  · rcases Nat.lt_trichotomy a b with hlt | rfl | hlt
    · exact hlt
    · exact absurd rfl h.ne
    · exact absurd rfl (h.trans (precedes_of_lt hb ha hlt)).ne
  · rw [← toOffset_ofOffset ha, h, toOffset_ofOffset hb]

private def mixedLines : List Char := "aé\r\n€x".toList

/-- Two boundaries on different lines have positions in the same order, and the first is found again
from its position. -/
theorem ofOffset_identifies_mixedLines :
    IsBoundary mixedLines 3 ∧ IsBoundary mixedLines 8 ∧ ofOffset mixedLines 3 = ⟨0, 2⟩ ∧
      ofOffset mixedLines 8 = ⟨1, 1⟩ ∧ Precedes ⟨0, 2⟩ ⟨1, 1⟩ ∧
      toOffset mixedLines ⟨0, 2⟩ = 3 := by
  have ha : IsBoundary mixedLines 3 := isBoundary_iff.mpr (by decide)
  have hb : IsBoundary mixedLines 8 := isBoundary_iff.mpr (by decide)
  have hfirst : ofOffset mixedLines 3 = ⟨0, 2⟩ := by decide
  have hsecond : ofOffset mixedLines 8 = ⟨1, 1⟩ := by decide
  obtain ⟨horder, -, hoffset⟩ := ofOffset_identifies ha hb
  rw [hfirst] at horder hoffset
  rw [hsecond] at horder
  exact ⟨ha, hb, hfirst, hsecond, horder.mp (by decide), hoffset⟩

end Position

end TemplateReader
