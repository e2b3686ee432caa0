import TemplateReader.Template.Attribute

/-!
# Moves of the cursor

A reader moves the cursor over the text that it reads. `Cursor.Passes` names the
text between two cursors, and what is read one behind the other passes the texts
one behind the other.
-/

namespace TemplateReader

/-- One cursor stands behind a text that begins at another. -/
structure Cursor.Passes (c : Cursor) (x : List Char) (d : Cursor) : Prop where
  /-- The text lies between them. -/
  rest : c.rest = x ++ d.rest
  /-- Their offsets differ by it. -/
  offset : d.offset = c.offset + byteSize x

/-- A cursor stands in a source: what remains is a final part of it, and the offset counts what is
before that. -/
def Cursor.IsIn (c : Cursor) (source : List Char) : Prop :=
  ∃ before, source = before ++ c.rest ∧ c.offset = byteSize before

/-- A run of characters of one kind is taken up to a character of another. -/
theorem takeWhile_append_of_ends {p : Char → Bool} {run rest : List Char}
    (hrun : ∀ c ∈ run, p c = true) (hrest : ∀ c ∈ rest.head?, p c = false) :
    (run ++ rest).takeWhile p = run ∧ (run ++ rest).dropWhile p = rest := by
  have htake : rest.takeWhile p = [] ∧ rest.dropWhile p = rest := by
    cases rest with
    | nil => exact ⟨rfl, rfl⟩
    | cons c rest =>
      have hc := hrest c rfl
      rw [List.takeWhile_cons, List.dropWhile_cons, hc]
      exact ⟨rfl, rfl⟩
  rw [List.takeWhile_append_of_pos hrun, List.dropWhile_append_of_pos hrun, htake.1, htake.2,
    List.append_nil]
  exact ⟨rfl, rfl⟩

/-- The cursor moves over a run of characters of one kind up to a character of another. -/
theorem skipWhile_append_of_ends {p : Char → Bool} {run rest : List Char}
    (hrun : ∀ c ∈ run, p c = true) (hrest : ∀ c ∈ rest.head?, p c = false) (k : Nat) :
    (⟨k, run ++ rest⟩ : Cursor).skipWhile p = ⟨k + byteSize run, rest⟩ := by
  obtain ⟨htake, hdrop⟩ := takeWhile_append_of_ends hrun hrest
  rw [Cursor.skipWhile, Cursor.advance]
  dsimp only
  rw [htake, hdrop]

/-- What ends a run of characters is of another kind. -/
theorem head?_dropWhile_eq_false (p : Char → Bool) (text : List Char) :
    ∀ c ∈ (text.dropWhile p).head?, p c = false := by
  intro c hc
  have hne : text.dropWhile p ≠ [] := by
    intro hnil
    rw [hnil] at hc
    cases hc
  have hhead := List.head_dropWhile_not p hne
  rw [List.head?_eq_some_head hne] at hc
  obtain rfl := Option.some.inj hc
  simpa using hhead

section

variable {c d e : Cursor} {x y text rest source : List Char}

namespace Cursor

/-- A cursor passes nothing and stays where it is. -/
theorem Passes.refl (c : Cursor) : c.Passes [] c := ⟨rfl, rfl⟩

/-- A cursor that passes one text and then another passes both. -/
theorem Passes.trans (h : c.Passes x d) (h' : d.Passes y e) : c.Passes (x ++ y) e where
  rest := by rw [h.rest, h'.rest, List.append_assoc]
  offset := by rw [h'.offset, h.offset, byteSize_append, Nat.add_assoc]

/-- Passing a text leads to one cursor. -/
theorem Passes.eq (h : c.Passes x d) (h' : c.Passes x e) : d = e := by
  have hrest := List.append_cancel_left (h.rest.symm.trans h'.rest)
  have hoffset := h.offset.trans h'.offset.symm
  cases d
  cases e
  simp_all

/-- A text at the front of a cursor can be passed. -/
theorem exists_passes (hc : c.rest = x ++ rest) : ∃ d, c.Passes x d ∧ d.rest = rest :=
  ⟨⟨c.offset + byteSize x, rest⟩, ⟨hc, rfl⟩, rfl⟩

/-- To advance over the next character is to pass it. -/
theorem passes_advance {ch : Char} {text : List Char} (hc : c.rest = ch :: text) :
    c.Passes [ch] (c.advance [ch] text) := ⟨hc, rfl⟩

/-- To seek what is behind a text is to pass the text. -/
theorem passes_seek (hc : c.rest = x ++ rest) : c.Passes x (c.seek rest) := by
  refine ⟨hc, ?_⟩
  rw [seek, hc, byteSize_append, Nat.add_sub_cancel]

/-- A text between two delimiters is passed together with them. -/
theorem passes_delimited {left right : Char} {inner : List Char}
    (hc : c.rest = left :: (inner ++ right :: rest)) :
    c.Passes (left :: inner ++ [right]) (c.seek rest) := by
  apply passes_seek
  rw [hc, List.append_assoc]
  rfl

/-- The span to a cursor behind a text has the bytes of the text. -/
theorem Passes.spanTo_eq (h : c.Passes x d) : c.spanTo d = ⟨c.offset, c.offset + byteSize x⟩ := by
  rw [spanTo, h.offset]

/-- To seek a final part is to pass what is in front of it. -/
theorem exists_passes_seek (h : rest <:+ c.rest) : ∃ x, c.Passes x (c.seek rest) := by
  obtain ⟨x, hx⟩ := h
  exact ⟨x, passes_seek hx.symm⟩

/-- To skip characters is to pass the run of them. -/
theorem passes_skipWhile (p : Char → Bool) (c : Cursor) :
    c.Passes (c.rest.takeWhile p) (c.skipWhile p) :=
  ⟨List.takeWhile_append_dropWhile.symm, rfl⟩

/-- A cursor in a source is in it behind any text that it passes. -/
theorem IsIn.passes (h : c.IsIn source) (hd : c.Passes x d) : d.IsIn source := by
  obtain ⟨before, rfl, hoffset⟩ := h
  refine ⟨before ++ x, ?_, ?_⟩
  · rw [hd.rest, List.append_assoc]
  · rw [hd.offset, hoffset, byteSize_append]

end Cursor

end

end TemplateReader
