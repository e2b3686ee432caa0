/-!
# Byte offsets, spans and cursors

Positions in a text are offsets into its UTF-8 form, while the text itself is
read character by character. A `Cursor` keeps the two together: the offset
reached so far and the characters that remain. Every reader of this library
looks at the remaining characters only, and so finds the same thing wherever
the text stands.
-/

namespace TemplateReader

/-- Number of bytes that a text occupies in UTF-8. -/
def byteSize : List Char → Nat
  | [] => 0
  | c :: text => c.utf8Size + byteSize text

@[simp] theorem byteSize_nil : byteSize [] = 0 := rfl

@[simp] theorem byteSize_cons (c : Char) (text : List Char) :
    byteSize (c :: text) = c.utf8Size + byteSize text := rfl

@[simp] theorem byteSize_append (a b : List Char) :
    byteSize (a ++ b) = byteSize a + byteSize b := by
  induction a with
  | nil => simp
  | cons c a ih => simp [ih, Nat.add_assoc]

/-- Each character takes at least one byte. -/
theorem length_le_byteSize (text : List Char) : text.length ≤ byteSize text := by
  induction text with
  | nil => simp
  | cons c text ih =>
    have := c.utf8Size_pos
    simp only [byteSize_cons, List.length_cons]
    omega

/-- Splits a text after `n` bytes; nothing when that falls inside a character or past the end. -/
def splitBytes? : (n : Nat) → (text : List Char) → Option (List Char × List Char)
  | 0, text => some ([], text)
  | _ + 1, [] => none
  | n + 1, c :: text =>
    if c.utf8Size ≤ n + 1 then
      (splitBytes? (n + 1 - c.utf8Size) text).map fun (taken, rest) => (c :: taken, rest)
    else none

/-- Splitting loses nothing and takes exactly the bytes asked for. -/
theorem eq_append_of_splitBytes? {n : Nat} {text taken rest : List Char}
    (h : splitBytes? n text = some (taken, rest)) :
    text = taken ++ rest ∧ byteSize taken = n := by
  fun_induction splitBytes? n text generalizing taken rest with
  | case1 => simp_all
  | case2 => simp at h
  | case3 n c text hc ih =>
    simp only [Option.map_eq_some_iff, Prod.exists, Prod.mk.injEq] at h
    obtain ⟨t, r, hs, rfl, rfl⟩ := h
    obtain ⟨rfl, ht⟩ := ih hs
    exact ⟨rfl, by simp only [byteSize_cons, ht]; omega⟩
  | case4 => simp at h

/-- A stretch of the text, from its first byte to the byte after its last. -/
structure Span where
  /-- Offset of the first byte. -/
  start : Nat
  /-- Offset just past the last byte. -/
  stop : Nat
deriving DecidableEq, Repr, Inhabited

namespace Span

/-- A span is empty when it does not reach past its own start. -/
def isEmpty (s : Span) : Bool := s.stop ≤ s.start

/-- The span of the same stretch with `k` more bytes in front of the text. -/
def shift (k : Nat) (s : Span) : Span := ⟨s.start + k, s.stop + k⟩

end Span

/-- A place in a text: how many bytes lie before it and which characters after it. -/
structure Cursor where
  /-- Number of bytes before the cursor. -/
  offset : Nat
  /-- Characters after the cursor. -/
  rest : List Char
deriving DecidableEq, Repr, Inhabited

namespace Cursor

/-- The cursor at the beginning of a text. -/
def atStart (text : List Char) : Cursor := ⟨0, text⟩

/-- The cursor at a byte offset of a text. Inside a character, and past the end, nothing remains. -/
def atOffset (text : List Char) (offset : Nat) : Cursor :=
  ⟨offset, ((splitBytes? offset text).map Prod.snd).getD []⟩

/-- Moves the cursor over `taken`, leaving `rest`. -/
def advance (c : Cursor) (taken rest : List Char) : Cursor :=
  ⟨c.offset + byteSize taken, rest⟩

/-- Moves the cursor forward to where `rest`, a final part of what remains, begins. -/
def seek (c : Cursor) (rest : List Char) : Cursor :=
  ⟨c.offset + (byteSize c.rest - byteSize rest), rest⟩

/-- Moves the cursor over the longest run of characters that satisfy `p`. -/
def skipWhile (p : Char → Bool) (c : Cursor) : Cursor :=
  c.advance (c.rest.takeWhile p) (c.rest.dropWhile p)

/-- Moves the cursor to a later offset; nothing when that is no later character boundary. -/
def jump? (c : Cursor) (offset : Nat) : Option Cursor :=
  if c.offset < offset then
    (splitBytes? (offset - c.offset) c.rest).map fun (_, rest) => ⟨offset, rest⟩
  else none

/-- The span from one cursor to another. -/
def spanTo (c d : Cursor) : Span := ⟨c.offset, d.offset⟩

/-- Skipping never lengthens what remains. -/
theorem length_skipWhile_le (p : Char → Bool) (c : Cursor) :
    (c.skipWhile p).rest.length ≤ c.rest.length :=
  (List.dropWhile_suffix p).length_le

/-- A jump leaves fewer characters than there were. -/
theorem length_lt_of_jump? {c d : Cursor} {offset : Nat} (h : c.jump? offset = some d) :
    d.rest.length < c.rest.length := by
  unfold jump? at h
  split at h
  · next hlt =>
    simp only [Option.map_eq_some_iff, Prod.exists] at h
    obtain ⟨taken, rest, hs, rfl⟩ := h
    obtain ⟨hr, hb⟩ := eq_append_of_splitBytes? hs
    rw [hr]
    cases taken with
    | nil => simp at hb; omega
    | cons c t =>
      simp only [List.cons_append, List.length_cons, List.length_append]
      omega
  · simp at h

end Cursor

end TemplateReader
