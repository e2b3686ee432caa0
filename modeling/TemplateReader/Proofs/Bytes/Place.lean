import TemplateReader.Bytes.Run
import TemplateReader.Delimiter.Tag
import TemplateReader.Proofs.Offset.Passes
import TemplateReader.Proofs.Template.Stretch
import TemplateReader.Template.Piece

/-!
# Places of a text

A final part of a text begins at a place that is an offset in the text. At such
an offset a run over bytes finds what the part begins with: its first
character, if that is in ASCII, and otherwise a byte that stands for no
character of ASCII, like every further byte of that character. Slices between
two such offsets exist.
-/

namespace TemplateReader.Bytes

/-- The offset in a text at which a final part of it begins. -/
def place (s rest : List Char) : Nat := byteSize s - byteSize rest

section

variable {s text rest : List Char} {c : Char}

@[simp] theorem place_self (s : List Char) : place s s = 0 := Nat.sub_self _

@[simp] theorem place_nil (s : List Char) : place s [] = byteSize s := rfl

/-- The place of a final part is an offset in the text. -/
theorem place_le (s rest : List Char) : place s rest ≤ byteSize s := Nat.sub_le _ _

/-- A final part begins behind what is before it. -/
theorem place_append_self (before rest : List Char) :
    place (before ++ rest) rest = byteSize before := by
  rw [place, byteSize_append, Nat.add_sub_cancel]

/-- A final part begins behind what stands in front of it in an earlier one. -/
theorem place_append (h : text ++ rest <:+ s) :
    place s rest = place s (text ++ rest) + byteSize text := by
  obtain ⟨before, rfl⟩ := h
  simp only [place, byteSize_append]
  omega

/-- Behind a character a final part begins as many bytes further on as the character has. -/
theorem place_cons (h : c :: rest <:+ s) : place s rest = place s (c :: rest) + c.utf8Size := by
  obtain ⟨before, rfl⟩ := h
  simp only [place, byteSize_append, byteSize_cons]
  omega

/-- A final part that is not empty begins before the end of the text. -/
theorem place_lt_of_cons (h : c :: rest <:+ s) : place s (c :: rest) < byteSize s := by
  have hle := place_le s rest
  have hcons := place_cons h
  have hpos := c.utf8Size_pos
  omega

/-- What remains of a text behind a final part's first character is a final part as well. -/
theorem suffix_of_cons (h : c :: rest <:+ s) : rest <:+ s := (List.suffix_cons c rest).trans h

/-- What follows a stretch in a final part is a final part as well. -/
theorem suffix_of_append (h : text ++ rest <:+ s) : rest <:+ s :=
  (List.suffix_append text rest).trans h

/-- A final part begins behind every earlier one. -/
theorem place_lt_of_append (h : text ++ rest <:+ s) (hne : text ≠ []) :
    place s (text ++ rest) < place s rest := by
  have hplace := place_append h
  have hpos := byteSize_pos hne
  omega

/-- Of two final parts, the shorter begins further on. -/
theorem place_lt_of_length (h : text <:+ s) (hrest : rest <:+ s)
    (hlength : rest.length < text.length) : place s text < place s rest := by
  obtain ⟨front, rfl⟩ := List.suffix_of_suffix_length_le hrest h (Nat.le_of_lt hlength)
  apply place_lt_of_append h
  rintro rfl
  exact absurd hlength (Nat.lt_irrefl _)

/-- Of two final parts, the one that begins first ends with the other. -/
theorem suffix_of_place_le (htext : text <:+ s) (hrest : rest <:+ s)
    (hle : place s text ≤ place s rest) : rest <:+ text := by
  rcases List.suffix_or_suffix_of_suffix htext hrest with ⟨front, rfl⟩ | hsuffix
  · by_cases hne : front = []
    · rw [hne]
      exact List.suffix_rfl
    · exact absurd hle (Nat.not_le_of_lt (place_lt_of_append hrest hne))
  · exact hsuffix

end

/-- A character, or a byte as a character, that is outside ASCII. -/
def IsWide (c : Char) : Prop := 127 < c.toNat

instance (c : Char) : Decidable (IsWide c) := inferInstanceAs (Decidable (127 < c.toNat))

section

variable {c d : Char}

/-- A character outside ASCII is none of those in it. -/
theorem IsWide.ne (hc : IsWide c) (hd : ¬IsWide d) : c ≠ d := by
  rintro rfl
  exact hd hc

/-- A class is narrow when it has members in ASCII only. -/
def IsNarrow (p : Char → Bool) : Prop := ∀ c, IsWide c → p c = false

/-- A character of either of two narrow classes is one of a narrow class. -/
theorem IsNarrow.or {p q : Char → Bool} (hp : IsNarrow p) (hq : IsNarrow q) :
    IsNarrow fun c => p c || q c := by
  intro c hc
  simp only [hp c hc, hq c hc, Bool.or_self]

/-- The class of a single character of ASCII is narrow. -/
theorem isNarrow_eq (hd : ¬IsWide d) : IsNarrow fun c => decide (c = d) := by
  intro c hc
  exact decide_eq_false (hc.ne hd)

/-- Blanks are characters of ASCII. -/
theorem isNarrow_isSpace : IsNarrow isSpace :=
  ((((isNarrow_eq (by decide)).or (isNarrow_eq (by decide))).or (isNarrow_eq (by decide))).or
    (isNarrow_eq (by decide))).or (isNarrow_eq (by decide))

/-- The quotes of a script form a narrow class. -/
theorem isNarrow_isScriptQuote : IsNarrow isScriptQuote :=
  ((isNarrow_eq (by decide)).or (isNarrow_eq (by decide))).or (isNarrow_eq (by decide))

/-- The quotes of a tag form a narrow class. -/
theorem isNarrow_isTagQuote : IsNarrow isTagQuote :=
  (isNarrow_eq (by decide)).or (isNarrow_eq (by decide))

private theorem isNarrow_of_le {p : Char → Bool} (hp : ∀ c, p c = true → c.toNat ≤ 127) :
    IsNarrow p := by
  intro c hc
  rw [← Bool.not_eq_true]
  intro h
  exact Nat.not_le_of_lt hc (hp c h)

/-- The letters of a name are characters of ASCII. -/
theorem isNarrow_isAlpha : IsNarrow Char.isAlpha := by
  apply isNarrow_of_le
  intro c h
  rw [isAlpha_iff] at h
  omega

/-- Digits are characters of ASCII. -/
theorem isNarrow_isDigit : IsNarrow Char.isDigit := by
  apply isNarrow_of_le
  intro c h
  rw [Char.isDigit_iff_toNat] at h
  exact Nat.le_trans h.2 (by decide)

/-- Letters and digits are characters of ASCII. -/
theorem isNarrow_isAlphanum : IsNarrow Char.isAlphanum := isNarrow_isAlpha.or isNarrow_isDigit

/-- The characters of a word are in ASCII. -/
theorem isNarrow_isWordChar : IsNarrow isWordChar :=
  (isNarrow_isAlphanum.or (isNarrow_eq (by decide))).or (isNarrow_eq (by decide))

/-- A word starts with a character of ASCII. -/
theorem isNarrow_isWordStart : IsNarrow isWordStart :=
  (isNarrow_isAlpha.or (isNarrow_eq (by decide))).or (isNarrow_eq (by decide))

/-- The characters in the name of a tag are in ASCII. -/
theorem isNarrow_isTagNameChar : IsNarrow isTagNameChar :=
  (((isNarrow_isAlphanum.or (isNarrow_eq (by decide))).or (isNarrow_eq (by decide))).or
    (isNarrow_eq (by decide))).or (isNarrow_eq (by decide))

/-- Every character outside ASCII may stand in the name of an attribute. -/
theorem isAttributeNameChar_of_isWide (hc : IsWide c) : isAttributeNameChar c = true := by
  have hs := isNarrow_isSpace c hc
  have hne : ∀ d, ¬IsWide d → c ≠ d := fun d hd => hc.ne hd
  simp [isAttributeNameChar, hs, hne '=' (by decide), hne '"' (by decide), hne '\'' (by decide),
    hne '{' (by decide), hne '}' (by decide), hne '<' (by decide), hne '>' (by decide),
    hne '/' (by decide)]

/-- A class that tells no difference between the characters outside ASCII. -/
def IsEven (p : Char → Bool) : Prop := ∀ c d, IsWide c → IsWide d → p c = p d

/-- A narrow class has no character outside ASCII, so it tells none of them apart. -/
theorem IsNarrow.isEven {p : Char → Bool} (hp : IsNarrow p) : IsEven p := by
  intro c d hc hd
  rw [hp c hc, hp d hd]

/-- The names of attributes take every character outside ASCII, and so tell none of them apart. -/
theorem isEven_isAttributeNameChar : IsEven isAttributeNameChar := by
  intro c d hc hd
  rw [isAttributeNameChar_of_isWide hc, isAttributeNameChar_of_isWide hd]

/-- What is outside an even class forms an even class. -/
theorem IsEven.not {p : Char → Bool} (hp : IsEven p) : IsEven fun c => !p c := by
  intro c d hc hd
  exact congrArg (! ·) (hp c d hc hd)

/-- A byte is like a character when it is that character or neither is in ASCII. -/
def IsLike (b c : Char) : Prop := b = c ∨ IsWide b ∧ IsWide c

/-- A byte that is like a character is in the same even classes. -/
theorem IsLike.even {p : Char → Bool} (h : IsLike c d) (hp : IsEven p) : p c = p d := by
  rcases h with rfl | ⟨hc, hd⟩
  · rfl
  · exact hp c d hc hd

/-- A byte that is like a character is a given one of ASCII exactly if the character is. -/
theorem IsLike.eq_iff {e : Char} (h : IsLike c d) (he : ¬IsWide e) : c = e ↔ d = e := by
  have heven := h.even (isNarrow_eq he).isEven
  simpa using heven

end

section

variable {s rest : List Char} {c : Char}

private theorem utf8_append (a b : List Char) : utf8 (a ++ b) = utf8 a ++ utf8 b :=
  List.flatMap_append

/-- A text has as many bytes as its characters take up. -/
theorem length_utf8 (s : List Char) : (utf8 s).length = byteSize s := by
  induction s with
  | nil => rfl
  | cons c s ih =>
    rw [utf8, List.flatMap_cons, List.length_append, String.length_utf8EncodeChar, byteSize_cons]
    exact congrArg (c.utf8Size + ·) ih

/-- A byte is in range exactly when its index is smaller than the size of the text. -/
theorem byte?_eq_none_iff {i : Nat} : byte? s i = none ↔ byteSize s ≤ i := by
  rw [byte?, byteIn?, Option.map_eq_none_iff, List.getElem?_eq_none_iff, length_utf8]

/-- An offset with a byte is inside the text. -/
theorem lt_of_byteAt {i : Nat} {b : Char} (h : byteAt s i = .ok b) : i < byteSize s := by
  rw [← Nat.not_le, ← byte?_eq_none_iff]
  intro hnone
  rw [byteAt, hnone] at h
  cases h

/-- From the place of a final part on, the bytes are those of the part. -/
theorem byte?_place (h : rest <:+ s) (n : Nat) : byte? s (place s rest + n) = byte? rest n := by
  obtain ⟨before, rfl⟩ := h
  have hplace : place (before ++ rest) rest + n = (utf8 before).length + n := by
    simp only [place, byteSize_append, length_utf8, Nat.add_sub_cancel]
  rw [hplace, byte?, byteIn?, utf8_append, List.getElem?_append_right (Nat.le_add_right _ _),
    Nat.add_sub_cancel_left, byte?, byteIn?]

/-- A character of ASCII is one byte, and that byte is the character. -/
theorem utf8EncodeChar_of_not_isWide (hc : ¬IsWide c) :
    String.utf8EncodeChar c = [UInt8.ofNat c.toNat] := by
  have hle : c.val.toNat ≤ 127 := Nat.le_of_not_lt hc
  simp only [String.utf8EncodeChar, hle, if_true, Char.toNat]

/-- A character of ASCII has one byte. -/
theorem utf8Size_of_not_isWide (hc : ¬IsWide c) : c.utf8Size = 1 := by
  rw [← String.length_utf8EncodeChar, utf8EncodeChar_of_not_isWide hc]
  rfl

/-- Every byte of a character outside ASCII is outside ASCII. -/
theorem isWide_of_mem_utf8EncodeChar (hc : IsWide c) {b : UInt8}
    (hb : b ∈ String.utf8EncodeChar c) : 127 < b.toNat := by
  have hgt : ¬c.val.toNat ≤ 127 := Nat.not_le_of_lt hc
  simp only [String.utf8EncodeChar, hgt, if_false] at hb
  split at hb
  · simp only [List.mem_cons, List.not_mem_nil, or_false] at hb
    rcases hb with rfl | rfl <;> simp <;> omega
  · split at hb
    · simp only [List.mem_cons, List.not_mem_nil, or_false] at hb
      rcases hb with rfl | rfl | rfl <;> simp <;> omega
    · simp only [List.mem_cons, List.not_mem_nil, or_false] at hb
      rcases hb with rfl | rfl | rfl | rfl <;> simp <;> omega

/-- A text that begins with a character of ASCII begins with the byte of that character. -/
theorem byte?_cons (hc : ¬IsWide c) : byte? (c :: rest) 0 = some c := by
  have hle : c.toNat ≤ 127 := Nat.le_of_not_lt hc
  have hmod : c.toNat % 2 ^ 8 = c.toNat := Nat.mod_eq_of_lt (by omega)
  rw [byte?, byteIn?, utf8, List.flatMap_cons, utf8EncodeChar_of_not_isWide hc,
    List.singleton_append, List.getElem?_cons_zero, Option.map_some, UInt8.toNat_ofNat', hmod,
    Char.ofNat_toNat]

/-- The bytes of a character outside ASCII are outside ASCII. -/
theorem exists_byte?_of_isWide (rest : List Char) (hc : IsWide c) {n : Nat} (hn : n < c.utf8Size) :
    ∃ b, byte? (c :: rest) n = some b ∧ IsWide b := by
  rw [← String.length_utf8EncodeChar] at hn
  have hb := isWide_of_mem_utf8EncodeChar hc (List.getElem_mem hn)
  refine ⟨Char.ofNat (String.utf8EncodeChar c)[n].toNat, ?_, ?_⟩
  · rw [byte?, byteIn?, utf8, List.flatMap_cons, List.getElem?_append_left hn,
      List.getElem?_eq_getElem hn, Option.map_some]
  · have hlt := (String.utf8EncodeChar c)[n].toNat_lt
    have hvalid : (String.utf8EncodeChar c)[n].toNat.isValidChar := Or.inl (by omega)
    rw [Char.ofNat, dif_pos hvalid]
    exact hb

/-- At the place of a character of ASCII, that character is read. -/
theorem byteAt_place (h : c :: rest <:+ s) (hc : ¬IsWide c) :
    byteAt s (place s (c :: rest)) = .ok c := by
  have hb := byte?_place h 0
  rw [Nat.add_zero, byte?_cons hc] at hb
  rw [byteAt, hb]

/-- At the place of a character, a byte like it is read. -/
theorem exists_byteAt_place (h : c :: rest <:+ s) :
    ∃ b, byteAt s (place s (c :: rest)) = .ok b ∧ IsLike b c := by
  by_cases hc : IsWide c
  · obtain ⟨b, hb, hwide⟩ := exists_byte?_of_isWide rest hc c.utf8Size_pos
    refine ⟨b, ?_, Or.inr ⟨hwide, hc⟩⟩
    rw [← byte?_place h 0, Nat.add_zero] at hb
    rw [byteAt, hb]
  · exact ⟨c, byteAt_place h hc, Or.inl rfl⟩

/-- Behind a character of ASCII a final part begins one byte further on. -/
theorem place_cons_of_not_isWide (h : c :: rest <:+ s) (hc : ¬IsWide c) :
    place s (c :: rest) + 1 = place s rest := by
  rw [place_cons h, utf8Size_of_not_isWide hc]

/-- From the place of a character outside ASCII up to its end, bytes outside ASCII are read. -/
theorem exists_byteAt_of_isWide (h : c :: rest <:+ s) (hc : IsWide c) {i : Nat}
    (hlo : place s (c :: rest) ≤ i) (hhi : i < place s rest) :
    ∃ b, byteAt s i = .ok b ∧ IsWide b := by
  obtain ⟨n, rfl⟩ := Nat.exists_eq_add_of_le hlo
  rw [place_cons h] at hhi
  obtain ⟨b, hb, hwide⟩ := exists_byte?_of_isWide rest hc (Nat.lt_of_add_lt_add_left hhi)
  refine ⟨b, ?_, hwide⟩
  rw [byteAt, byte?_place h, hb]

/-- A narrow class tells of the byte at a place what it tells of the character there. -/
theorem byte?_any_place {p : Char → Bool} (hp : IsNarrow p) (h : rest <:+ s) :
    (byte? s (place s rest)).any p = rest.head?.any p := by
  have hb := byte?_place h 0
  rw [Nat.add_zero] at hb
  rw [hb]
  cases rest with
  | nil => rfl
  | cons c rest =>
    by_cases hc : IsWide c
    · obtain ⟨b, hb, hwide⟩ := exists_byte?_of_isWide rest hc c.utf8Size_pos
      rw [hb, Option.any_some, hp b hwide, List.head?_cons, Option.any_some, hp c hc]
    · rw [byte?_cons hc]
      rfl

/-- At the place of a final part is a given byte of ASCII exactly if the part begins with that
character. -/
theorem byte?_eq_some_place_iff {d : Char} (hd : ¬IsWide d) (h : rest <:+ s) :
    byte? s (place s rest) = some d ↔ rest.head? = some d := by
  have hany := byte?_any_place (isNarrow_eq hd) h
  rw [Bool.eq_iff_iff, Option.any_eq_true, Option.any_eq_true] at hany
  simpa using hany

/-- An offset is the place of a final part, or the text is not split there and the byte there, if
any, is outside ASCII. -/
theorem exists_place_or_isWide (s : List Char) (i : Nat) :
    (∃ rest, rest <:+ s ∧ i = place s rest) ∨
      splitBytes? i s = none ∧ ∀ b, byte? s i = some b → IsWide b := by
  induction s generalizing i with
  | nil =>
    cases i with
    | zero => exact Or.inl ⟨[], List.suffix_refl _, rfl⟩
    | succ n => exact Or.inr ⟨rfl, fun b hb => by cases hb⟩
  | cons c s ih =>
    have hs : s <:+ c :: s := List.suffix_cons c s
    have hplace : place (c :: s) s = c.utf8Size := by
      rw [place_cons (List.suffix_refl (c :: s)), place_self, Nat.zero_add]
    cases i with
    | zero => exact Or.inl ⟨c :: s, List.suffix_refl _, (place_self _).symm⟩
    | succ n =>
      rw [splitBytes?]
      by_cases hsize : c.utf8Size ≤ n + 1
      · obtain ⟨m, hm⟩ := Nat.exists_eq_add_of_le hsize
        rw [if_pos hsize, hm, Nat.add_sub_cancel_left]
        rcases ih m with ⟨rest, hrest, rfl⟩ | ⟨hsplit, hwide⟩
        · obtain ⟨before, rfl⟩ := hrest
          have hfirst := place_append hs
          have hsecond := place_append (List.suffix_refl (before ++ rest))
          rw [hplace] at hfirst
          rw [place_self, Nat.zero_add] at hsecond
          exact Or.inl ⟨rest, suffix_of_append hs, by rw [hfirst, hsecond]⟩
        · refine Or.inr ⟨by rw [hsplit]; rfl, fun b hb => hwide b ?_⟩
          rwa [← hplace, byte?_place hs] at hb
      · refine Or.inr ⟨if_neg hsize, fun b hb => ?_⟩
        have hc : IsWide c := Decidable.byContradiction fun hc => by
          rw [utf8Size_of_not_isWide hc] at hsize
          exact hsize (Nat.le_add_left 1 n)
        obtain ⟨b', hb', hwide⟩ := exists_byte?_of_isWide s hc (Nat.not_le.mp hsize)
        rw [hb'] at hb
        exact Option.some.inj hb ▸ hwide

/-- Where a character of ASCII is read as a byte, it stands there in the text. -/
theorem exists_place_of_byte? {d : Char} (hd : ¬IsWide d) {i : Nat} (h : byte? s i = some d) :
    ∃ text, d :: text <:+ s ∧ i = place s (d :: text) := by
  rcases exists_place_or_isWide s i with ⟨rest, hrest, rfl⟩ | ⟨-, hwide⟩
  · obtain ⟨text, rfl⟩ := List.head?_eq_some_iff.mp ((byte?_eq_some_place_iff hd hrest).mp h)
    exact ⟨text, hrest, rfl⟩
  · exact absurd (hwide d h) hd

end

section

variable {s text rest : List Char}

/-- The slices of a text are its parts, from the size of what is before them. -/
theorem slice?_eq_some_iff {a b : Nat} :
    slice? s a b = some text ↔
      ∃ before after, s = before ++ (text ++ after) ∧ a = byteSize before ∧
        b = byteSize before + byteSize text := by
  simp only [slice?, Option.bind_eq_bind, Option.bind_eq_some_iff, Prod.exists]
  constructor
  · rintro ⟨before, tail, hs, ht⟩
    split at ht
    · next hle =>
      simp only [Option.map_eq_some_iff, Prod.exists, exists_and_right, exists_eq_right] at ht
      obtain ⟨after, ht⟩ := ht
      obtain ⟨rfl, rfl⟩ := eq_append_of_splitBytes? hs
      obtain ⟨rfl, hb⟩ := eq_append_of_splitBytes? ht
      exact ⟨before, after, rfl, rfl, by omega⟩
    · cases ht
  · rintro ⟨before, after, rfl, rfl, rfl⟩
    refine ⟨before, text ++ after, splitBytes?_append _ _, ?_⟩
    rw [if_pos (Nat.le_add_right _ _), Nat.add_sub_cancel_left, splitBytes?_append]
    rfl

/-- The prefixes of a text are told apart by their sizes. -/
theorem eq_of_byteSize_eq {a b a' b' : List Char} (h : a ++ b = a' ++ b')
    (hsize : byteSize a = byteSize a') : b = b' := by
  have ha := splitBytes?_append a b
  rw [h, hsize, splitBytes?_append] at ha
  exact (Prod.mk.inj (Option.some.inj ha)).2.symm

/-- From the place of a final part on, the slices are the texts at the front of that part. -/
theorem slice?_place_eq_some_iff {b : Nat} (h : rest <:+ s) :
    slice? s (place s rest) b = some text ↔
      ∃ after, rest = text ++ after ∧ b = place s rest + byteSize text := by
  obtain ⟨front, rfl⟩ := h
  rw [place_append_self, slice?_eq_some_iff]
  constructor
  · rintro ⟨before, after, hs, ha, rfl⟩
    refine ⟨after, eq_of_byteSize_eq hs ha, ?_⟩
    rw [ha]
  · rintro ⟨after, rfl, rfl⟩
    exact ⟨front, after, rfl, rfl, rfl⟩

/-- Between the places of two final parts is the stretch by which they differ. -/
theorem slice?_place (h : text ++ rest <:+ s) :
    slice? s (place s (text ++ rest)) (place s rest) = some text := by
  obtain ⟨before, rfl⟩ := h
  refine slice?_eq_some_iff.mpr ⟨before, rest, rfl, ?_, ?_⟩
  · simp only [place, byteSize_append]
    omega
  · simp only [place, byteSize_append]
    omega

/-- Between two places a slice can be taken: what stands between them. -/
theorem sliceAt_place (h : text ++ rest <:+ s) :
    sliceAt s (place s (text ++ rest)) (place s rest) = .ok text := by
  rw [sliceAt, slice?_place h]

/-- From the place of a final part to the end of the text is that part. -/
theorem slice?_place_end (h : rest <:+ s) : slice? s (place s rest) (byteSize s) = some rest := by
  rw [← List.append_nil rest] at h
  simpa only [List.append_nil, place_nil] using slice?_place h

/-- From the place of a final part to the end, the checked slice is that part. -/
theorem sliceAt_place_end (h : rest <:+ s) : sliceAt s (place s rest) (byteSize s) = .ok rest := by
  rw [sliceAt, slice?_place_end h]

end

/-- In a text, a cursor stands in front of a final part: what remains after the cursor is followed
by that part, and the offset of the cursor is where it begins. -/
structure Stands (s tail : List Char) (c : Cursor) : Prop where
  suffix : c.rest ++ tail <:+ s
  offset : c.offset = place s (c.rest ++ tail)

section

variable {s tail text rest : List Char} {c : Cursor}

/-- The end of what remains may count as the part behind. -/
theorem Stands.cut {rest' : List Char} (h : Stands s tail c)
    (hc : c.rest ++ tail = text ++ rest') : Stands s rest' ⟨c.offset, text⟩ :=
  ⟨hc ▸ h.suffix, hc ▸ h.offset⟩

/-- A cursor that stands in a text stands in it behind a stretch as well. -/
theorem Stands.advance (h : Stands s tail c) (hrest : c.rest = text ++ rest) :
    Stands s tail (c.advance text rest) := by
  have hsuffix := h.suffix
  rw [hrest, List.append_assoc] at hsuffix
  refine ⟨suffix_of_append hsuffix, ?_⟩
  rw [Cursor.advance, h.offset, hrest, List.append_assoc, place_append hsuffix]

/-- What the cursor passes over on its way to a later place has a slice. -/
theorem Stands.sliceAt_append (h : Stands s tail c) (hc : c.rest = text ++ rest) :
    sliceAt s c.offset (place s (rest ++ tail)) = .ok text := by
  have hsuffix := h.suffix
  have hoffset := h.offset
  rw [hc, List.append_assoc] at hsuffix hoffset
  rw [hoffset]
  exact sliceAt_place hsuffix

/-- To seek a final part is to advance over what is in front of it. -/
theorem seek_eq_advance (hrest : c.rest = text ++ rest) : c.seek rest = c.advance text rest := by
  rw [Cursor.seek, Cursor.advance, hrest, byteSize_append, Nat.add_sub_cancel]

/-- A cursor that passes some text stands in front of the same part. -/
theorem Stands.passes {d : Cursor} (h : Stands s tail c) (hd : c.Passes text d) :
    Stands s tail d := by
  have hadvance : c.advance text d.rest = d := by rw [Cursor.advance, ← hd.offset]
  exact hadvance ▸ h.advance hd.rest

/-- A cursor that seeks a part of what it has in front of it stands in the text. -/
theorem Stands.seek (h : Stands s tail c) (hrest : rest <:+ c.rest) :
    Stands s tail (c.seek rest) := by
  obtain ⟨text, htext⟩ := hrest
  rw [seek_eq_advance htext.symm]
  exact h.advance htext.symm

/-- A cursor that skips characters stands in the text. -/
theorem Stands.skipWhile (h : Stands s tail c) (p : Char → Bool) :
    Stands s tail (c.skipWhile p) :=
  h.advance List.takeWhile_append_dropWhile.symm

/-- A cursor stands at the place of a final part. -/
theorem stands_place (h : rest <:+ s) : Stands s [] ⟨place s rest, rest⟩ := by
  refine ⟨?_, ?_⟩
  · rwa [List.append_nil]
  · rw [List.append_nil]

/-- The cursor at the start stands in the text. -/
theorem stands_atStart (s : List Char) : Stands s [] (.atStart s) := by
  have hs : (Cursor.atStart s).rest ++ [] = s := List.append_nil s
  refine ⟨⟨[], hs⟩, ?_⟩
  rw [hs, place_self]
  rfl

/-- In front of nothing else, a cursor stands at the place of what remains. -/
theorem Stands.whole (h : Stands s [] c) : c.rest <:+ s ∧ c.offset = place s c.rest := by
  have hsuffix := h.suffix
  have hoffset := h.offset
  rw [List.append_nil] at hsuffix hoffset
  exact ⟨hsuffix, hoffset⟩

/-- A cursor is not behind the end of what it reads. -/
theorem Stands.offset_le (h : Stands s tail c) : c.offset ≤ place s tail := by
  rw [h.offset, place_append h.suffix]
  exact Nat.le_add_right _ _

/-- A cursor with a character in front of it is before the end of what it reads. -/
theorem Stands.offset_lt {ch : Char} (h : Stands s tail c) (hc : c.rest = ch :: text) :
    c.offset < place s tail := by
  have hlt := place_lt_of_append h.suffix (hc ▸ List.cons_ne_nil ch text)
  rwa [← h.offset] at hlt

/-- A cursor with nothing in front of it is at the end of what it reads. -/
theorem Stands.offset_eq (h : Stands s tail c) (hc : c.rest = []) : c.offset = place s tail := by
  rw [h.offset, hc, List.nil_append]

/-- Of two cursors, the one behind which less remains has the larger offset. -/
theorem Stands.offset_lt_of_length {d : Cursor} (h : Stands s tail c) (hd : Stands s tail d)
    (hlength : d.rest.length < c.rest.length) : c.offset < d.offset := by
  rw [h.offset, hd.offset]
  apply place_lt_of_length h.suffix hd.suffix
  rw [List.length_append, List.length_append]
  exact Nat.add_lt_add_right hlength _

/-- Where a character follows the cursor, a byte like it is read at its offset. -/
theorem Stands.exists_byteAt {ch : Char} (h : Stands s tail c) (hc : c.rest = ch :: text) :
    ∃ b, byteAt s c.offset = .ok b ∧ IsLike b ch := by
  have hsuffix := h.suffix
  have hoffset := h.offset
  rw [hc, List.cons_append] at hsuffix hoffset
  rw [hoffset]
  exact exists_byteAt_place hsuffix

/-- In front of the tail, a narrow class tells of the byte at the cursor what it tells of the
character. -/
theorem Stands.byte?_any {ch : Char} {p : Char → Bool} (hp : IsNarrow p)
    (h : Stands s tail c) (hc : c.rest = ch :: text) : (byte? s c.offset).any p = p ch := by
  rw [h.offset, byte?_any_place hp h.suffix, hc]
  rfl

/-- At a cursor is a given byte of ASCII exactly if it has that character in front of it. -/
theorem Stands.byte?_eq_some_iff {ch d : Char} (hd : ¬IsWide d)
    (h : Stands s tail c) (hc : c.rest = ch :: text) : byte? s c.offset = some d ↔ ch = d := by
  rw [h.offset, byte?_eq_some_place_iff hd h.suffix, hc]
  exact Option.some_inj

/-- Behind one character of ASCII, the cursor stands one byte further. -/
theorem Stands.advance_one {ch : Char} (h : Stands s tail c) (hc : c.rest = ch :: text)
    (hascii : ¬IsWide ch) :
    Stands s tail (c.advance [ch] text) ∧ (c.advance [ch] text).offset = c.offset + 1 := by
  refine ⟨h.advance hc, ?_⟩
  rw [Cursor.advance, byteSize_cons, utf8Size_of_not_isWide hascii]
  rfl

end

end TemplateReader.Bytes
