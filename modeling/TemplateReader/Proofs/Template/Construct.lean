import TemplateReader.Proofs.Delimiter.Extent
import TemplateReader.Template.Piece

/-!
# Constructs

A construct of a template is a stretch of text that begins with an opening and
ends by the rule of its kind. `Construct k x p` says which texts are constructs
and as which piece each is read at offset `k`. The reader finds exactly these
constructs: the relation speaks of the stretch alone, so neither what is open
before it nor what follows it has any part in how it is read.
-/

namespace TemplateReader

/-- What a text has at its front when the opening begins there. -/
def Opening.Begins : Opening → List Char → Prop
  | comment, text => ∃ tail, text = '<' :: '!' :: '-' :: '-' :: tail
  | declaration, text => ∃ tail, text = '<' :: '!' :: tail ∧ ¬['-', '-'] <+: tail
  | closeTag, text => ∃ c tail, text = '<' :: '/' :: c :: tail ∧ c.isAlpha = true
  | element, text => ∃ c tail, text = '<' :: c :: tail ∧ c.isAlpha = true
  | program, text => ∃ tail, text = '{' :: tail

/-- An opening is found exactly where it begins. -/
theorem opening?_eq_some_iff {o : Opening} {text : List Char} :
    opening? text = some o ↔ o.Begins text := by
  constructor
  · intro h
    unfold opening? at h
    split at h
    · next tail =>
      obtain rfl := Option.some.inj h
      exact ⟨tail, rfl⟩
    · next tail hne =>
      obtain rfl := Option.some.inj h
      refine ⟨tail, rfl, ?_⟩
      rintro ⟨more, rfl⟩
      exact hne more rfl
    · next c tail =>
      split at h
      · next hc =>
        obtain rfl := Option.some.inj h
        exact ⟨c, tail, rfl, hc⟩
      · cases h
    · next c tail _ _ _ =>
      split at h
      · next hc =>
        obtain rfl := Option.some.inj h
        exact ⟨c, tail, rfl, hc⟩
      · cases h
    · next tail =>
      obtain rfl := Option.some.inj h
      exact ⟨tail, rfl⟩
    · cases h
  · cases o with
    | comment =>
      rintro ⟨tail, rfl⟩
      rfl
    | declaration =>
      rintro ⟨tail, rfl, hd⟩
      rw [opening?]
      rintro more rfl
      exact hd ⟨more, rfl⟩
    | closeTag =>
      rintro ⟨c, tail, rfl, hc⟩
      rw [opening?, if_pos hc]
    | element =>
      rintro ⟨c, tail, rfl, hc⟩
      have hbang : c ≠ '!' := by rintro rfl; cases hc
      have hslash : c ≠ '/' := by rintro rfl; cases hc
      rw [opening?, if_pos hc]
      · intro _ h _
        exact hbang h
      · intro h
        exact hbang h
      · intro _ _ h _
        exact hslash h
    | program =>
      rintro ⟨tail, rfl⟩
      rfl

/-- What follows an opening may tell which it is, but not that there is none. -/
theorem opening?_append_isSome {text : List Char} (h : (opening? text).isSome) (rest : List Char) :
    (opening? (text ++ rest)).isSome := by
  obtain ⟨o, ho⟩ := Option.isSome_iff_exists.mp h
  rw [opening?_eq_some_iff] at ho
  rw [Option.isSome_iff_exists]
  cases o with
  | comment =>
    obtain ⟨tail, rfl⟩ := ho
    exact ⟨.comment, opening?_eq_some_iff.mpr ⟨tail ++ rest, rfl⟩⟩
  | declaration =>
    obtain ⟨tail, rfl, -⟩ := ho
    by_cases hd : ['-', '-'] <+: tail ++ rest
    · obtain ⟨more, hm⟩ := hd
      refine ⟨.comment, opening?_eq_some_iff.mpr ⟨more, ?_⟩⟩
      rw [List.cons_append, List.cons_append, ← hm]
      rfl
    · exact ⟨.declaration, opening?_eq_some_iff.mpr ⟨tail ++ rest, rfl, hd⟩⟩
  | closeTag =>
    obtain ⟨c, tail, rfl, hc⟩ := ho
    exact ⟨.closeTag, opening?_eq_some_iff.mpr ⟨c, tail ++ rest, rfl, hc⟩⟩
  | element =>
    obtain ⟨c, tail, rfl, hc⟩ := ho
    exact ⟨.element, opening?_eq_some_iff.mpr ⟨c, tail ++ rest, rfl, hc⟩⟩
  | program =>
    obtain ⟨tail, rfl⟩ := ho
    exact ⟨.program, opening?_eq_some_iff.mpr ⟨tail ++ rest, rfl⟩⟩

/-- The text of a tag, given what is inside its angle brackets. -/
def tagText (inner : List Char) : List Char := '<' :: (inner ++ ['>'])

/-- At offset `k` the text of the tag around `inner` is an opening tag with its name and its
attributes; `closesItself` tells whether it ends in a slash of its own. -/
structure IsOpeningTag (k : Nat) (inner : List Char) (tag : OpenTag) (closesItself : Bool) :
    Prop where
  fills : FillsTag inner
  begins : ∃ c tail, inner = c :: tail ∧ c.isAlpha = true
  name : tag.name = tagName inner
  attributes : ∃ properties,
    readAttributes ⟨k + byteSize ('<' :: tag.name), inner.dropWhile isTagNameChar⟩ =
      .ok (properties, closesItself) ∧
    tag.attributes = attributeObject (k + byteSize ('<' :: tag.name)) properties
  span : tag.span = ⟨k, k + byteSize (tagText inner)⟩

/-- The constructs of a template and the pieces as which they are read at offset `k`. -/
inductive Construct (k : Nat) : List Char → Piece → Prop
  | comment {inner : List Char} (hinner : ¬commentClosing <:+: inner) :
    Construct k (commentOpening ++ inner ++ commentClosing)
      (verbatim ⟨k, []⟩ (commentOpening ++ inner ++ commentClosing))
  | declaration {inner : List Char} (hfills : FillsTag ('!' :: inner))
    (hinner : ¬['-', '-'] <+: inner) :
    Construct k (tagText ('!' :: inner)) (verbatim ⟨k, []⟩ (tagText ('!' :: inner)))
  | program {inner : List Char} (hfills : FillsBraces inner) :
    Construct k ('{' :: inner ++ ['}'])
      (.node (.program ⟨String.ofList (trim inner), ⟨k, k + byteSize ('{' :: inner ++ ['}'])⟩⟩))
  | closeTag {c : Char} {inner : List Char} (hc : c.isAlpha = true)
    (hfills : FillsTag ('/' :: c :: inner)) :
    Construct k (tagText ('/' :: c :: inner))
      (.closeTag (tagName (c :: inner)) ⟨k, k + byteSize (tagText ('/' :: c :: inner))⟩)
  | childless {inner : List Char} {tag : OpenTag} {closesItself : Bool}
    (htag : IsOpeningTag k inner tag closesItself)
    (hname : (closesItself || isVoidElement tag.name) = true) :
    Construct k (tagText inner)
      (.node (.element ⟨String.ofList tag.name, tag.attributes, [], tag.span⟩))
  | rawText {inner content close : List Char} {tag : OpenTag}
    (htag : IsOpeningTag k inner tag false) (hvoid : isVoidElement tag.name = false)
    (hname : isRawTextElement tag.name = true) (hclose : IsCloseTag tag.name close)
    (hcontent : ∀ earlier, IsCloseTag tag.name earlier → ¬earlier <:+: content) :
    Construct k (tagText inner ++ (content ++ close))
      (.node (.element ⟨String.ofList tag.name, tag.attributes,
        if content.isEmpty then [] else [.literal (.ofText (k + byteSize (tagText inner)) content)],
        ⟨k, k + byteSize (tagText inner ++ (content ++ close))⟩⟩))
  | openTag {inner : List Char} {tag : OpenTag} (htag : IsOpeningTag k inner tag false)
    (hvoid : isVoidElement tag.name = false) (hname : isRawTextElement tag.name = false) :
    Construct k (tagText inner) (.openTag tag)

private theorem readTag_of_fills {inner : List Char} (h : FillsTag inner) (c : Cursor)
    (rest : List Char) :
    readTag c (inner ++ '>' :: rest) = .ok (inner, c.advance (tagText inner) rest) := by
  rw [readTag, splitTag_eq_ok_iff.mpr ⟨rfl, h⟩]
  rfl

/-- A tag that is read fills the stretch up to where the cursor is put. -/
theorem fills_of_readTag {c d : Cursor} {text inner : List Char}
    (h : readTag c text = .ok (inner, d)) :
    text = inner ++ '>' :: d.rest ∧ FillsTag inner ∧ d = c.advance (tagText inner) d.rest := by
  unfold readTag at h
  split at h
  · next i rest hs =>
    simp only [Except.ok.injEq, Prod.mk.injEq] at h
    obtain ⟨rfl, rfl⟩ := h
    exact ⟨(splitTag_eq_ok_iff.mp hs).1, (splitTag_eq_ok_iff.mp hs).2, rfl⟩
  · cases h

/-- What follows a tag follows its closing bracket. -/
theorem tagText_append (inner rest : List Char) :
    tagText inner ++ rest = '<' :: (inner ++ '>' :: rest) := by
  simp only [tagText, List.cons_append, List.append_assoc, List.nil_append]

/-- The text of a tag is not empty. -/
theorem tagText_ne_nil (inner : List Char) : tagText inner ≠ [] := List.cons_ne_nil _ _

/-- The name of a tag begins with the letter behind its opening bracket. -/
theorem tagName_cons {ch : Char} (hch : ch.isAlpha = true) (text : List Char) :
    tagName (ch :: text) = ch :: tagName text := by
  have hname : isTagNameChar ch = true := by
    simp only [isTagNameChar, Char.isAlphanum, hch, Bool.true_or]
  simp only [tagName, List.takeWhile_cons, hname, if_true]

/-- A tag name goes no further than the tag. -/
theorem tagName_append_gt (inner rest : List Char) :
    tagName (inner ++ '>' :: rest) = tagName inner := by
  induction inner with
  | nil => rfl
  | cons ch inner ih =>
    simp only [tagName, List.cons_append, List.takeWhile_cons] at ih ⊢
    rw [ih]

/-- No tag name has a `<` in it. -/
theorem lt_notMem_tagName (text : List Char) : '<' ∉ tagName text := by
  intro h
  have hc := List.all_eq_true.mp (List.all_takeWhile (p := isTagNameChar) (l := text)) '<' h
  cases hc

/-- A piece is read by the reader of its opening. -/
theorem readPiece_of_begins {o : Opening} {c : Cursor} : o.Begins c.rest →
    readPiece c =
      match o with
      | .comment => readComment c (c.rest.drop 4)
      | .closeTag => readCloseTag c c.rest.tail
      | .declaration => readDeclaration c c.rest.tail
      | .element => readElement c c.rest.tail
      | .program => readProgram c c.rest.tail := by
  intro h
  rw [readPiece, opening?_eq_some_iff.mpr h]
  cases o <;> rfl

private theorem readElement_of_tag {k : Nat} {inner : List Char} {tag : OpenTag}
    {closesItself : Bool} (htag : IsOpeningTag k inner tag closesItself) (text rest : List Char) :
    readElement ⟨k, text⟩ (inner ++ '>' :: rest) =
      finishTag ⟨k, text⟩ ⟨k + byteSize (tagText inner), rest⟩ tag.name tag.attributes
        closesItself := by
  obtain ⟨properties, hread, hattributes⟩ := htag.attributes
  rw [readElement, readTag_of_fills htag.fills, hattributes, htag.name]
  rw [htag.name] at hread
  simp only [bind, Except.bind, Cursor.advance, hread]

private theorem begins_of_tag {k : Nat} {inner : List Char} {tag : OpenTag} {closesItself : Bool}
    (htag : IsOpeningTag k inner tag closesItself) (rest : List Char) :
    Opening.element.Begins (tagText inner ++ rest) := by
  obtain ⟨c, tail, rfl, hc⟩ := htag.begins
  exact ⟨c, _, tagText_append _ _, hc⟩

/-- A construct begins with an opening, and is read as its piece whatever follows it. -/
theorem Construct.read {k : Nat} {x : List Char} {p : Piece} (h : Construct k x p)
    (rest : List Char) :
    (opening? (x ++ rest)).isSome ∧
      readPiece ⟨k, x ++ rest⟩ = .ok (p, ⟨k + byteSize x, rest⟩) := by
  have of_begins {o : Opening} (ho : o.Begins (x ++ rest)) : (opening? (x ++ rest)).isSome := by
    rw [opening?_eq_some_iff.mpr ho]
    rfl
  cases h with
  | @comment inner hinner =>
    have hbegins : Opening.comment.Begins (commentOpening ++ inner ++ commentClosing ++ rest) :=
      ⟨inner ++ commentClosing ++ rest, by simp [commentOpening]⟩
    have hs : splitPattern commentClosing (inner ++ (commentClosing ++ rest)) =
        some (inner, rest) := splitComment_eq_some_iff.mpr ⟨rfl, hinner⟩
    have hdrop : (commentOpening ++ inner ++ commentClosing ++ rest).drop 4 =
        inner ++ (commentClosing ++ rest) := by
      simp [commentOpening]
    refine ⟨of_begins hbegins, ?_⟩
    rw [readPiece_of_begins hbegins]
    dsimp only
    rw [hdrop, readComment, hs]
    rfl
  | @declaration inner hfills hinner =>
    have hbegins : Opening.declaration.Begins (tagText ('!' :: inner) ++ rest) := by
      refine ⟨inner ++ '>' :: rest, tagText_append _ _, fun hd => hinner ?_⟩
      rcases List.prefix_or_prefix_of_prefix hd (List.prefix_append inner _) with hp | hp
      · exact hp
      · match inner, hp with
        | [], _ => simp at hd
        | ['-'], _ => simp at hd
        | ['-', '-'], hp => exact hp
        | _ :: _ :: _ :: _, hp => simpa using hp.length_le
    refine ⟨of_begins hbegins, ?_⟩
    rw [readPiece_of_begins hbegins]
    dsimp only
    rw [tagText_append, List.tail_cons, readDeclaration, readTag_of_fills hfills]
    rfl
  | @program inner hfills =>
    have hbegins : Opening.program.Begins ('{' :: inner ++ ['}'] ++ rest) :=
      ⟨inner ++ ['}'] ++ rest, rfl⟩
    have hs := hfills.splitBraces_append rest
    have htail : ('{' :: inner ++ ['}'] ++ rest).tail = inner ++ '}' :: rest := by simp
    refine ⟨of_begins hbegins, ?_⟩
    rw [readPiece_of_begins hbegins]
    dsimp only
    rw [htail, readProgram, hs]
    rfl
  | @closeTag c inner hc hfills =>
    have hbegins : Opening.closeTag.Begins (tagText ('/' :: c :: inner) ++ rest) :=
      ⟨c, inner ++ '>' :: rest, tagText_append _ _, hc⟩
    refine ⟨of_begins hbegins, ?_⟩
    rw [readPiece_of_begins hbegins]
    dsimp only
    rw [tagText_append, List.tail_cons, readCloseTag, readTag_of_fills hfills]
    rfl
  | @childless inner tag closesItself htag hname =>
    have hbegins := begins_of_tag htag rest
    refine ⟨of_begins hbegins, ?_⟩
    rw [readPiece_of_begins hbegins]
    dsimp only
    rw [tagText_append, List.tail_cons, readElement_of_tag htag, finishTag, if_pos hname,
      htag.span]
    rfl
  | @rawText inner content close tag htag hvoid hname hclose hcontent =>
    have hlt : '<' ∉ tag.name := htag.name ▸ lt_notMem_tagName inner
    have hs : splitRawText tag.name (content ++ (close ++ rest)) = some (content, rest) :=
      (splitRawText_eq_some_iff hlt).mpr ⟨close, rfl, hclose, hcontent⟩
    have hbegins := begins_of_tag htag (content ++ (close ++ rest))
    rw [← List.append_assoc, ← List.append_assoc, List.append_assoc _ content] at hbegins
    refine ⟨of_begins hbegins, ?_⟩
    rw [readPiece_of_begins hbegins]
    dsimp only
    rw [List.append_assoc, List.append_assoc, tagText_append, List.tail_cons,
      readElement_of_tag htag, finishTag, hvoid, hname, hs]
    have hlast : (⟨k + byteSize (tagText inner), content ++ (close ++ rest)⟩ : Cursor).seek rest =
        ⟨k + byteSize (tagText inner ++ (content ++ close)), rest⟩ := by
      simp only [Cursor.seek, byteSize_append, Cursor.mk.injEq, and_true]
      omega
    simp only [Bool.or_self, Bool.false_eq_true, if_false, if_true, hlast, Cursor.spanTo]
  | @openTag inner tag htag hvoid hname =>
    have hbegins := begins_of_tag htag rest
    refine ⟨of_begins hbegins, ?_⟩
    rw [readPiece_of_begins hbegins]
    dsimp only
    rw [tagText_append, List.tail_cons, readElement_of_tag htag, finishTag, hvoid, hname]
    simp only [Bool.or_self, Bool.false_eq_true, if_false, Cursor.spanTo, ← htag.span]

private theorem comment_of_readComment {c d : Cursor} {text : List Char} {p : Piece}
    (hc : c.rest = commentOpening ++ text) (h : readComment c text = .ok (p, d)) :
    ∃ x, c.rest = x ++ d.rest ∧ d.offset = c.offset + byteSize x ∧ Construct c.offset x p := by
  unfold readComment at h
  split at h
  · cases h
  · next inner rest hs =>
    simp only [Except.ok.injEq, Prod.mk.injEq] at h
    obtain ⟨rfl, rfl⟩ := h
    obtain ⟨rfl, hinner⟩ := splitComment_eq_some_iff.mp hs
    refine ⟨commentOpening ++ inner ++ commentClosing, ?_, rfl, .comment hinner⟩
    rw [hc]
    simp only [Cursor.advance, List.append_assoc]

private theorem program_of_readProgram {c d : Cursor} {text : List Char} {p : Piece}
    (hc : c.rest = '{' :: text) (h : readProgram c text = .ok (p, d)) :
    ∃ x, c.rest = x ++ d.rest ∧ d.offset = c.offset + byteSize x ∧ Construct c.offset x p := by
  unfold readProgram at h
  split at h
  · cases h
  · next inner rest hs =>
    simp only [Except.ok.injEq, Prod.mk.injEq] at h
    obtain ⟨rfl, rfl⟩ := h
    obtain ⟨rfl, hinner⟩ := splitBraces_eq_some_iff.mp hs
    refine ⟨'{' :: inner ++ ['}'], ?_, rfl, .program hinner⟩
    rw [hc]
    simp only [Cursor.advance, List.cons_append, List.append_assoc, List.nil_append]

private theorem declaration_of_readDeclaration {c d : Cursor} {tail : List Char} {p : Piece}
    (hc : c.rest = '<' :: '!' :: tail) (hd : ¬['-', '-'] <+: tail)
    (h : readDeclaration c ('!' :: tail) = .ok (p, d)) :
    ∃ x, c.rest = x ++ d.rest ∧ d.offset = c.offset + byteSize x ∧ Construct c.offset x p := by
  simp only [readDeclaration, bind, Except.bind, pure, Except.pure] at h
  split at h
  · cases h
  · next r hr =>
    obtain ⟨inner, after⟩ := r
    simp only [Except.ok.injEq, Prod.mk.injEq] at h
    obtain ⟨rfl, rfl⟩ := h
    obtain ⟨ht, hfills, hafter⟩ := fills_of_readTag hr
    cases inner with
    | nil => exact absurd (List.cons.inj ht).1 (by decide)
    | cons _ inner =>
      obtain ⟨rfl, rfl⟩ := List.cons.inj ht
      refine ⟨tagText ('!' :: inner), ?_, ?_, .declaration hfills fun hp => hd (hp.trans ?_)⟩
      · rw [hc, tagText_append]
        rfl
      · rw [hafter]
        rfl
      · exact List.prefix_append inner _

private theorem closeTag_of_readCloseTag {c d : Cursor} {ch : Char} {tail : List Char} {p : Piece}
    (hc : c.rest = '<' :: '/' :: ch :: tail) (hch : ch.isAlpha = true)
    (h : readCloseTag c ('/' :: ch :: tail) = .ok (p, d)) :
    ∃ x, c.rest = x ++ d.rest ∧ d.offset = c.offset + byteSize x ∧ Construct c.offset x p := by
  simp only [readCloseTag, bind, Except.bind, pure, Except.pure] at h
  split at h
  · cases h
  · next r hr =>
    obtain ⟨inner, after⟩ := r
    simp only [Except.ok.injEq, Prod.mk.injEq] at h
    obtain ⟨rfl, rfl⟩ := h
    obtain ⟨ht, hfills, hafter⟩ := fills_of_readTag hr
    rcases inner with _ | ⟨_, _ | ⟨_, inner⟩⟩
    · exact absurd (List.cons.inj ht).1 (by decide)
    · obtain ⟨rfl, -⟩ := List.cons.inj (List.cons.inj ht).2
      cases hch
    · obtain ⟨rfl, htail⟩ := List.cons.inj ht
      obtain ⟨rfl, rfl⟩ := List.cons.inj htail
      refine ⟨tagText ('/' :: ch :: inner), ?_, ?_, ?_⟩
      · rw [hc, tagText_append]
        rfl
      · rw [hafter]
        rfl
      · have hspan : c.spanTo after =
            ⟨c.offset, c.offset + byteSize (tagText ('/' :: ch :: inner))⟩ := by
          rw [hafter]
          rfl
        rw [hspan]
        exact .closeTag hch hfills

private theorem element_of_finishTag {c d : Cursor} {inner rest : List Char} {tag : OpenTag}
    {closesItself : Bool} {p : Piece} (htag : IsOpeningTag c.offset inner tag closesItself)
    (hc : c.rest = tagText inner ++ rest)
    (h : finishTag c (c.advance (tagText inner) rest) tag.name tag.attributes closesItself =
      .ok (p, d)) :
    ∃ x, c.rest = x ++ d.rest ∧ d.offset = c.offset + byteSize x ∧ Construct c.offset x p := by
  have hspan : c.spanTo (c.advance (tagText inner) rest) = tag.span := htag.span.symm
  unfold finishTag at h
  rw [hspan] at h
  split at h
  · next hname =>
    simp only [Except.ok.injEq, Prod.mk.injEq] at h
    obtain ⟨rfl, rfl⟩ := h
    exact ⟨tagText inner, hc, rfl, .childless htag hname⟩
  · next hname =>
    rw [Bool.not_eq_true, Bool.or_eq_false_iff] at hname
    obtain ⟨rfl, hvoid⟩ := hname
    split at h
    · next hraw =>
      split at h
      · cases h
      · next content rest' hs =>
        simp only [Except.ok.injEq, Prod.mk.injEq] at h
        obtain ⟨rfl, rfl⟩ := h
        have hlt : '<' ∉ tag.name := htag.name ▸ lt_notMem_tagName inner
        obtain ⟨close, hr, hclose, hcontent⟩ := (splitRawText_eq_some_iff hlt).mp hs
        change rest = content ++ (close ++ rest') at hr
        subst hr
        have hlast : (c.advance (tagText inner) (content ++ (close ++ rest'))).seek rest' =
            ⟨c.offset + byteSize (tagText inner ++ (content ++ close)), rest'⟩ := by
          simp only [Cursor.advance, Cursor.seek, byteSize_append, Cursor.mk.injEq, and_true]
          omega
        refine ⟨tagText inner ++ (content ++ close), ?_, ?_, ?_⟩
        · rw [hc]
          simp only [Cursor.seek, List.append_assoc]
        · rw [hlast]
        · rw [hlast]
          exact .rawText htag hvoid hraw hclose hcontent
    · next hraw =>
      simp only [Except.ok.injEq, Prod.mk.injEq] at h
      obtain ⟨rfl, rfl⟩ := h
      exact ⟨tagText inner, hc, rfl, .openTag htag hvoid (by simpa using hraw)⟩

/-- A tag with a name in front, whose attributes can be read, is an opening tag. -/
theorem isOpeningTag_of_readTag {c after : Cursor} {ch : Char} {tail inner : List Char}
    {properties : List Property} {closesItself : Bool} (hc : c.rest = '<' :: ch :: tail)
    (hch : ch.isAlpha = true) (hr : readTag c (ch :: tail) = .ok (inner, after))
    (hattributes : readAttributes (c.advance ('<' :: tagName inner)
      (inner.dropWhile isTagNameChar)) = .ok (properties, closesItself)) :
    c.rest = tagText inner ++ after.rest ∧ after = c.advance (tagText inner) after.rest ∧
      IsOpeningTag c.offset inner ⟨tagName inner,
        attributeObject (c.offset + byteSize ('<' :: tagName inner)) properties,
        ⟨c.offset, c.offset + byteSize (tagText inner)⟩⟩ closesItself := by
  obtain ⟨ht, hfills, hafter⟩ := fills_of_readTag hr
  cases inner with
  | nil =>
    obtain ⟨rfl, -⟩ := List.cons.inj ht
    cases hch
  | cons _ inner =>
    obtain ⟨rfl, rfl⟩ := List.cons.inj ht
    refine ⟨?_, hafter, hfills, ⟨ch, inner, rfl, hch⟩, rfl, ⟨properties, hattributes, rfl⟩, rfl⟩
    rw [hc, tagText_append]
    rfl

private theorem element_of_readElement {c d : Cursor} {ch : Char} {tail : List Char} {p : Piece}
    (hc : c.rest = '<' :: ch :: tail) (hch : ch.isAlpha = true)
    (h : readElement c (ch :: tail) = .ok (p, d)) :
    ∃ x, c.rest = x ++ d.rest ∧ d.offset = c.offset + byteSize x ∧ Construct c.offset x p := by
  simp only [readElement, bind, Except.bind] at h
  split at h
  · cases h
  · next r hr =>
    obtain ⟨inner, after⟩ := r
    split at h
    · cases h
    · next r hattributes =>
      obtain ⟨properties, closesItself⟩ := r
      obtain ⟨hrest, hafter, htag⟩ := isOpeningTag_of_readTag hc hch hr hattributes
      rw [hafter] at h
      exact element_of_finishTag htag hrest h

/-- What is read at an opening is a construct. -/
theorem construct_of_readPiece {c d : Cursor} {p : Piece} (ho : (opening? c.rest).isSome)
    (h : readPiece c = .ok (p, d)) :
    ∃ x, c.rest = x ++ d.rest ∧ d.offset = c.offset + byteSize x ∧ Construct c.offset x p := by
  obtain ⟨o, ho⟩ := Option.isSome_iff_exists.mp ho
  rw [opening?_eq_some_iff] at ho
  rw [readPiece_of_begins ho] at h
  cases o with
  | comment =>
    obtain ⟨tail, ht⟩ := ho
    rw [ht] at h
    exact comment_of_readComment ht h
  | declaration =>
    obtain ⟨tail, ht, hd⟩ := ho
    rw [ht] at h
    exact declaration_of_readDeclaration ht hd h
  | closeTag =>
    obtain ⟨ch, tail, ht, hch⟩ := ho
    rw [ht] at h
    exact closeTag_of_readCloseTag ht hch h
  | element =>
    obtain ⟨ch, tail, ht, hch⟩ := ho
    rw [ht] at h
    exact element_of_readElement ht hch h
  | program =>
    obtain ⟨tail, ht⟩ := ho
    rw [ht] at h
    exact program_of_readProgram ht h

end TemplateReader
