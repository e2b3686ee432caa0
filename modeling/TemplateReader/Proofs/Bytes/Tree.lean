import TemplateReader.Bytes.Tree
import TemplateReader.Proofs.Bytes.Attribute
import TemplateReader.Proofs.Template.Nesting

/-!
# Trees by bytes and by characters

By bytes, the children of an element are read by a recursion that ends at its
close tag; by characters, the text is cut into pieces and a stack of open
elements grows the tree. Piece by piece both take the same step, so that a run
over bytes ends where the tree of the pieces closes an element, with the same
nodes, or with the same error. It never faults.
-/

namespace TemplateReader.Bytes

section

variable {s text rest : List Char} {c d : Cursor} {limit depth textStart i : Nat}
  {parent : Option Parent} {before : List Token}

private theorem opening?_eq_none {ch : Char} (hlt : ch ≠ '<') (hbrace : ch ≠ '{') :
    opening? (ch :: rest) = none := by
  rw [opening?.eq_def]
  split <;> simp_all

private theorem openingAt_of_ne {b : Char} (hb : byteAt s i = .ok b) (hlt : b ≠ '<')
    (hbrace : b ≠ '{') : openingAt s i = .ok none := by
  rw [openingAt, hb, ok_bind, if_neg hlt, if_neg hbrace]
  rfl

private theorem isPrefixOf_eq_false {a b : Char} {word : List Char} (hne : b ≠ a) :
    ('<' :: a :: word).isPrefixOf ('<' :: b :: rest) = false := by
  rw [← Bool.not_eq_true, List.isPrefixOf_iff_prefix, List.cons_prefix_cons,
    List.cons_prefix_cons]
  rintro ⟨-, heq, -⟩
  exact hne heq.symm

private theorem openingAt_lt (h : '<' :: rest <:+ s) :
    openingAt s (place s ('<' :: rest)) = .ok (opening? ('<' :: rest)) := by
  have hrest := suffix_of_cons h
  have hnext := place_cons_of_not_isWide h (by decide)
  rw [openingAt, byteAt_place h (by decide), ok_bind, if_pos rfl, sliceAt_place_end h, ok_bind,
    hnext, byte?_any_place isNarrow_isAlpha hrest]
  cases rest with
  | nil => rfl
  | cons ch more =>
    by_cases hbang : ch = '!'
    · subst hbang
      by_cases hdashes : ['-', '-'] <+: more
      · obtain ⟨inside, rfl⟩ := hdashes
        rfl
      · have hdeclaration : opening? ('<' :: '!' :: more) = some .declaration :=
          opening?_eq_some_iff.mpr ⟨more, rfl, hdashes⟩
        have hcomment : commentOpening.isPrefixOf ('<' :: '!' :: more) = false := by
          rw [← Bool.not_eq_true, List.isPrefixOf_iff_prefix]
          intro hopening
          exact hdashes (by simpa [commentOpening] using hopening)
        rw [hcomment, hdeclaration]
        rfl
    by_cases hslash : ch = '/'
    · subst hslash
      have hmore := place_cons_of_not_isWide hrest (by decide)
      have hname : place s ('<' :: '/' :: more) + 2 = place s more := by omega
      rw [hname, byte?_any_place isNarrow_isAlpha (suffix_of_cons hrest)]
      cases more with
      | nil => rfl
      | cons first more =>
        rw [opening?, List.head?_cons, Option.any_some]
        cases first.isAlpha <;> rfl
    · have hcomment : commentOpening.isPrefixOf ('<' :: ch :: more) = false :=
        isPrefixOf_eq_false hbang
      have hopening : opening? ('<' :: ch :: more) =
          if ch.isAlpha then some .element else none := by
        rw [opening?.eq_def]
        split <;> simp_all
      rw [hcomment, isPrefixOf_eq_false hslash, isPrefixOf_eq_false hbang, hopening,
        List.head?_cons, Option.any_some]
      cases ch.isAlpha <;> rfl

/-- At the place of a final part, the node that begins there is recognised by bytes as by
characters. -/
theorem openingAt_place {ch : Char} (h : ch :: rest <:+ s) :
    openingAt s (place s (ch :: rest)) = .ok (opening? (ch :: rest)) := by
  by_cases hlt : ch = '<'
  · subst hlt
    exact openingAt_lt h
  by_cases hbrace : ch = '{'
  · subst hbrace
    rw [openingAt, byteAt_place h (by decide), ok_bind, if_neg (by decide), if_pos rfl]
    rfl
  · obtain ⟨b, hb, hlike⟩ := exists_byteAt_place h
    have hlt' := mt (hlike.eq_iff (by decide)).mp hlt
    have hbrace' := mt (hlike.eq_iff (by decide)).mp hbrace
    rw [openingAt_of_ne hb hlt' hbrace', opening?_eq_none hlt hbrace]

private theorem nodes_next (hi : i < byteSize s) (ho : openingAt s i = .ok none) :
    nodes s limit parent depth before textStart i =
      nodes s limit parent depth before textStart (i + 1) := by
  rw [nodes, if_pos hi, ho]
  rfl

private theorem nodes_pass {ch : Char} (h : ch :: rest <:+ s) (hch : IsWide ch)
    (hlo : place s (ch :: rest) ≤ i) (hhi : i ≤ place s rest) :
    nodes s limit parent depth before textStart i =
      nodes s limit parent depth before textStart (place s rest) := by
  induction hn : place s rest - i generalizing i with
  | zero =>
    have hi : i = place s rest := by omega
    rw [hi]
  | succ n ih =>
    have hlt : i < place s rest := by omega
    obtain ⟨b, hb, hwide⟩ := exists_byteAt_of_isWide h hch hlo hlt
    have hnone := openingAt_of_ne hb (hwide.ne (by decide)) (hwide.ne (by decide))
    rw [nodes_next (lt_of_byteAt hb) hnone]
    exact ih (Nat.le_succ_of_le hlo) hlt (by omega)

private theorem nodes_splitPlain (limit depth textStart : Nat) (parent : Option Parent)
    (before : List Token) (h : text <:+ s) :
    nodes s limit parent depth before textStart (place s text) =
      nodes s limit parent depth before textStart (place s (splitPlain text).2) := by
  induction text with
  | nil => rfl
  | cons ch text ih =>
    rw [splitPlain]
    by_cases ho : (opening? (ch :: text)).isSome
    · rw [if_pos ho]
    · rw [if_neg ho]
      refine Eq.trans ?_ (ih (suffix_of_cons h))
      by_cases hch : IsWide ch
      · apply nodes_pass h hch (Nat.le_refl _)
        rw [place_cons h]
        exact Nat.le_add_right _ _
      · have hnone := openingAt_place h
        rw [Option.not_isSome_iff_eq_none.mp ho] at hnone
        rw [nodes_next (place_lt_of_cons h) hnone, place_cons_of_not_isWide h hch]

private theorem flush_self (i : Nat) : flush s before i i = .ok before := by
  rw [flush, if_neg (Nat.lt_irrefl i)]
  rfl

private theorem flush_place (h : text ++ rest <:+ s) (hne : text ≠ []) :
    flush s before (place s (text ++ rest)) (place s rest) =
      .ok (before ++ [.literal (.ofText (place s (text ++ rest)) text)]) := by
  rw [flush, if_pos (place_lt_of_append h hne), sliceAt_place h]
  rfl

private theorem nodes_flush (hstops : openingAt s i = .ok none → ¬i < byteSize s)
    {flushed : List Token} (hf : flush s before textStart i = .ok flushed) :
    nodes s limit parent depth before textStart i = nodes s limit parent depth flushed i i := by
  rw [nodes, nodes.eq_def s limit parent depth flushed i i]
  by_cases hi : i < byteSize s
  · rw [if_pos hi, if_pos hi]
    cases ho : openingAt s i with
    | error halt => rfl
    | ok o =>
      cases o with
      | none => exact absurd hi (hstops ho)
      | some o => cases o <;> simp only [ok_bind, hf, flush_self]
  · rw [if_neg hi, if_neg hi, hf, flush_self]

/-- Goes on behind a node, which has to end further on than it begins. -/
def behindNode (s : List Char) (limit : Nat) (parent : Option Parent) (depth : Nat)
    (before : List Token) (start : Nat) (t : Token) (stop : Nat) : Run (List Token × Nat) :=
  if start < stop then nodes s limit parent depth (before ++ [t]) stop stop else .fail .stuck

/-- Goes on behind a piece: behind a node, behind the element that an opening tag begins, or behind
the parent that a close tag closes. -/
def behindPiece (s : List Char) (limit : Nat) (parent : Option Parent) (depth : Nat)
    (before : List Token) (start : Nat) : Piece × Cursor → Run (List Token × Nat)
  | (.node t, d) => behindNode s limit parent depth before start t d.offset
  | (.openTag tag, d) =>
    if limit ≤ depth then .refuse ⟨.nestingTooDeep limit, tag.span⟩
    else do
      let (children, stop) ←
        nodes s limit (some ⟨tag.name, tag.span.start⟩) (depth + 1) [] d.offset d.offset
      let (t, stop) := completed tag children stop
      behindNode s limit parent depth before start t stop
  | (.closeTag name span, _) =>
    match parent with
    | some p =>
      if eqIgnoreCase p.name name then .ok (dropLayout before, span.stop)
      else
        .refuse ⟨.mismatchedCloseTag (String.ofList p.name) (String.ofList name) p.start, span⟩
    | none => .refuse ⟨.unexpectedCloseTag (String.ofList name), span⟩

/-- Behind a piece, the cursor stands further on. -/
theorem Stands.of_readPiece {p : Piece} (h : Stands s [] c) (hc : c.rest ≠ [])
    (hr : readPiece c = .ok (p, d)) : Stands s [] d ∧ c.offset < d.offset := by
  obtain ⟨x, hx⟩ := exists_passes_of_readPiece hc hr
  have hstands := h.passes hx
  exact ⟨hstands, h.offset_lt_of_length hstands (length_lt_of_readPiece hc hr)⟩

private theorem Stands.openingAt_eq {o : Opening} (h : Stands s [] c)
    (ho : opening? c.rest = some o) :
    c.offset < byteSize s ∧ openingAt s c.offset = .ok (some o) := by
  obtain ⟨hsuffix, hoffset⟩ := h.whole
  cases hc : c.rest with
  | nil =>
    rw [hc] at ho
    cases ho
  | cons ch text =>
    rw [hc] at hsuffix hoffset ho
    rw [hoffset, ← ho]
    exact ⟨place_lt_of_cons hsuffix, openingAt_place hsuffix⟩

private theorem Stands.nodes_text (h : Stands s [] c) (hc : c.rest ≠ [])
    (ho : opening? c.rest = none) :
    nodes s limit parent depth before c.offset c.offset =
      Run.ofReading (readPiece c) >>= behindPiece s limit parent depth before c.offset := by
  cases hr : readPiece c with
  | error e =>
    rw [readPiece, ho] at hr
    cases hr
  | ok r =>
    obtain ⟨p, d⟩ := r
    obtain ⟨hd, hlt⟩ := h.of_readPiece hc hr
    obtain ⟨x, hx, -, hplain, hstops, rfl⟩ := isPlain_of_readPiece hc ho hr
    have hsplit : (splitPlain c.rest).2 = d.rest := by
      rw [readPiece, ho] at hr
      exact congrArg (fun r => r.2.rest) (Except.ok.inj hr)
    have hplace : place s (splitPlain c.rest).2 = d.offset := by
      rw [hsplit, hd.whole.2]
    have hflush : flush s before c.offset d.offset =
        .ok (before ++ [.literal (.ofText c.offset x)]) := by
      have hsuffix := h.whole.1
      rw [h.whole.2, hd.whole.2, hx]
      rw [hx] at hsuffix
      exact flush_place hsuffix hplain.ne_nil
    have hend : openingAt s d.offset = .ok none → ¬d.offset < byteSize s := by
      rcases hstops with hnil | hsome
      · rw [hd.offset_eq hnil]
        exact fun _ => Nat.lt_irrefl _
      · obtain ⟨o, ho⟩ := Option.isSome_iff_exists.mp hsome
        rw [(hd.openingAt_eq ho).2]
        intro hnone
        cases hnone
    have hscan := nodes_splitPlain limit depth c.offset parent before h.whole.1
    rw [← h.whole.2, hplace] at hscan
    rw [hscan, nodes_flush hend hflush, ofReading_ok, ok_bind, behindPiece, behindNode, if_pos hlt]

private theorem Stands.nodes_construct {o : Opening} (h : Stands s [] c)
    (ho : opening? c.rest = some o) (hne : o ≠ .closeTag) :
    nodes s limit parent depth before c.offset c.offset =
      (match o with
        | .comment => comment s c.offset
        | .declaration => declaration s c.offset
        | .program => program s c.offset
        | _ => element s limit depth c.offset) >>= fun r =>
      behindNode s limit parent depth before c.offset r.1 r.2 := by
  obtain ⟨hsize, hopening⟩ := h.openingAt_eq ho
  rw [nodes, if_pos hsize, hopening]
  cases o with
  | closeTag => exact absurd rfl hne
  | comment | declaration | element | program =>
    rw [ok_bind, flush_self]
    rfl

private theorem Stands.nodes_closeTag (h : Stands s [] c) (ho : opening? c.rest = some .closeTag) :
    nodes s limit parent depth before c.offset c.offset =
      closeTag s parent c.offset >>= fun stop => .ok (dropLayout before, stop) := by
  obtain ⟨hsize, hopening⟩ := h.openingAt_eq ho
  rw [nodes, if_pos hsize, hopening, ok_bind, flush_self]
  rfl

/-- What a run reads at an offset is what is read there as a piece, in whatever it stands. -/
def ReadsNode (s : List Char) (limit depth start : Nat) (run : Run (Token × Nat))
    (reading : Except TemplateError (Piece × Cursor)) : Prop :=
  ∀ parent before, (run >>= fun r => behindNode s limit parent depth before start r.1 r.2) =
    Run.ofReading reading >>= behindPiece s limit parent depth before start

section

variable {start : Nat}

/-- A node with the offset behind it is the node that is read, with the cursor behind it. -/
theorem ReadsNode.node (t : Token) (d : Cursor) :
    ReadsNode s limit depth start (.ok (t, d.offset)) (.ok (.node t, d)) := fun _ _ => rfl

/-- A refusal by bytes is the error that is read. -/
theorem ReadsNode.error (e : TemplateError) :
    ReadsNode s limit depth start (.error (.refused e)) (.error e) := fun _ _ => rfl

/-- An opening tag is read as its element, with what the recursion finds as its children. -/
theorem ReadsNode.openTag (tag : OpenTag) (d : Cursor) :
    ReadsNode s limit depth start
      (if limit ≤ depth then .refuse ⟨.nestingTooDeep limit, tag.span⟩
        else do
          let (children, stop) ←
            nodes s limit (some ⟨tag.name, tag.span.start⟩) (depth + 1) [] d.offset d.offset
          return completed tag children stop)
      (.ok (.openTag tag, d)) := by
  intro parent before
  rw [ofReading_ok, ok_bind, behindPiece]
  by_cases hlimit : limit ≤ depth
  · rw [if_pos hlimit, if_pos hlimit]
    rfl
  · rw [if_neg hlimit, if_neg hlimit, bind_assoc]
    rfl

end

private theorem Stands.comment_reads (h : Stands s [] c) (hc : c.rest = commentOpening ++ text) :
    ReadsNode s limit depth c.offset (comment s c.offset) (readComment c text) := by
  have hsuffix := h.whole.1
  rw [hc] at hsuffix
  rw [comment, readComment, h.whole.2, hc, findComment_place hsuffix, ok_bind, ← hc, ← h.whole.2]
  cases hs : splitPattern commentClosing text with
  | none => exact .error _
  | some p =>
    obtain ⟨inner, rest⟩ := p
    have htext : c.rest = (commentOpening ++ inner ++ commentClosing) ++ rest := by
      rw [hc, eq_append_of_splitPattern hs]
      simp only [List.append_assoc]
    have hstop : _ = place s rest := (h.advance htext).whole.2
    have hslice := h.sliceAt_append htext
    rw [List.append_nil] at hslice
    simp only [Option.map_some, hslice, ok_bind]
    rw [← hstop]
    exact .node _ _

private theorem Stands.declaration_reads (h : Stands s [] c) (hc : c.rest = '<' :: text) :
    ReadsNode s limit depth c.offset (declaration s c.offset) (readDeclaration c text) := by
  rw [declaration, readDeclaration, h.tagEnd_eq hc]
  cases hr : readTag c text with
  | error e => exact .error e
  | ok r =>
    obtain ⟨inner, d⟩ := r
    obtain ⟨hd, htext⟩ := h.of_readTag hc hr
    have hslice := h.sliceAt_append htext
    rw [← hd.offset] at hslice
    simp only [Except.map, ofReading_ok, ok_bind, hslice]
    exact .node _ d

private theorem Stands.program_reads (h : Stands s [] c) (hc : c.rest = '{' :: text) :
    ReadsNode s limit depth c.offset (program s c.offset) (readProgram c text) := by
  have hsuffix := h.whole.1
  rw [hc] at hsuffix
  rw [program, readProgram, h.whole.2, hc, findProgram_place hsuffix, ok_bind, ← hc, ← h.whole.2]
  cases hs : splitBraces 0 text with
  | none => exact .error _
  | some p =>
    obtain ⟨inner, rest⟩ := p
    have htext : c.rest = '{' :: (inner ++ '}' :: rest) := by
      rw [hc, eq_append_of_splitBraces hs]
    have hinner := h.sliceAt_inner htext (by decide) (by decide)
    have hstop : _ = place s rest := (h.advance (hc.trans (braced_append hs))).whole.2
    rw [List.append_nil] at hinner
    simp only [Option.map_some]
    rw [← bind_assoc, hinner, ← hstop]
    exact .node _ _

private theorem tagName_append (inner : List Char) :
    tagName (inner ++ '>' :: rest) = tagName inner := by
  induction inner with
  | nil => rfl
  | cons ch inner ih =>
    rw [tagName, tagName, List.cons_append, List.takeWhile_cons, List.takeWhile_cons]
    split
    · exact congrArg (ch :: ·) ih
    · rfl

private theorem Stands.closeTag_reads (h : Stands s [] c) (hc : c.rest = '<' :: '/' :: text) :
    (closeTag s parent c.offset >>= fun stop => .ok (dropLayout before, stop)) =
      Run.ofReading (readCloseTag c ('/' :: text)) >>=
        behindPiece s limit parent depth before c.offset := by
  have hsuffix := h.whole.1
  rw [hc] at hsuffix
  have hslash := suffix_of_cons hsuffix
  have hname : tagNameAt s (c.offset + 2) = .ok (tagName text) := by
    have hfirst := place_cons_of_not_isWide hsuffix (by decide)
    have hsecond := place_cons_of_not_isWide hslash (by decide)
    have hplace : c.offset + 2 = place s text := by
      rw [h.whole.2, hc]
      omega
    rw [hplace, tagNameAt_place (suffix_of_cons hslash)]
  rw [closeTag, readCloseTag, h.tagEnd_eq hc, hname]
  cases hr : readTag c ('/' :: text) with
  | error e => rfl
  | ok r =>
    obtain ⟨inner, d⟩ := r
    obtain ⟨htext, -, -⟩ := fills_of_readTag hr
    cases inner with
    | nil => exact absurd (List.cons.inj htext).1 (by decide)
    | cons _ inner =>
      rw [List.cons_append, List.cons.injEq] at htext
      obtain ⟨rfl, rfl⟩ := htext
      rw [tagName_append]
      cases parent with
      | none => rfl
      | some p =>
        change _ = if eqIgnoreCase p.name (tagName inner) = true then _ else _
        simp only [Except.map, ofReading_ok, ok_bind]
        cases eqIgnoreCase p.name (tagName inner) <;> rfl

private theorem Stands.rawContent_eq {tag : OpenTag} (h : Stands s [] c)
    (hc : tag.span.stop = c.offset) (hname : '<' ∉ tag.name) :
    rawContent s tag =
      match splitRawText tag.name c.rest with
      | none => .error (.refused ⟨.unterminatedRawText (String.ofList tag.name), tag.span⟩)
      | some (content, rest) =>
        .ok (if content.isEmpty then [] else [.literal (.ofText c.offset content)],
          (c.seek rest).offset) := by
  obtain ⟨hsuffix, hoffset⟩ := h.whole
  rw [rawContent, hc, hoffset, findCloseTag_place hsuffix, ok_bind, ← hoffset]
  cases hs : splitRawText tag.name c.rest with
  | none => rfl
  | some p =>
    obtain ⟨content, rest⟩ := p
    obtain ⟨close, hrest, -, -⟩ := (splitRawText_eq_some_iff hname).mp hs
    have hstop : (c.seek rest).offset = place s rest :=
      (h.seek ⟨content ++ close, by rw [hrest, List.append_assoc]⟩).whole.2
    rw [Option.map_some, ← hstop]
    cases content with
    | nil =>
      have hempty : ¬c.offset < c.offset + byteSize [] := Nat.lt_irrefl _
      simp only [hempty, if_false]
      rfl
    | cons ch content =>
      have hlt : c.offset < c.offset + byteSize (ch :: content) :=
        Nat.lt_add_of_pos_right (byteSize_pos (List.cons_ne_nil ch content))
      have hplace : c.offset + byteSize (ch :: content) = place s (close ++ rest) :=
        (h.advance hrest).whole.2
      have hslice := h.sliceAt_append hrest
      rw [List.append_nil, ← hplace] at hslice
      simp only [hlt, if_true, hslice, ok_bind]
      rfl

private theorem Stands.finishElement_reads {name : List Char} {attributes : Object}
    {closesItself : Bool} (h : Stands s [] d) (hlt : c.offset < d.offset) (hname : '<' ∉ name) :
    ReadsNode s limit depth c.offset
      (finishElement s limit depth ⟨name, attributes, c.spanTo d⟩ closesItself)
      (finishTag c d name attributes closesItself) := by
  rw [finishElement, finishTag]
  dsimp only
  by_cases hvoid : (closesItself || isVoidElement name) = true
  · rw [if_pos hvoid, if_pos hvoid]
    exact .node _ d
  rw [if_neg hvoid, if_neg hvoid]
  by_cases hraw : isRawTextElement name = true
  · rw [if_pos hraw, if_pos hraw, h.rawContent_eq rfl hname]
    cases splitRawText name d.rest with
    | none => exact .error _
    | some p => exact .node _ (d.seek p.2)
  · have hinside : (c.spanTo d).start < (c.spanTo d).stop ∧ (c.spanTo d).stop ≤ byteSize s :=
      ⟨hlt, h.offset_le⟩
    rw [if_neg hraw, if_neg hraw, if_pos hinside]
    exact .openTag ⟨name, attributes, c.spanTo d⟩ d

/-- The attributes of a tag are read from the end of its name to its `>`. -/
theorem Stands.attributes_of_readTag {inner : List Char} (h : Stands s [] c)
    (hc : c.rest = '<' :: text) (hr : readTag c text = .ok (inner, d)) :
    (minus d.offset 1 >>= fun stop => attributes s (c.offset + 1 + byteSize (tagName inner)) stop) =
      .ofReading ((readAttributes (c.advance ('<' :: tagName inner)
        (inner.dropWhile isTagNameChar))).map fun r =>
          (attributeObject (c.advance ('<' :: tagName inner)
            (inner.dropWhile isTagNameChar)).offset r.1, r.2)) := by
  obtain ⟨rfl, -, -⟩ := fills_of_readTag hr
  obtain ⟨hd, -⟩ := h.of_readTag hc hr
  have hsuffix := h.whole.1
  rw [hc] at hsuffix
  have hlast := place_cons_of_not_isWide (suffix_of_append (suffix_of_cons hsuffix)) (by decide)
  have hinner : Stands s ('>' :: d.rest) ⟨c.offset, '<' :: inner⟩ :=
    h.cut (by rw [hc, List.append_nil, List.cons_append])
  have hnameEnd : Stands s ('>' :: d.rest)
      (c.advance ('<' :: tagName inner) (inner.dropWhile isTagNameChar)) :=
    hinner.advance (congrArg ('<' :: ·) List.takeWhile_append_dropWhile.symm)
  have hoffset : (c.advance ('<' :: tagName inner) (inner.dropWhile isTagNameChar)).offset =
      c.offset + 1 + byteSize (tagName inner) := (Nat.add_assoc _ _ _).symm
  rw [hd.whole.2, ← hlast, minus_eq (Nat.le_add_left _ _), Nat.add_sub_cancel, ok_bind, ← hoffset]
  exact hnameEnd.attributes_eq

private theorem readElement_of_readTag {inner : List Char} (hr : readTag c text = .ok (inner, d)) :
    readElement c text =
      readAttributes (c.advance ('<' :: tagName inner) (inner.dropWhile isTagNameChar)) >>= fun r =>
        finishTag c d (tagName inner) (attributeObject (c.advance ('<' :: tagName inner)
          (inner.dropWhile isTagNameChar)).offset r.1) r.2 := by
  rw [readElement, hr]
  rfl

private theorem Stands.element_reads (h : Stands s [] c) (hc : c.rest = '<' :: text) :
    ReadsNode s limit depth c.offset (element s limit depth c.offset) (readElement c text) := by
  have hsuffix := h.whole.1
  rw [hc] at hsuffix
  rw [element, h.tagEnd_eq hc]
  cases hr : readTag c text with
  | error e =>
    rw [readElement, hr]
    exact .error e
  | ok r =>
    obtain ⟨inner, d⟩ := r
    obtain ⟨htext, -, -⟩ := fills_of_readTag hr
    obtain ⟨hd, hrest⟩ := h.of_readTag hc hr
    have hname : tagNameAt s (c.offset + 1) = .ok (tagName inner) := by
      rw [h.whole.2, hc, place_cons_of_not_isWide hsuffix (by decide),
        tagNameAt_place (suffix_of_cons hsuffix), htext, tagName_append]
    have hlt : c.offset < d.offset :=
      h.offset_lt_of_length hd (hc ▸ Nat.lt_succ_of_lt (length_lt_of_readTag hr))
    have hattributes := h.attributes_of_readTag hc hr
    simp only [Except.map, ofReading_ok, ok_bind, hname]
    rw [← bind_assoc, hattributes, readElement_of_readTag hr]
    cases readAttributes (c.advance ('<' :: tagName inner) (inner.dropWhile isTagNameChar)) with
    | error e => exact .error e
    | ok r => exact hd.finishElement_reads hlt (lt_notMem_tagName inner)

/-- At every cursor, the run over bytes does what the next piece of the text says. -/
theorem Stands.nodes_eq (h : Stands s [] c) (hc : c.rest ≠ []) :
    nodes s limit parent depth before c.offset c.offset =
      Run.ofReading (readPiece c) >>= behindPiece s limit parent depth before c.offset := by
  cases ho : opening? c.rest with
  | none => exact h.nodes_text hc ho
  | some o =>
    have hbegins := opening?_eq_some_iff.mp ho
    cases o with
    | closeTag =>
      obtain ⟨ch, tail, ht, -⟩ := hbegins
      rw [h.nodes_closeTag ho, h.closeTag_reads ht, readPiece, ho, ht]
      rfl
    | comment =>
      obtain ⟨tail, ht⟩ := hbegins
      rw [h.nodes_construct ho (by decide), readPiece, ho, ht]
      exact h.comment_reads ht parent before
    | declaration =>
      obtain ⟨tail, ht, -⟩ := hbegins
      rw [h.nodes_construct ho (by decide), readPiece, ho, ht]
      exact h.declaration_reads ht parent before
    | element =>
      obtain ⟨ch, tail, ht, -⟩ := hbegins
      rw [h.nodes_construct ho (by decide), readPiece, ho, ht]
      exact h.element_reads ht parent before
    | program =>
      obtain ⟨tail, ht⟩ := hbegins
      rw [h.nodes_construct ho (by decide), readPiece, ho, ht]
      exact h.program_reads ht parent before

/-- The innermost of the open elements, as the recursion knows it. -/
def innermost (stack : List OpenElement) : Option Parent :=
  stack.head?.map fun o => ⟨o.tag.name, o.tag.span.start⟩

/-- How a run over the nodes inside the innermost open element ends, by what the reading of the
pieces comes to: with its error, with its nodes, or behind the close tag of that element, where the
reading goes on with the element as a node. It does not end with a fault. -/
def EndsAs (s : List Char) (limit : Nat) (stack : List OpenElement) (before : List Token)
    (c : Cursor) : Run (List Token × Nat) → Prop
  | .error (.fault _) => False
  | .error (.refused e) => readOn limit stack before c = .error e
  | .ok (found, stop) =>
    match stack with
    | [] => readOn limit [] before c = .ok found
    | o :: stack => ∃ d, Stands s [] d ∧ d.offset = stop ∧ d.rest.length < c.rest.length ∧
      readOn limit (o :: stack) before c =
        readOn limit stack ((completed o.tag found stop).1 :: o.before) d

/-- A run that goes on further ahead ends as one that sets out there. -/
theorem EndsAs.of_readOn {stack : List OpenElement} {before' : List Token}
    {run : Run (List Token × Nat)} (h : EndsAs s limit stack before' d run)
    (hread : readOn limit stack before c = readOn limit stack before' d)
    (hlength : d.rest.length < c.rest.length) : EndsAs s limit stack before c run := by
  match run, stack, h with
  | .error (.refused e), _, h => exact hread.trans h
  | .ok (found, stop), [], h => exact hread.trans h
  | .ok (found, stop), o :: stack, ⟨d', hd', hstop, hshorter, h⟩ =>
    exact ⟨d', hd', hstop, Nat.lt_trans hshorter hlength, hread.trans h⟩

private theorem Stands.endsAs_end (h : Stands s [] c) (hc : c.rest = [])
    (stack : List OpenElement) (before : List Token) :
    EndsAs s limit stack before c
      (nodes s limit (innermost stack) depth before.reverse c.offset c.offset) := by
  have hend : ¬c.offset < byteSize s := by
    rw [h.offset_eq hc]
    exact Nat.lt_irrefl _
  rw [nodes, if_neg hend, flush_self, ok_bind]
  cases stack with
  | nil =>
    change readOn limit [] before c = _
    rw [readOn, piecesFrom_eq, if_pos hc]
    rfl
  | cons o stack =>
    change readOn limit (o :: stack) before c = _
    rw [readOn, piecesFrom_eq, if_pos hc]
    rfl

private theorem stop_of_readPiece {name : List Char} {span : Span} (hc : c.rest ≠ [])
    (hr : readPiece c = .ok (.closeTag name span, d)) : span.stop = d.offset := by
  cases ho : opening? c.rest with
  | none =>
    obtain ⟨_, -, -, -, -, hp⟩ := isPlain_of_readPiece hc ho hr
    cases hp
  | some o =>
    obtain ⟨x, -, hoffset, hconstruct⟩ := construct_of_readPiece (by rw [ho]; rfl) hr
    cases hconstruct
    exact hoffset.symm

private theorem Stands.endsAs_closeTag {name : List Char} {span : Span} (hd : Stands s [] d)
    (hc : c.rest ≠ []) (hr : readPiece c = .ok (.closeTag name span, d))
    (stack : List OpenElement) (before : List Token) :
    EndsAs s limit stack before c
      (behindPiece s limit (innermost stack) depth before.reverse c.offset
        (.closeTag name span, d)) := by
  have hlength := length_lt_of_readPiece hc hr
  cases stack with
  | nil => exact readOn_piece hc hr limit [] before
  | cons o stack =>
    have hread := readOn_piece hc hr limit (o :: stack) before
    rw [growTree] at hread
    change EndsAs s limit (o :: stack) before c
      (if eqIgnoreCase o.tag.name name then .ok (dropLayout before.reverse, span.stop) else _)
    by_cases hname : eqIgnoreCase o.tag.name name = true
    · rw [if_pos hname] at hread ⊢
      exact ⟨d, hd, (stop_of_readPiece hc hr).symm, hlength, hread⟩
    · rw [if_neg hname] at hread ⊢
      exact hread

/-- The run over the nodes inside the innermost open element ends as the reading of the pieces
says. The induction is on the text that remains: the recursion over the children of an element and
the loop behind the element both set out further ahead. -/
theorem Stands.endsAs_nodes (h : Stands s [] c) (limit : Nat) (stack : List OpenElement)
    (before : List Token) :
    EndsAs s limit stack before c
      (nodes s limit (innermost stack) stack.length before.reverse c.offset c.offset) := by
  induction hn : c.rest.length using Nat.strongRecOn generalizing c stack before with
  | ind n ih =>
    by_cases hc : c.rest = []
    · exact h.endsAs_end hc stack before
    rw [h.nodes_eq hc]
    cases hr : readPiece c with
    | error e =>
      change readOn limit stack before c = .error e
      rw [readOn, piecesFrom_eq, if_neg hc, hr]
      cases stack <;> rfl
    | ok r =>
      obtain ⟨p, d⟩ := r
      obtain ⟨hd, hlt⟩ := h.of_readPiece hc hr
      have hlength := length_lt_of_readPiece hc hr
      rw [ofReading_ok, ok_bind]
      cases p with
      | node t =>
        rw [behindPiece, behindNode, if_pos hlt, ← List.reverse_cons]
        exact (ih _ (hn ▸ hlength) hd stack (t :: before) rfl).of_readOn
          (readOn_piece hc hr limit stack before) hlength
      | closeTag name span => exact hd.endsAs_closeTag hc hr stack before
      | openTag tag =>
        have hread := readOn_piece hc hr limit stack before
        rw [growTree] at hread
        rw [behindPiece]
        by_cases hlimit : limit ≤ stack.length
        · rw [if_pos hlimit] at hread ⊢
          exact hread
        rw [if_neg hlimit] at hread ⊢
        have hinside : EndsAs s limit (⟨tag, before⟩ :: stack) [] d
            (nodes s limit (some ⟨tag.name, tag.span.start⟩) (stack.length + 1) [] d.offset
              d.offset) := ih _ (hn ▸ hlength) hd (⟨tag, before⟩ :: stack) [] rfl
        cases hrun : nodes s limit (some ⟨tag.name, tag.span.start⟩) (stack.length + 1) [] d.offset
            d.offset with
        | error halt =>
          rw [hrun] at hinside
          cases halt with
          | fault f => exact hinside
          | refused e => exact hread.trans hinside
        | ok r =>
          obtain ⟨children, stop⟩ := r
          rw [hrun] at hinside
          obtain ⟨d', hd', rfl, hshorter, hbehind⟩ := hinside
          have hlength' := Nat.lt_trans hshorter hlength
          have hlt' := Nat.lt_trans hlt (hd.offset_lt_of_length hd' hshorter)
          rw [ok_bind]
          change EndsAs s limit stack before c (behindNode s limit (innermost stack) stack.length
            before.reverse c.offset (completed tag children d'.offset).1 d'.offset)
          rw [behindNode, if_pos hlt', ← List.reverse_cons]
          exact (ih _ (hn ▸ hlength') hd' stack _ rfl).of_readOn (hread.trans hbehind) hlength'

end

end TemplateReader.Bytes
