import TemplateReader.Proofs.Template.Stretch

/-!
# Histories of a reading

A template is read piece by piece. `LeavesOpen limit source tags c` says that
the pieces of a source up to a cursor leave elements open, whose opening tags
are `tags`; `FailsAt limit tags c e` says why no further piece can follow. A
template is refused exactly when such a history comes to such a place, so an
error is known from the pieces before it and the one piece it is about.
-/

namespace TemplateReader

/-- The pieces of a source up to a cursor leave elements open, their opening tags innermost
first. -/
inductive LeavesOpen (limit : Nat) (source : List Char) : List OpenTag → Cursor → Prop
  | start : LeavesOpen limit source [] ⟨0, source⟩
  | node {tags : List OpenTag} {c d : Cursor} {t : Token} (h : LeavesOpen limit source tags c)
    (hc : c.rest ≠ []) (hread : readPiece c = .ok (.node t, d)) : LeavesOpen limit source tags d
  | openTag {tags : List OpenTag} {tag : OpenTag} {c d : Cursor}
    (h : LeavesOpen limit source tags c) (hread : readPiece c = .ok (.openTag tag, d))
    (hdepth : tags.length < limit) : LeavesOpen limit source (tag :: tags) d
  | closeTag {tags : List OpenTag} {tag : OpenTag} {c d : Cursor} {name : List Char} {span : Span}
    (h : LeavesOpen limit source (tag :: tags) c)
    (hread : readPiece c = .ok (.closeTag name span, d))
    (hname : eqIgnoreCase tag.name name = true) : LeavesOpen limit source tags d

/-- The error of an element that is open at the end of the text. -/
def OpenTag.unclosedError (tag : OpenTag) : TemplateError :=
  (OpenElement.mk tag []).unclosedError

/-- With the elements of `tags` open, no piece can follow at a cursor. -/
inductive FailsAt (limit : Nat) : List OpenTag → Cursor → TemplateError → Prop
  | piece {tags : List OpenTag} {c : Cursor} {e : TemplateError} (hread : readPiece c = .error e) :
    FailsAt limit tags c e
  | unclosed {tags : List OpenTag} {tag : OpenTag} {c : Cursor} (hc : c.rest = []) :
    FailsAt limit (tag :: tags) c tag.unclosedError
  | tooDeep {tags : List OpenTag} {tag : OpenTag} {c d : Cursor}
    (hread : readPiece c = .ok (.openTag tag, d)) (hdepth : limit ≤ tags.length) :
    FailsAt limit tags c ⟨.nestingTooDeep limit, tag.span⟩
  | unexpected {c d : Cursor} {name : List Char} {span : Span}
    (hread : readPiece c = .ok (.closeTag name span, d)) :
    FailsAt limit [] c ⟨.unexpectedCloseTag (String.ofList name), span⟩
  | mismatched {tags : List OpenTag} {tag : OpenTag} {c d : Cursor} {name : List Char}
    {span : Span} (hread : readPiece c = .ok (.closeTag name span, d))
    (hname : eqIgnoreCase tag.name name = false) :
    FailsAt limit (tag :: tags) c
      ⟨.mismatchedCloseTag (String.ofList tag.name) (String.ofList name) tag.span.start, span⟩

section

variable {limit : Nat} {source : List Char} {tags : List OpenTag} {tag : OpenTag} {c d : Cursor}
  {p : Piece} {e : TemplateError}

/-- Where no text remains, an empty node is read, and nothing else. -/
theorem exists_node_of_rest_eq_nil (hc : c.rest = []) : ∃ t d, readPiece c = .ok (.node t, d) := by
  refine ⟨.literal (.ofText c.offset []), c.advance [] [], ?_⟩
  rw [readPiece, hc]
  rfl

/-- An opening tag is no node. -/
theorem openTag_ne_node (tag : OpenTag) (t : Token) : Piece.openTag tag ≠ .node t := by
  intro h
  cases h

/-- A close tag is no node. -/
theorem closeTag_ne_node (name : List Char) (span : Span) (t : Token) :
    Piece.closeTag name span ≠ .node t := by
  intro h
  cases h

/-- A tag stands at an opening, where a construct is read. -/
theorem construct_of_readPiece_tag (h : readPiece c = .ok (p, d)) (hp : ∀ t, p ≠ .node t) :
    ∃ x, c.Passes x d ∧ Construct c.offset x p := by
  cases ho : opening? c.rest with
  | none =>
    rw [readPiece, ho] at h
    exact absurd (Prod.mk.inj (Except.ok.inj h)).1.symm (hp _)
  | some o =>
    obtain ⟨x, hrest, hoffset, hx⟩ := construct_of_readPiece (by rw [ho]; rfl) h
    exact ⟨x, ⟨hrest, hoffset⟩, hx⟩

/-- A tag takes up text. -/
theorem rest_ne_nil_of_readPiece_tag (h : readPiece c = .ok (p, d)) (hp : ∀ t, p ≠ .node t) :
    c.rest ≠ [] := by
  intro hc
  obtain ⟨t, d', hnode⟩ := exists_node_of_rest_eq_nil hc
  rw [hnode] at h
  exact hp t (Prod.mk.inj (Except.ok.inj h)).1.symm

/-- Where reading a piece fails, some text is left. -/
theorem rest_ne_nil_of_readPiece_error (h : readPiece c = .error e) : c.rest ≠ [] := by
  intro hc
  obtain ⟨t, d, hnode⟩ := exists_node_of_rest_eq_nil hc
  rw [hnode] at h
  cases h

/-- The cursor of a history stands in the source. -/
theorem LeavesOpen.isIn (h : LeavesOpen limit source tags c) : c.IsIn source := by
  induction h with
  | start => exact ⟨[], rfl, rfl⟩
  | node _ hc hread ih =>
    obtain ⟨x, hx⟩ := exists_passes_of_readPiece hc hread
    exact ih.passes hx
  | openTag _ hread _ ih =>
    obtain ⟨x, hx, -⟩ := construct_of_readPiece_tag hread (openTag_ne_node _)
    exact ih.passes hx
  | closeTag _ hread _ ih =>
    obtain ⟨x, hx, -⟩ := construct_of_readPiece_tag hread (closeTag_ne_node _ _)
    exact ih.passes hx

/-- A history under one limit is one under every larger limit. -/
theorem LeavesOpen.of_le {limit' : Nat} (h : LeavesOpen limit source tags c)
    (hle : limit ≤ limit') : LeavesOpen limit' source tags c := by
  induction h with
  | start => exact .start
  | node _ hc hread ih => exact .node ih hc hread
  | openTag _ hread hdepth ih => exact .openTag ih hread (by omega)
  | closeTag _ hread hname ih => exact .closeTag ih hread hname

/-- A place at which no piece can follow is one under every limit, unless the limit is the
reason. -/
theorem FailsAt.of_kind_ne (h : FailsAt limit tags c e)
    (hkind : e.diagnostic.kind ≠ .nestingTooDeep) (limit' : Nat) : FailsAt limit' tags c e := by
  cases h with
  | piece hread => exact .piece hread
  | unclosed hc => exact .unclosed hc
  | tooDeep => exact absurd rfl hkind
  | unexpected hread => exact .unexpected hread
  | mismatched hread hname => exact .mismatched hread hname

/-- The reader comes to the end of every history, with the same elements open. -/
theorem LeavesOpen.exists_readOn (h : LeavesOpen limit source tags c) :
    ∃ stack nodes, stack.map OpenElement.tag = tags ∧
      readOn limit [] [] ⟨0, source⟩ = readOn limit stack nodes c := by
  induction h with
  | start => exact ⟨[], [], rfl, rfl⟩
  | @node tags c d t _ hc hread ih =>
    obtain ⟨stack, nodes, htags, heq⟩ := ih
    refine ⟨stack, t :: nodes, htags, ?_⟩
    rw [heq, readOn_piece hc hread]
    rfl
  | @openTag tags tag c d _ hread hdepth ih =>
    obtain ⟨stack, nodes, rfl, heq⟩ := ih
    rw [List.length_map] at hdepth
    refine ⟨⟨tag, nodes⟩ :: stack, [], rfl, ?_⟩
    have hc := rest_ne_nil_of_readPiece_tag hread (openTag_ne_node _)
    rw [heq, readOn_piece hc hread, growTree, if_neg (Nat.not_le_of_lt hdepth)]
    rfl
  | @closeTag tags tag c d name span _ hread hname ih =>
    obtain ⟨stack, nodes, htags, heq⟩ := ih
    obtain ⟨o, stack, rfl, rfl, rfl⟩ := List.map_eq_cons_iff.mp htags
    refine ⟨stack, o.close nodes.reverse span.stop :: o.before, rfl, ?_⟩
    have hc := rest_ne_nil_of_readPiece_tag hread (closeTag_ne_node _ _)
    rw [heq, readOn_piece hc hread, growTree, if_pos hname]
    rfl

/-- Where no piece can follow, the reader fails. -/
theorem FailsAt.readOn_eq {stack : List OpenElement} (h : FailsAt limit tags c e)
    (htags : stack.map OpenElement.tag = tags) (nodes : List Token) :
    readOn limit stack nodes c = .error e := by
  cases h with
  | piece hread =>
    rw [readOn, piecesFrom_eq, if_neg (rest_ne_nil_of_readPiece_error hread), hread]
    cases stack <;> rfl
  | unclosed hc =>
    obtain ⟨o, stack, rfl, rfl, -⟩ := List.map_eq_cons_iff.mp htags
    rw [readOn, piecesFrom_eq, if_pos hc]
    rfl
  | tooDeep hread hdepth =>
    rw [← htags, List.length_map] at hdepth
    have hc := rest_ne_nil_of_readPiece_tag hread (openTag_ne_node _)
    rw [readOn_piece hc hread, growTree, if_pos hdepth]
  | unexpected hread =>
    obtain rfl := List.map_eq_nil_iff.mp htags
    have hc := rest_ne_nil_of_readPiece_tag hread (closeTag_ne_node _ _)
    rw [readOn_piece hc hread, growTree]
  | mismatched hread hname =>
    obtain ⟨o, stack, rfl, rfl, -⟩ := List.map_eq_cons_iff.mp htags
    have hc := rest_ne_nil_of_readPiece_tag hread (closeTag_ne_node _ _)
    rw [readOn_piece hc hread, growTree,
      if_neg (by rw [hname]; exact Bool.false_ne_true)]

/-- Where the reader fails behind a history, a longer one comes to a place at which no piece can
follow. -/
theorem LeavesOpen.exists_failsAt {stack : List OpenElement} {nodes : List Token}
    (h : LeavesOpen limit source (stack.map OpenElement.tag) c)
    (hread : readOn limit stack nodes c = .error e) :
    ∃ tags d, LeavesOpen limit source tags d ∧ FailsAt limit tags d e := by
  induction hn : c.rest.length using Nat.strongRecOn generalizing stack nodes c with
  | ind n ih =>
    by_cases hc : c.rest = []
    · rw [readOn, piecesFrom_eq, if_pos hc] at hread
      cases stack with
      | nil => cases hread
      | cons o stack =>
        obtain rfl := Except.error.inj hread
        exact ⟨_, c, h, .unclosed hc⟩
    · cases hr : readPiece c with
      | error e' =>
        have hfails : FailsAt limit (stack.map OpenElement.tag) c e' := .piece hr
        rw [hfails.readOn_eq rfl] at hread
        obtain rfl := Except.error.inj hread
        exact ⟨_, c, h, hfails⟩
      | ok r =>
        obtain ⟨p, d⟩ := r
        have hlt : d.rest.length < n := hn ▸ length_lt_of_readPiece hc hr
        rw [readOn_piece hc hr] at hread
        cases p with
        | node t =>
          have hread : readOn limit stack (t :: nodes) d = .error e := hread
          exact ih _ hlt (h.node hc hr) hread rfl
        | openTag tag =>
          rw [growTree] at hread
          by_cases hdepth : limit ≤ stack.length
          · rw [if_pos hdepth] at hread
            obtain rfl := Except.error.inj hread
            exact ⟨_, c, h, .tooDeep hr (by rwa [List.length_map])⟩
          · rw [if_neg hdepth] at hread
            have hread : readOn limit (⟨tag, nodes⟩ :: stack) [] d = .error e := hread
            have hopen : LeavesOpen limit source
                ((⟨tag, nodes⟩ :: stack : List OpenElement).map OpenElement.tag) d :=
              h.openTag hr (by rw [List.length_map]; omega)
            exact ih _ hlt hopen hread rfl
        | closeTag name span =>
          cases stack with
          | nil =>
            obtain rfl := Except.error.inj hread
            exact ⟨_, c, h, .unexpected hr⟩
          | cons o stack =>
            rw [growTree] at hread
            by_cases hname : eqIgnoreCase o.tag.name name = true
            · rw [if_pos hname] at hread
              have hread : readOn limit stack (o.close nodes.reverse span.stop :: o.before) d =
                  .error e := hread
              exact ih _ hlt (h.closeTag hr hname) hread rfl
            · rw [if_neg hname] at hread
              obtain rfl := Except.error.inj hread
              exact ⟨_, c, h, .mismatched hr (by simpa using hname)⟩

/-- A template is refused exactly when a history comes to a place at which no piece can follow. -/
theorem Document.ofText_eq_error_iff_failsAt :
    Document.ofText source limit = .error e ↔
      ∃ tags c, LeavesOpen limit source tags c ∧ FailsAt limit tags c e := by
  rw [Document.ofText_eq_error_iff]
  constructor
  · intro hread
    have hstart : LeavesOpen limit source (([] : List OpenElement).map OpenElement.tag)
        ⟨0, source⟩ := .start
    exact hstart.exists_failsAt hread
  · rintro ⟨tags, c, h, hfails⟩
    obtain ⟨stack, nodes, htags, heq⟩ := h.exists_readOn
    rw [heq]
    exact hfails.readOn_eq htags nodes

/-- A template has a document when a history comes to its end with no element open. -/
theorem LeavesOpen.exists_document (h : LeavesOpen limit source [] c) (hc : c.rest = []) :
    ∃ d, Document.ofText source limit = .ok d := by
  obtain ⟨stack, nodes, htags, heq⟩ := h.exists_readOn
  obtain rfl := List.map_eq_nil_iff.mp htags
  refine ⟨Document.ofNodes (dropRootBlanks nodes.reverse), ?_⟩
  rw [Document.ofText_eq_map, heq, readOn, piecesFrom_eq, if_pos hc]
  rfl

/-- Each open element was opened at a place before the cursor, where those around it were open. -/
theorem LeavesOpen.opened {outer : List OpenTag} (h : LeavesOpen limit source tags c)
    (hsuffix : tag :: outer <:+ tags) :
    ∃ d inner text, LeavesOpen limit source outer d ∧ IsOpeningTag d.offset inner tag false ∧
      d.Passes (tagText inner ++ text) c := by
  have step {c c' : Cursor} {x : List Char} (hx : c.Passes x c')
      (ih : ∃ d inner text, LeavesOpen limit source outer d ∧
        IsOpeningTag d.offset inner tag false ∧ d.Passes (tagText inner ++ text) c) :
      ∃ d inner text, LeavesOpen limit source outer d ∧
        IsOpeningTag d.offset inner tag false ∧ d.Passes (tagText inner ++ text) c' := by
    obtain ⟨d, inner, text, hopen, htag, hpasses⟩ := ih
    exact ⟨d, inner, text ++ x, hopen, htag, List.append_assoc _ text x ▸ hpasses.trans hx⟩
  induction h with
  | start => exact absurd (List.suffix_nil.mp hsuffix) (List.cons_ne_nil _ _)
  | node _ hc hread ih =>
    obtain ⟨x, hx⟩ := exists_passes_of_readPiece hc hread
    exact step hx (ih hsuffix)
  | @openTag tags tag' c d h hread hdepth ih =>
    obtain ⟨x, hx, hconstruct⟩ := construct_of_readPiece_tag hread (openTag_ne_node _)
    rcases List.suffix_cons_iff.mp hsuffix with heq | hsuffix
    · obtain ⟨rfl, rfl⟩ := List.cons.inj heq
      obtain ⟨inner, rfl, htag, -, -⟩ := hconstruct.openTag_eq
      exact ⟨c, inner, [], h, htag, by rwa [List.append_nil]⟩
    · exact step hx (ih hsuffix)
  | closeTag _ hread _ ih =>
    obtain ⟨x, hx, -⟩ := construct_of_readPiece_tag hread (closeTag_ne_node _ _)
    exact step hx (ih (hsuffix.trans (List.suffix_cons _ _)))

end

end TemplateReader
