import TemplateReader.Proofs.Offset.Passes
import TemplateReader.Proofs.Offset.Reading
import TemplateReader.Proofs.Template.Construct

/-!
# Nesting

`Reads limit depth k text nodes` says that a text at offset `k`, inside `depth`
open elements, is a sequence of plain runs, constructs and whole elements, and
which nodes it holds. The relation is exactly what the reader computes: it
finds the nodes of every such text, whatever stands around it, and where it
finds nodes the text is such a sequence. What is proved of a template by
induction over this relation speaks of every template that can be read.
-/

namespace TemplateReader

/-- A text holds a construct at its front in one of four cases. -/
theorem opening?_isSome_iff {text : List Char} :
    (opening? text).isSome ↔
      (∃ tail, text = '{' :: tail) ∨ (∃ tail, text = '<' :: '!' :: tail) ∨
      (∃ c tail, text = '<' :: '/' :: c :: tail ∧ c.isAlpha = true) ∨
      (∃ c tail, text = '<' :: c :: tail ∧ c.isAlpha = true) := by
  rw [Option.isSome_iff_exists]
  constructor
  · rintro ⟨o, ho⟩
    rw [opening?_eq_some_iff] at ho
    cases o with
    | comment =>
      obtain ⟨tail, rfl⟩ := ho
      exact Or.inr (Or.inl ⟨_, rfl⟩)
    | declaration =>
      obtain ⟨tail, rfl, -⟩ := ho
      exact Or.inr (Or.inl ⟨_, rfl⟩)
    | closeTag => exact Or.inr (Or.inr (Or.inl ho))
    | element => exact Or.inr (Or.inr (Or.inr ho))
    | program => exact Or.inl ho
  · rintro (h | ⟨tail, rfl⟩ | h | h)
    · exact ⟨.program, opening?_eq_some_iff.mpr h⟩
    · by_cases hd : ['-', '-'] <+: tail
      · obtain ⟨more, rfl⟩ := hd
        exact ⟨.comment, rfl⟩
      · exact ⟨.declaration, opening?_eq_some_iff.mpr ⟨tail, rfl, hd⟩⟩
    · exact ⟨.closeTag, opening?_eq_some_iff.mpr h⟩
    · exact ⟨.element, opening?_eq_some_iff.mpr h⟩

/-- A run of plain text ends before this text: it is empty, or a construct begins at its front. -/
def Stops (text : List Char) : Prop :=
  text = [] ∨ (opening? text).isSome

/-- Plain text ends at the end of the text. -/
theorem Stops.nil : Stops [] := Or.inl rfl

/-- Plain text ends in front of a text, or of what follows it if it is empty. -/
theorem Stops.append {text rest : List Char} (h : Stops text) (hrest : text = [] → Stops rest) :
    Stops (text ++ rest) := by
  rcases h with rfl | h
  · exact hrest rfl
  · exact Or.inr (opening?_append_isSome h rest)

/-- A text is plain when no construct begins anywhere in it, and it is not empty. -/
structure IsPlain (text : List Char) : Prop where
  ne_nil : text ≠ []
  opening?_suffix : ∀ suffix, suffix <:+ text → opening? suffix = none

/-- What begins with an opening is no plain text. -/
theorem not_isPlain_of_opens {x : List Char} (hx : (opening? x).isSome) : ¬IsPlain x := by
  intro hplain
  rw [hplain.opening?_suffix x List.suffix_rfl] at hx
  cases hx

/-- What ends a plain run does not complete an opening inside the run. -/
theorem opening?_append_of_stops {text rest : List Char} (hne : text ≠ []) (hrest : Stops rest)
    (h : opening? text = none) : opening? (text ++ rest) = none := by
  rcases hrest with rfl | hrest
  · rwa [List.append_nil]
  · obtain ⟨c, tail, rfl, hc⟩ : ∃ c tail, rest = c :: tail ∧ (c = '<' ∨ c = '{') := by
      rcases opening?_isSome_iff.mp hrest with ⟨t, rfl⟩ | ⟨t, rfl⟩ | ⟨_, t, rfl, -⟩ | ⟨_, t, rfl, -⟩
      · exact ⟨_, _, rfl, Or.inr rfl⟩
      all_goals exact ⟨_, _, rfl, Or.inl rfl⟩
    rw [← Option.not_isSome_iff_eq_none, opening?_isSome_iff] at h ⊢
    match text, hne with
    | [a], _ =>
      rcases hc with rfl | rfl <;> simpa using h
    | [a, b], _ =>
      rcases hc with rfl | rfl <;> simpa using h
    | a :: b :: d :: more, _ =>
      simpa using h

private theorem splitPlain_of_isPlain {text rest : List Char}
    (htext : ∀ suffix, suffix <:+ text → opening? suffix = none) (hrest : Stops rest) :
    splitPlain (text ++ rest) = (text, rest) := by
  induction text with
  | nil =>
    rw [List.nil_append]
    rcases hrest with rfl | h
    · rfl
    · cases rest with
      | nil => rfl
      | cons c rest => rw [splitPlain, if_pos h]
  | cons c text ih =>
    have hnone := opening?_append_of_stops (List.cons_ne_nil c text) hrest
      (htext _ List.suffix_rfl)
    rw [List.cons_append] at hnone ⊢
    rw [splitPlain, hnone, ih fun s hs => htext s (hs.trans (List.suffix_cons c text))]
    rfl

private theorem isPlain_of_splitPlain (text : List Char) :
    (∀ suffix, suffix <:+ (splitPlain text).1 → opening? suffix = none) ∧
      Stops (splitPlain text).2 := by
  induction text with
  | nil =>
    refine ⟨fun suffix hs => ?_, Stops.nil⟩
    rw [List.suffix_nil.mp hs]
    rfl
  | cons c text ih =>
    unfold splitPlain
    by_cases ho : (opening? (c :: text)).isSome
    · rw [if_pos ho]
      refine ⟨fun suffix hs => ?_, Or.inr ho⟩
      rw [List.suffix_nil.mp hs]
      rfl
    · rw [if_neg ho]
      refine ⟨fun suffix hs => ?_, ih.2⟩
      rcases List.suffix_cons_iff.mp hs with rfl | hs
      · rw [← Option.not_isSome_iff_eq_none]
        intro hsome
        have happend := opening?_append_isSome hsome (splitPlain text).2
        rw [List.cons_append, splitPlain_append] at happend
        exact ho happend
      · exact ih.1 suffix hs

/-- A plain run is read as a literal up to where it stops. -/
theorem readPiece_of_isPlain {k : Nat} {text rest : List Char} (htext : IsPlain text)
    (hrest : Stops rest) :
    readPiece ⟨k, text ++ rest⟩ =
      .ok (.node (.literal (.ofText k text)), ⟨k + byteSize text, rest⟩) := by
  have hnone := opening?_append_of_stops htext.ne_nil hrest
    (htext.opening?_suffix _ List.suffix_rfl)
  rw [readPiece, hnone, splitPlain_of_isPlain htext.opening?_suffix hrest]
  rfl

/-- Where no construct begins, a plain run is read. -/
theorem isPlain_of_readPiece {c d : Cursor} {p : Piece} (hc : c.rest ≠ [])
    (ho : opening? c.rest = none) (h : readPiece c = .ok (p, d)) :
    ∃ x, c.rest = x ++ d.rest ∧ d.offset = c.offset + byteSize x ∧ IsPlain x ∧ Stops d.rest ∧
      p = .node (.literal (.ofText c.offset x)) := by
  rw [readPiece, ho] at h
  simp only [Except.ok.injEq, Prod.mk.injEq] at h
  obtain ⟨rfl, rfl⟩ := h
  obtain ⟨hplain, hstops⟩ := isPlain_of_splitPlain c.rest
  refine ⟨(splitPlain c.rest).1, (splitPlain_append c.rest).symm, rfl, ⟨?_, hplain⟩, hstops, rfl⟩
  intro hnil
  rcases hstops with hrest | hsome
  · have happend := splitPlain_append c.rest
    rw [hnil, hrest] at happend
    exact hc happend.symm
  · have happend := splitPlain_append c.rest
    rw [hnil, List.nil_append] at happend
    rw [happend, ho] at hsome
    cases hsome

/-- Every piece is a stretch of text at the cursor. -/
theorem exists_passes_of_readPiece {c d : Cursor} {p : Piece} (hc : c.rest ≠ [])
    (h : readPiece c = .ok (p, d)) : ∃ x, c.Passes x d := by
  cases ho : opening? c.rest with
  | none =>
    obtain ⟨x, hx, hoffset, -⟩ := isPlain_of_readPiece hc ho h
    exact ⟨x, hx, hoffset⟩
  | some o =>
    obtain ⟨x, hx, hoffset, -⟩ := construct_of_readPiece (by rw [ho]; rfl) h
    exact ⟨x, hx, hoffset⟩

/-- At offset `k`, inside `depth` open elements of at most `limit`, the text holds the nodes. -/
inductive Reads (limit : Nat) : (depth k : Nat) → List Char → List Token → Prop
  | nil {depth k : Nat} : Reads limit depth k [] []
  | text {depth k : Nat} {x rest : List Char} {nodes : List Token} (hx : IsPlain x)
    (hstops : Stops rest) (hrest : Reads limit depth (k + byteSize x) rest nodes) :
    Reads limit depth k (x ++ rest) (.literal (.ofText k x) :: nodes)
  | node {depth k : Nat} {x rest : List Char} {t : Token} {nodes : List Token}
    (hx : Construct k x (.node t)) (hrest : Reads limit depth (k + byteSize x) rest nodes) :
    Reads limit depth k (x ++ rest) (t :: nodes)
  | element {depth k : Nat} {opening content closing rest name : List Char} {tag : OpenTag}
    {span : Span} {children nodes : List Token} (hdepth : depth < limit)
    (hopening : Construct k opening (.openTag tag))
    (hcontent : Reads limit (depth + 1) (k + byteSize opening) content children)
    (hclosing : Construct (k + byteSize (opening ++ content)) closing (.closeTag name span))
    (hname : eqIgnoreCase tag.name name = true)
    (hrest : Reads limit depth (k + byteSize (opening ++ content ++ closing)) rest nodes) :
    Reads limit depth k (opening ++ (content ++ (closing ++ rest)))
      (OpenElement.close ⟨tag, []⟩ children span.stop :: nodes)

/-- A sequence that is read under one limit is read under every larger limit. -/
theorem Reads.of_limit_le {limit limit' depth k : Nat} {text : List Char} {nodes : List Token}
    (h : Reads limit depth k text nodes) (hle : limit ≤ limit') :
    Reads limit' depth k text nodes := by
  induction h with
  | nil => exact .nil
  | text hx hstops _ ih => exact .text hx hstops ih
  | node hx _ ih => exact .node hx ih
  | element hdepth hopening _ hclosing hname _ ihcontent ihrest =>
    exact .element (by omega) hopening ihcontent hclosing hname ihrest

/-- Fewer open elements leave more room. -/
theorem Reads.of_le {limit depth depth' k : Nat} {text : List Char} {nodes : List Token}
    (h : Reads limit depth k text nodes) (hle : depth' ≤ depth) :
    Reads limit depth' k text nodes := by
  induction h generalizing depth' with
  | nil => exact .nil
  | text hx hstops _ ih => exact .text hx hstops (ih hle)
  | node hx _ ih => exact .node hx (ih hle)
  | element hdepth hopening _ hclosing hname _ ihcontent ihrest =>
    exact .element (by omega) hopening (ihcontent (by omega)) hclosing hname (ihrest hle)

/-- Plain text ends in front of a construct. -/
theorem Construct.stops {k : Nat} {x : List Char} {p : Piece} (h : Construct k x p)
    (rest : List Char) : Stops (x ++ rest) :=
  Or.inr (h.read rest).1

/-- A construct begins as one. -/
theorem Construct.opens {k : Nat} {x : List Char} {p : Piece} (h : Construct k x p) :
    (opening? x).isSome := by
  have hopens := (h.read []).1
  rwa [List.append_nil] at hopens

/-- A construct is not empty. -/
theorem Construct.ne_nil {k : Nat} {x : List Char} {p : Piece} (h : Construct k x p) : x ≠ [] := by
  rintro rfl
  have hs := (h.read []).1
  cases hs

/-- Without text there are no nodes. -/
theorem Reads.nodes_eq_nil {limit depth k : Nat} {text : List Char} {nodes : List Token}
    (h : Reads limit depth k text nodes) (htext : text = []) : nodes = [] := by
  cases h with
  | nil => rfl
  | text hx => exact absurd (List.append_eq_nil_iff.mp htext).1 hx.ne_nil
  | node hx => exact absurd (List.append_eq_nil_iff.mp htext).1 hx.ne_nil
  | element _ hopening => exact absurd (List.append_eq_nil_iff.mp htext).1 hopening.ne_nil

/-- The reader at a cursor, with open elements and the nodes read inside the innermost. -/
def readOn (limit : Nat) (stack : List OpenElement) (nodes : List Token) (c : Cursor) :
    Except TemplateError (List Token) :=
  growTree limit (piecesFrom c).2 stack nodes (piecesFrom c).1

/-- One piece is read and the tree grows by it. -/
theorem readOn_piece {c d : Cursor} {p : Piece} (hc : c.rest ≠ []) (h : readPiece c = .ok (p, d))
    (limit : Nat) (stack : List OpenElement) (nodes : List Token) :
    readOn limit stack nodes c =
      growTree limit (piecesFrom d).2 stack nodes (p :: (piecesFrom d).1) := by
  rw [readOn, piecesFrom_eq, if_neg hc, h]

/-- A construct at the cursor is the next piece by which the tree grows. -/
theorem readOn_construct {k : Nat} {x : List Char} {p : Piece} (h : Construct k x p)
    (rest : List Char) (limit : Nat) (stack : List OpenElement) (nodes : List Token) :
    readOn limit stack nodes ⟨k, x ++ rest⟩ =
      growTree limit (piecesFrom ⟨k + byteSize x, rest⟩).2 stack nodes
        (p :: (piecesFrom ⟨k + byteSize x, rest⟩).1) :=
  readOn_piece (fun hnil => h.ne_nil (List.append_eq_nil_iff.mp hnil).1) (h.read rest).2 _ _ _

/-- Whether a list of nodes ends in plain text, which would go on in a text behind it. -/
def EndsInText (nodes : List Token) : Prop :=
  ∃ l, nodes.getLast? = some (.literal l) ∧ IsPlain l.raw.toList

/-- Nodes end in plain text with another node in front if they do without it. -/
theorem EndsInText.cons {nodes : List Token} (h : EndsInText nodes) (t : Token) :
    EndsInText (t :: nodes) := by
  obtain ⟨l, hl, hplain⟩ := h
  refine ⟨l, ?_, hplain⟩
  rw [List.getLast?_cons, hl]
  rfl

/-- A plain text ends in plain text. -/
theorem IsPlain.endsInText {x : List Char} (hx : IsPlain x) (k : Nat) :
    EndsInText [.literal (.ofText k x)] :=
  ⟨_, rfl, by rwa [Literal.ofText, String.toList_ofList]⟩

/-- Reading a text adds its nodes to those before it and goes on behind the text, provided that
plain text at its end stops there. -/
theorem Reads.readOn_append {limit depth k : Nat} {text : List Char} {nodes : List Token}
    (h : Reads limit depth k text nodes) (stack : List OpenElement) (hstack : stack.length = depth)
    (before : List Token) (after : List Char) (hafter : EndsInText nodes → Stops after) :
    readOn limit stack before ⟨k, text ++ after⟩ =
      readOn limit stack (nodes.reverse ++ before) ⟨k + byteSize text, after⟩ := by
  induction h generalizing stack before after with
  | nil => rfl
  | @text depth k x rest nodes hx hstops hrest ih =>
    have hstops' : Stops (rest ++ after) := by
      refine hstops.append fun hnil => hafter ?_
      rw [hrest.nodes_eq_nil hnil]
      exact hx.endsInText k
    have hne : (⟨k, x ++ (rest ++ after)⟩ : Cursor).rest ≠ [] := fun hnil =>
      hx.ne_nil (List.append_eq_nil_iff.mp hnil).1
    rw [List.append_assoc, readOn_piece hne (readPiece_of_isPlain hx hstops')]
    refine (ih stack hstack (.literal (.ofText k x) :: before) after fun he =>
      hafter (he.cons _)).trans ?_
    rw [byteSize_append, List.reverse_cons, List.append_assoc, List.singleton_append,
      Nat.add_assoc]
  | @node depth k x rest t nodes hx hrest ih =>
    rw [List.append_assoc, readOn_construct hx]
    refine (ih stack hstack (t :: before) after fun he => hafter (he.cons _)).trans ?_
    rw [byteSize_append, List.reverse_cons, List.append_assoc, List.singleton_append,
      Nat.add_assoc]
  | @element depth k opening content closing rest name tag span children nodes hdepth hopening
      hcontent hclosing hname hrest ihcontent ihrest =>
    have hlimit : ¬limit ≤ stack.length := by omega
    have hinside := ihcontent (⟨tag, before⟩ :: stack) (by rw [List.length_cons, hstack]) []
      (closing ++ (rest ++ after)) fun _ => hclosing.stops _
    have hbehind := ihrest stack hstack (OpenElement.close ⟨tag, []⟩ children span.stop :: before)
      after fun he => hafter (he.cons _)
    rw [List.append_assoc, List.append_assoc, List.append_assoc, readOn_construct hopening,
      growTree, if_neg hlimit]
    refine hinside.trans ?_
    rw [Nat.add_assoc, ← byteSize_append, readOn_construct hclosing, growTree, if_pos hname,
      List.append_nil, List.reverse_reverse, Nat.add_assoc, ← byteSize_append]
    refine hbehind.trans ?_
    simp only [List.reverse_cons, List.append_assoc, List.singleton_append, byteSize_append,
      Nat.add_assoc]

/-- What remains once the innermost open element has been read to its end: nothing at the root,
and elsewhere its close tag with what follows. -/
def ClosesAs (limit : Nat) (stack : List OpenElement) (nodes : List Token) (c : Cursor)
    (roots : List Token) : Prop :=
  match stack with
  | [] => c.rest = [] ∧ roots = dropRootBlanks nodes.reverse
  | o :: stack => ∃ closing name span rest, c.rest = closing ++ rest ∧
    Construct c.offset closing (.closeTag name span) ∧ eqIgnoreCase o.tag.name name = true ∧
    readOn limit stack (o.close nodes.reverse span.stop :: o.before)
      ⟨c.offset + byteSize closing, rest⟩ = .ok roots

/-- The remaining text goes through a sequence of nodes to the end of the innermost element. -/
def GoesThrough (limit : Nat) (stack : List OpenElement) (before : List Token) (c : Cursor)
    (roots : List Token) : Prop :=
  ∃ text nodes after, c.rest = text ++ after ∧ Reads limit stack.length c.offset text nodes ∧
    (Stops c.rest → Stops text) ∧
    ClosesAs limit stack (nodes.reverse ++ before) ⟨c.offset + byteSize text, after⟩ roots

section

variable {limit : Nat} {stack : List OpenElement} {before roots : List Token} {c d : Cursor}
  {x : List Char}

private theorem GoesThrough.text (hx : c.rest = x ++ d.rest)
    (hoffset : d.offset = c.offset + byteSize x) (hplain : IsPlain x) (hstops : Stops d.rest)
    (h : GoesThrough limit stack (.literal (.ofText c.offset x) :: before) d roots) :
    GoesThrough limit stack before c roots := by
  obtain ⟨text, nodes, after, hd, hreads, hstops', hcloses⟩ := h
  refine ⟨x ++ text, _, after, ?_, .text hplain (hstops' hstops) (hoffset ▸ hreads), ?_, ?_⟩
  · rw [hx, hd, List.append_assoc]
  · intro hc
    have hnone := opening?_append_of_stops hplain.ne_nil hstops
      (hplain.opening?_suffix _ List.suffix_rfl)
    rw [hx] at hc
    rcases hc with hnil | hsome
    · exact absurd (List.append_eq_nil_iff.mp hnil).1 hplain.ne_nil
    · rw [hnone] at hsome
      cases hsome
  · rw [List.reverse_cons, List.append_assoc, byteSize_append, ← Nat.add_assoc, ← hoffset]
    exact hcloses

private theorem GoesThrough.node {t : Token} (hx : c.rest = x ++ d.rest)
    (hoffset : d.offset = c.offset + byteSize x) (hconstruct : Construct c.offset x (.node t))
    (h : GoesThrough limit stack (t :: before) d roots) :
    GoesThrough limit stack before c roots := by
  obtain ⟨text, nodes, after, hd, hreads, -, hcloses⟩ := h
  refine ⟨x ++ text, _, after, ?_, .node hconstruct (hoffset ▸ hreads),
    fun _ => hconstruct.stops text, ?_⟩
  · rw [hx, hd, List.append_assoc]
  · rw [List.reverse_cons, List.append_assoc, byteSize_append, ← Nat.add_assoc, ← hoffset]
    exact hcloses

private theorem GoesThrough.element {tag : OpenTag} (hdepth : stack.length < limit)
    (hx : c.rest = x ++ d.rest) (hoffset : d.offset = c.offset + byteSize x)
    (hopening : Construct c.offset x (.openTag tag))
    (h : GoesThrough limit (⟨tag, before⟩ :: stack) [] d roots)
    (hbehind : ∀ nodes after, after.rest.length ≤ d.rest.length →
      readOn limit stack nodes after = .ok roots → GoesThrough limit stack nodes after roots) :
    GoesThrough limit stack before c roots := by
  obtain ⟨content, children, _, hd, hcontent, -, closing, name, span, rest, rfl, hclosing, hname,
    hread⟩ := h
  dsimp only at hclosing hread
  rw [List.append_nil, List.reverse_reverse] at hread
  have hshorter : rest.length ≤ d.rest.length := by
    rw [hd]
    simp only [List.length_append]
    omega
  obtain ⟨text, nodes, after, hrest, hreads, -, hcloses⟩ := hbehind _ ⟨_, rest⟩ hshorter hread
  dsimp only at hrest hreads hcloses
  have hcontentStop : d.offset + byteSize content = c.offset + byteSize (x ++ content) := by
    rw [hoffset, byteSize_append, Nat.add_assoc]
  rw [hcontentStop] at hclosing hreads hcloses
  rw [Nat.add_assoc, ← byteSize_append] at hreads hcloses
  rw [hoffset] at hcontent
  refine ⟨x ++ (content ++ (closing ++ text)), _, after, ?_,
    .element hdepth hopening hcontent hclosing hname hreads, fun _ => hopening.stops _, ?_⟩
  · rw [hx, hd, hrest]
    simp only [List.append_assoc]
  · rw [Nat.add_assoc, ← byteSize_append] at hcloses
    simp only [List.append_assoc] at hcloses
    rw [List.reverse_cons, List.append_assoc]
    exact hcloses

end

/-- A successful reading goes through a sequence of nodes to the end of the innermost element. -/
theorem goesThrough_of_readOn {limit : Nat} {stack : List OpenElement} {before roots : List Token}
    {c : Cursor} (h : readOn limit stack before c = .ok roots) :
    GoesThrough limit stack before c roots := by
  induction hn : c.rest.length using Nat.strongRecOn generalizing stack before c with
  | ind n ih =>
    by_cases hc : c.rest = []
    · refine ⟨[], [], [], by rw [hc]; rfl, .nil, fun _ => Stops.nil, ?_⟩
      rw [readOn, piecesFrom_eq, if_pos hc] at h
      cases stack with
      | nil => exact ⟨rfl, (Except.ok.inj h).symm⟩
      | cons o stack => cases h
    · cases hr : readPiece c with
      | error e =>
        rw [readOn, piecesFrom_eq, if_neg hc, hr] at h
        cases stack <;> cases h
      | ok r =>
        obtain ⟨p, d⟩ := r
        have hlt := length_lt_of_readPiece hc hr
        rw [readOn_piece hc hr] at h
        cases ho : opening? c.rest with
        | none =>
          obtain ⟨x, hx, hoffset, hplain, hstops, rfl⟩ := isPlain_of_readPiece hc ho hr
          exact .text hx hoffset hplain hstops (ih _ (hn ▸ hlt) h rfl)
        | some o =>
          obtain ⟨x, hx, hoffset, hconstruct⟩ := construct_of_readPiece (by rw [ho]; rfl) hr
          cases p with
          | node t => exact .node hx hoffset hconstruct (ih _ (hn ▸ hlt) h rfl)
          | closeTag name span =>
            refine ⟨[], [], c.rest, rfl, .nil, fun _ => Stops.nil, ?_⟩
            cases stack with
            | nil => cases h
            | cons o stack =>
              rw [growTree] at h
              by_cases hname : eqIgnoreCase o.tag.name name = true
              · rw [if_pos hname] at h
                refine ⟨x, name, span, d.rest, hx, hconstruct, hname, ?_⟩
                change readOn limit stack _ ⟨c.offset + byteSize x, d.rest⟩ = _
                rw [← hoffset]
                exact h
              · rw [if_neg hname] at h
                cases h
          | openTag tag =>
            rw [growTree] at h
            by_cases hdepth : limit ≤ stack.length
            · rw [if_pos hdepth] at h
              cases h
            · rw [if_neg hdepth] at h
              refine .element (by omega) hx hoffset hconstruct (ih _ (hn ▸ hlt) h rfl) ?_
              intro nodes after hle hread
              exact ih _ (by omega) hread rfl

/-- A text is read to root nodes exactly when it is a sequence of nodes inside no element. They
follow the nodes read before, and the blank texts among them are left out. -/
theorem readOn_eq_ok_iff {limit k : Nat} {before roots : List Token} {source : List Char} :
    readOn limit [] before ⟨k, source⟩ = .ok roots ↔
      ∃ nodes, Reads limit 0 k source nodes ∧ roots = dropRootBlanks (before.reverse ++ nodes) := by
  constructor
  · intro h
    obtain ⟨text, nodes, after, hsource, hreads, -, hafter, hroots⟩ := goesThrough_of_readOn h
    dsimp only at hsource hafter
    subst hafter
    rw [List.append_nil] at hsource
    subst hsource
    refine ⟨nodes, hreads, ?_⟩
    rw [hroots, List.reverse_append, List.reverse_reverse]
  · rintro ⟨nodes, hreads, rfl⟩
    have hread := hreads.readOn_append [] rfl before [] fun _ => Stops.nil
    rw [List.append_nil] at hread
    rw [hread, readOn, piecesFrom_eq, if_pos rfl]
    simp only [growTree, List.reverse_append, List.reverse_reverse]

/-- The nodes read so far have no part in an error: it depends on the tags of the open elements. -/
theorem growTree_error {limit : Nat} {fault : Option TemplateError}
    {stack stack' : List OpenElement} {nodes nodes' : List Token} {pieces : List Piece}
    {e : TemplateError}
    (hstack : stack.map OpenElement.tag = stack'.map OpenElement.tag)
    (h : growTree limit fault stack nodes pieces = .error e) :
    growTree limit fault stack' nodes' pieces = .error e := by
  induction pieces generalizing stack stack' nodes nodes' with
  | nil =>
    cases fault with
    | some e' => cases stack <;> cases stack' <;> exact h
    | none =>
      cases stack with
      | nil =>
        rw [List.map_eq_nil_iff.mp hstack.symm]
        cases h
      | cons o _ =>
        obtain ⟨o', _, rfl, htag, -⟩ := List.map_eq_cons_iff.mp hstack.symm
        simpa only [growTree, OpenElement.unclosedError, htag] using h
  | cons piece pieces ih =>
    cases piece with
    | node t =>
      rw [growTree] at h ⊢
      exact ih hstack h
    | openTag tag =>
      have hlength : stack.length = stack'.length := by simpa using congrArg List.length hstack
      rw [growTree] at h ⊢
      rw [hlength] at h
      by_cases hdepth : limit ≤ stack'.length
      · rwa [if_pos hdepth] at h ⊢
      · rw [if_neg hdepth] at h ⊢
        have hstack' : (⟨tag, nodes⟩ :: stack : List OpenElement).map OpenElement.tag =
            (⟨tag, nodes'⟩ :: stack' : List OpenElement).map OpenElement.tag :=
          congrArg (tag :: ·) hstack
        exact ih hstack' h
    | closeTag name span =>
      cases stack with
      | nil =>
        rw [List.map_eq_nil_iff.mp hstack.symm]
        exact h
      | cons o _ =>
        obtain ⟨o', _, rfl, htag, htags⟩ := List.map_eq_cons_iff.mp hstack.symm
        rw [growTree] at h ⊢
        rw [← htag] at h
        by_cases hname : eqIgnoreCase o'.tag.name name = true
        · rw [if_pos hname] at h ⊢
          exact ih htags.symm h
        · rwa [if_neg hname] at h ⊢

/-- The reader at a cursor `k` bytes later comes to the same outcome, `k` bytes later. -/
theorem readOn_shift (limit k : Nat) (c : Cursor) :
    readOn limit [] [] (c.shift k) =
      shifted k (List.map (Token.move (· + k))) (readOn limit [] [] c) := by
  rw [readOn, piecesFrom_shift]
  exact growTree_shift k limit _ [] [] _

/-- The root nodes of a template are those of the sequence that it is. -/
theorem templateNodes_eq_ok_iff {limit : Nat} {source : List Char} {roots : List Token} :
    templateNodes limit source = .ok roots ↔
      ∃ nodes, Reads limit 0 0 source nodes ∧ roots = dropRootBlanks nodes :=
  readOn_eq_ok_iff

/-- A document is read exactly from the sequences of nodes that its text can be. -/
theorem Document.ofText_eq_ok_iff {source : List Char} {limit : Nat} {d : Document} :
    Document.ofText source limit = .ok d ↔
      ∃ nodes, Reads limit 0 0 source nodes ∧ d = Document.ofNodes (dropRootBlanks nodes) := by
  unfold Document.ofText
  constructor
  · intro h
    cases hroots : templateNodes limit source with
    | error e =>
      rw [hroots] at h
      cases h
    | ok roots =>
      rw [hroots] at h
      obtain ⟨nodes, hreads, rfl⟩ := templateNodes_eq_ok_iff.mp hroots
      exact ⟨nodes, hreads, (Except.ok.inj h).symm⟩
  · rintro ⟨nodes, hreads, rfl⟩
    rw [templateNodes_eq_ok_iff.mpr ⟨nodes, hreads, rfl⟩]
    rfl

/-- A document is what the reader at the start of its text comes to, sorted. -/
theorem Document.ofText_eq_map (source : List Char) (limit : Nat) :
    Document.ofText source limit = (readOn limit [] [] ⟨0, source⟩).map Document.ofNodes := rfl

/-- A reading that passes a test of its document has a document that passes it. -/
theorem Document.exists_of_any {source : List Char} {limit : Nat} {test : Document → Bool}
    (h : (Document.ofText source limit).toOption.any test = true) :
    ∃ d, Document.ofText source limit = .ok d ∧ test d = true := by
  cases hd : Document.ofText source limit with
  | error e =>
    rw [hd] at h
    cases h
  | ok d =>
    rw [hd] at h
    exact ⟨d, rfl, h⟩

/-- A template is refused with an error when its reading is decided to fail with it. -/
theorem Document.ofText_eq_error_of_decide {source : List Char} {limit : Nat} {e : TemplateError}
    (h : (match Document.ofText source limit with
      | .ok _ => false
      | .error e' => decide (e' = e)) = true) : Document.ofText source limit = .error e := by
  cases hd : Document.ofText source limit with
  | ok d =>
    rw [hd] at h
    cases h
  | error e' =>
    rw [hd] at h
    rw [of_decide_eq_true h]

/-- A document is refused with the error of its tree. -/
theorem Document.ofText_eq_error_iff {source : List Char} {limit : Nat} {e : TemplateError} :
    Document.ofText source limit = .error e ↔ readOn limit [] [] ⟨0, source⟩ = .error e := by
  rw [Document.ofText_eq_map]
  cases readOn limit [] [] ⟨0, source⟩ with
  | error e' => simp only [Except.map, Except.error.injEq]
  | ok roots => simp only [Except.map, reduceCtorEq]

end TemplateReader
