import TemplateReader.Proofs.Template.Stretch

/-!
# Templates one after the other

A template that ends with a whole construct can be read apart from whatever
follows it. The document of the two together is that of the first followed by
that of the second at its new offsets; and what is wrong with the second is
wrong with the two together, at its new place.
-/

namespace TemplateReader

/-- The last root entry of a document ends at `stop`, and it is no run of plain text: it is an
element or the block of one, an expression, or a comment or declaration, whose text alone begins with
the opening of one. -/
inductive Document.EndsClosed (d : Document) (stop : Nat) : Prop
  | component {e : Element} (he : e ∈ d.components) (hstop : e.span.stop = stop)
  | script {block : RawBlock} (hblock : block ∈ d.scripts) (hstop : block.span.stop = stop)
  | style {block : RawBlock} (hblock : block ∈ d.styles) (hstop : block.span.stop = stop)
  | element {e : Element} (he : Token.element e ∈ d.markup) (hstop : e.span.stop = stop)
  | program {p : Program} (hp : Token.program p ∈ d.markup) (hstop : p.span.stop = stop)
  | declaration {l : Literal} (hl : Token.literal l ∈ d.markup)
    (hraw : ['<', '!'] <+: l.raw.toList) (hstop : l.span.stop = stop)

/-- A node that is no plain text. -/
def IsClosed : Token → Prop
  | .literal l => ¬IsPlain l.raw.toList
  | _ => True

/-- Nothing plain begins with the opening of a declaration. -/
theorem not_isPlain_of_prefix {text : List Char} (h : ['<', '!'] <+: text) : ¬IsPlain text := by
  obtain ⟨tail, rfl⟩ := h
  exact not_isPlain_of_opens (opening?_isSome_iff.mpr (Or.inr (Or.inl ⟨tail, rfl⟩)))

/-- A document that ends closed ends with a node that is no plain text. -/
theorem Document.EndsClosed.exists_mem {roots : List Token} {stop : Nat}
    (h : (Document.ofNodes roots).EndsClosed stop) :
    ∃ t ∈ roots, IsClosed t ∧ t.span.stop = stop := by
  cases h with
  | component he hstop => exact ⟨_, mem_roots_of_mem_components he, trivial, hstop⟩
  | script hblock hstop =>
    obtain ⟨e, he, -, rfl⟩ := exists_of_mem_scripts hblock
    exact ⟨_, he, trivial, hstop⟩
  | style hblock hstop =>
    obtain ⟨e, he, -, rfl⟩ := exists_of_mem_styles hblock
    exact ⟨_, he, trivial, hstop⟩
  | element he hstop => exact ⟨_, mem_roots_of_mem_markup he, trivial, hstop⟩
  | program hp hstop => exact ⟨_, mem_roots_of_mem_markup hp, trivial, hstop⟩
  | declaration hl hraw hstop =>
    exact ⟨_, mem_roots_of_mem_markup hl, not_isPlain_of_prefix hraw, hstop⟩

/-- The nodes of a text that is empty or ends closed do not end in plain text. -/
theorem Reads.not_endsInText {limit : Nat} {text : List Char} {nodes : List Token}
    (h : Reads limit 0 0 text nodes)
    (hend : text = [] ∨ (Document.ofNodes (dropRootBlanks nodes)).EndsClosed (byteSize text)) :
    ¬EndsInText nodes := by
  rintro ⟨l, hl, hplain⟩
  rcases hend with hnil | hend
  · rw [h.nodes_eq_nil hnil] at hl
    cases hl
  · obtain ⟨t, ht, hclosed, hstop⟩ := hend.exists_mem
    have hlast := h.getLast?_of_stop (List.mem_filter.mp ht).1 (by rw [hstop, Nat.zero_add])
    rw [hlast] at hl
    obtain rfl := Option.some.inj hl
    exact hclosed hplain

/-- Blanks among the roots of two texts are dropped from each. -/
theorem dropRootBlanks_append (nodes nodes' : List Token) :
    dropRootBlanks (nodes ++ nodes') = dropRootBlanks nodes ++ dropRootBlanks nodes' :=
  List.filter_append nodes nodes'

/-- Reading goes on behind a text that does not end in plain text. -/
theorem Reads.readOn_behind {limit : Nat} {a : List Char} {nodes : List Token}
    (h : Reads limit 0 0 a nodes) (hend : ¬EndsInText nodes) (b : List Char) :
    readOn limit [] [] ⟨0, a ++ b⟩ =
      readOn limit [] nodes.reverse ((⟨0, b⟩ : Cursor).shift (byteSize a)) := by
  have hread := h.readOn_append [] rfl [] b fun hends => absurd hends hend
  rw [List.append_nil] at hread
  exact hread

/-- Behind a template that is empty or ends closed, another is read as it is read alone: to the
entries of both where it has a document, and to its error where it has none. -/
theorem Document.ofText_append {a b : List Char} {limit : Nat} {d : Document}
    (ha : Document.ofText a limit = .ok d) (hend : a = [] ∨ d.EndsClosed (byteSize a)) :
    (∀ d', Document.ofText b limit = .ok d' →
      Document.ofText (a ++ b) limit = .ok (d.append (d'.move (· + byteSize a)))) ∧
    (∀ e, Document.ofText b limit = .error e →
      ∃ e', Document.ofText (a ++ b) limit = .error e' ∧
        e'.diagnostic = e.diagnostic.move (· + byteSize a)) := by
  obtain ⟨nodes, hreads, rfl⟩ := Document.ofText_eq_ok_iff.mp ha
  have hbehind := hreads.readOn_behind (hreads.not_endsInText hend) b
  constructor
  · intro d' hb
    obtain ⟨nodes', hreads', rfl⟩ := Document.ofText_eq_ok_iff.mp hb
    have hread := readOn_shift limit (byteSize a) ⟨0, b⟩
    rw [readOn_eq_ok_iff.mpr ⟨nodes', hreads', rfl⟩] at hread
    obtain ⟨moved, hmoved, hroots⟩ := readOn_eq_ok_iff.mp hread
    have happend : readOn limit [] nodes.reverse ((⟨0, b⟩ : Cursor).shift (byteSize a)) =
        .ok (dropRootBlanks nodes ++ (dropRootBlanks nodes').map (Token.move (· + byteSize a))) := by
      refine readOn_eq_ok_iff.mpr ⟨moved, hmoved, ?_⟩
      rw [List.reverse_reverse, dropRootBlanks_append]
      exact congrArg _ hroots
    rw [Document.ofText_eq_map, hbehind, happend, ← Document.ofNodes_shift,
      ← Document.ofNodes_append]
    rfl
  · intro e hb
    rw [Document.ofText_eq_error_iff] at hb
    have hread := readOn_shift limit (byteSize a) ⟨0, b⟩
    rw [hb] at hread
    refine ⟨e.move (· + byteSize a), ?_, TemplateError.diagnostic_move _ e⟩
    rw [Document.ofText_eq_error_iff, hbehind]
    exact growTree_error rfl hread

private def frontSource : List Char := "<style>a{}</style><p>\né</p> {x}".toList

/-- Behind a text that ends with a program, another text is read as alone, to a document or to an
error. -/
theorem Document.ofText_append_program :
    ∃ d, Document.ofText frontSource 1 = .ok d ∧ d.EndsClosed (byteSize frontSource) ∧
      (∃ d', Document.ofText "y<b/>".toList 1 = .ok d' ∧
        Document.ofText (frontSource ++ "y<b/>".toList) 1 =
          .ok (d.append (d'.move (· + byteSize frontSource)))) ∧
      ∃ e e', Document.ofText "y<i></b>".toList 1 = .error e ∧
        Document.ofText (frontSource ++ "y<i></b>".toList) 1 = .error e' ∧
        e'.diagnostic = e.diagnostic.move (· + byteSize frontSource) := by
  have hfront : (Document.ofText frontSource 1).toOption.any (fun d =>
      d.markup.any fun t => t.program?.any fun p => p.span.stop = byteSize frontSource) = true := by
    decide +kernel
  have hbehind : (Document.ofText "y<b/>".toList 1).toOption.any (fun _ => true) = true := by
    decide +kernel
  have herror : (Document.ofText "y<i></b>".toList 1).isOk = false := by decide +kernel
  obtain ⟨d, hd, hprogram⟩ := Document.exists_of_any hfront
  obtain ⟨d', hd', -⟩ := Document.exists_of_any hbehind
  have hend : d.EndsClosed (byteSize frontSource) := by
    obtain ⟨t, ht, hstop⟩ := List.any_eq_true.mp hprogram
    cases t with
    | program p => exact .program ht (of_decide_eq_true hstop)
    | literal | identifier | object | property | array | element | importDeclaration => cases hstop
  refine ⟨d, hd, hend, ⟨d', hd', (Document.ofText_append hd (Or.inr hend)).1 d' hd'⟩, ?_⟩
  cases he : Document.ofText "y<i></b>".toList 1 with
  | ok d' =>
    rw [he] at herror
    cases herror
  | error e =>
    obtain ⟨e', he', hdiagnostic⟩ := (Document.ofText_append hd (Or.inr hend)).2 e he
    exact ⟨e, e', rfl, he', hdiagnostic⟩

end TemplateReader
