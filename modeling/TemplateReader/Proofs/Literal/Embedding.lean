import TemplateReader.Proofs.Literal.Balance
import TemplateReader.Proofs.Markup.RoundTrip

/-!
# Literals in templates

An expression of a template is kept as text and evaluated later, as a literal of
its own. A text that is one literal comes through this unchanged: as the value of an
attribute and as the content of an element its braces enclose exactly it, and the
trimmed text that the template keeps has the value that the text itself has.
-/

namespace TemplateReader

/-- The attributes of an entry that is an element or the block of one. -/
def RootEntry.attributes? : RootEntry → Option Object
  | .component e => some e.attributes
  | .script block _ => some block.attributes
  | .style block => some block.attributes
  | .markup t => t.element?.map Element.attributes

/-- The entry of an element keeps its attributes. -/
theorem rootEntry_attributes (e : Element) :
    (Token.element e).rootEntry.attributes? = some e.attributes := by
  have h := (Token.element e).rootEntry_isOf
  cases hentry : (Token.element e).rootEntry with
  | component e' =>
    rw [hentry] at h
    cases h
    rfl
  | script block imports =>
    rw [hentry] at h
    obtain ⟨e', he, rfl, -⟩ := h
    cases he
    rfl
  | style block =>
    rw [hentry] at h
    obtain ⟨e', he, rfl⟩ := h
    cases he
    rfl
  | markup t =>
    rw [hentry] at h
    cases h
    rfl

/-- An expression holds a text: trimmed, and with the value of the text. -/
def Program.Holds (p : Program) (d : List Char) (references : Option Fields) : Prop :=
  p.source = String.ofList (trim d) ∧
    evaluateText p.source.toList references = evaluateText d references

section

variable {d : List Char} {references : Option Fields}

/-- A text that does not fail as a whole is one literal. -/
theorem exists_literalToken (h : ∀ e, evaluateText d references ≠ .error (.grammar e)) :
    ∃ t, literalToken d = .ok t := by
  cases ht : literalToken d with
  | ok t => exact ⟨t, rfl⟩
  | error e =>
    refine absurd ?_ (h e)
    rw [evaluateText, ht]

/-- A trimmed literal has the value of the literal. -/
theorem holds_of_literalToken {t : Token} (ht : literalToken d = .ok t) (span : Span) :
    Program.Holds ⟨String.ofList (trim d), span⟩ d references := by
  refine ⟨rfl, ?_⟩
  rw [String.toList_ofList, evaluateText, literalToken_trim ht, evaluateText, ht]

/-- The value of the only attribute in braces is found under its key. -/
theorem get?_objectAt_braced (key d : List Char) (start : Nat) :
    (Markup.objectAt start [.braced key d]).get? (String.ofList key) =
      some ((Markup.Attribute.braced key d).property (start + 1)) := by
  simp [Object.get?, Markup.objectAt, Markup.propertiesAt, Markup.Attribute.property]

/-- A document read from the print of one element has the entry of the element alone. -/
theorem ofText_print {node : Markup.Node} (h : node.WellFormed) {limit : Nat}
    (hlimit : node.nesting ≤ limit) :
    Document.ofText node.print limit =
      .ok (Document.ofNodes (Markup.tokensAt 0 [node])) := by
  have hnodes : Markup.WellFormedNodes [node] := by
    rw [Markup.WellFormedNodes]
    exact ⟨h, fun _ => nofun, trivial⟩
  have hnesting : 0 + Markup.nestingOf [node] ≤ limit := by
    rw [Markup.nestingOf, Markup.nestingOf]
    omega
  have hreads := hnodes.reads 0 0 hnesting
  rw [Markup.printNodes, Markup.printNodes, List.append_nil] at hreads
  refine Document.ofText_eq_ok_iff.mpr ⟨_, hreads, ?_⟩
  rw [Markup.dropRootBlanks_tokensAt hnodes]

end

/-- A text that is one literal, in whatever table it is looked up, survives as the value of an
attribute and as the content of an element. -/
theorem evaluateText_embedded {d name key : List Char} {references : Option Fields}
    {limit : Nat} (hd : ∀ e, evaluateText d references ≠ .error (.grammar e))
    (hname : Markup.IsElementName name) (hkey : Markup.IsAttributeName key) :
    (∃ entry attributes property p,
      Document.ofText ('<' :: name ++ ' ' :: key ++ ['=', '{'] ++ d ++ ['}', ' ', '/', '>'])
        limit = .ok (RootEntry.document entry) ∧
      entry.attributes? = some attributes ∧
      attributes.get? (String.ofList key) = some property ∧
      property.value = .program p ∧ p.Holds d references) ∧
    (isVoidElement name = false → isRawTextElement name = false → 0 < limit →
      ∃ e p,
        Document.ofText ('<' :: name ++ ['>', '{'] ++ d ++ ['}', '<', '/'] ++ name ++ ['>'])
          limit = .ok (RootEntry.document (.markup (.element e))) ∧
        e.name = String.ofList name ∧ e.children = [.program p] ∧ p.Holds d references) := by
  obtain ⟨t, ht⟩ := exists_literalToken hd
  have hbraces := fillsBraces_of_literalToken ht
  constructor
  · have hwell : (Markup.Node.selfClosing name [.braced key d]).WellFormed := by
      rw [Markup.Node.WellFormed]
      exact ⟨hname, List.forall_mem_singleton.mpr ⟨hkey, hbraces⟩⟩
    have hread := ofText_print hwell (Nat.zero_le limit)
    have hprint : (Markup.Node.selfClosing name [.braced key d]).print =
        '<' :: name ++ ' ' :: key ++ ['=', '{'] ++ d ++ ['}', ' ', '/', '>'] := by
      simp [Markup.Node.print, Markup.printAttributes, Markup.Attribute.print, tagText]
    rw [hprint, Markup.tokensAt, Markup.tokensAt, Document.ofNodes_singleton, Markup.Node.token]
      at hread
    exact ⟨_, _, _, _, hread, rootEntry_attributes _, get?_objectAt_braced key d _, rfl,
      holds_of_literalToken ht _⟩
  · intro hvoid hraw hlimit
    have hwell : (Markup.Node.element name [] [.program d]).WellFormed := by
      rw [Markup.Node.WellFormed, Markup.WellFormedNodes, Markup.WellFormedNodes,
        Markup.Node.WellFormed]
      exact ⟨hname, hvoid, hraw, List.forall_mem_nil _, hbraces,
        fun htext => absurd htext Bool.false_ne_true, trivial⟩
    have hread := ofText_print hwell hlimit
    have hprint : (Markup.Node.element name [] [.program d]).print =
        '<' :: name ++ ['>', '{'] ++ d ++ ['}', '<', '/'] ++ name ++ ['>'] := by
      simp [Markup.Node.print, Markup.printNodes, Markup.printAttributes, tagText]
    rw [hprint, Markup.tokensAt, Markup.tokensAt, Document.ofNodes_singleton, Markup.Node.token,
      Token.rootEntry, Element.rootEntry_eq_markup] at hread
    · exact ⟨_, _, hread, rfl, rfl, holds_of_literalToken ht _⟩
    · rwa [String.toList_ofList]
    · rwa [String.toList_ofList]

/-- An object with a quoted brace, evaluated with a table that lacks one of its names. -/
theorem evaluateText_embedded_sample :
    (∃ entry attributes property p,
      Document.ofText "<b k=\x7b\x7b'\x7d': [n]\x7d \x7d />".toList 1 =
        .ok (RootEntry.document entry) ∧
      entry.attributes? = some attributes ∧ attributes.get? "k" = some property ∧
      property.value = .program p ∧ p.Holds "\x7b'\x7d': [n]\x7d ".toList (some [])) ∧
    ∃ e p,
      Document.ofText "<b>\x7b\x7b'\x7d': [n]\x7d \x7d</b>".toList 1 =
        .ok (RootEntry.document (.markup (.element e))) ∧
      e.name = "b" ∧ e.children = [.program p] ∧
      p.Holds "\x7b'\x7d': [n]\x7d ".toList (some []) := by
  have hdata : (match evaluateText "\x7b'\x7d': [n]\x7d ".toList (some []) with
      | .error (.data _) => true
      | _ => false) = true := by
    decide +kernel
  have hd : ∀ e, evaluateText "\x7b'\x7d': [n]\x7d ".toList (some []) ≠ .error (.grammar e) := by
    intro e he
    rw [he] at hdata
    cases hdata
  have hname : Markup.IsElementName ['b'] := ⟨'b', [], rfl, rfl, nofun⟩
  have hkey : Markup.IsAttributeName ['k'] :=
    ⟨List.cons_ne_nil _ _, List.forall_mem_singleton.mpr rfl⟩
  exact (evaluateText_embedded hd hname hkey).imp_right fun hcontent =>
    hcontent (by decide +kernel) (by decide +kernel) Nat.one_pos

end TemplateReader
