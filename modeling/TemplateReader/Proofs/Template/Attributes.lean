import TemplateReader.Proofs.Markup.Tags
import TemplateReader.Proofs.Offset.Passes

/-!
# Attributes and their texts

What stands in a tag behind its name is a sequence of attributes, with
characters between them that belong to none. `AttributeText k rest x p` says
that `x`, in front of `rest`, is one attribute, and which property it is at
offset `k`; `AttributesText` says so of the whole sequence. Every attribute that
is read is one of these, so what is proved of the texts holds of every tag.
-/

namespace TemplateReader

open Markup (IsAttributeName isAttributeNameChar_iff)

/-- A value without quotes or braces in front of the rest of a tag: it goes on up to whitespace or
the end of the tag, and is empty only at the end. -/
structure IsBareValue (value rest : List Char) : Prop where
  clear : ∀ c ∈ value, isSpace c = false
  opens : ∀ c ∈ value.head?, isTagQuote c = false ∧ c ≠ '{'
  ends : ∀ c ∈ rest.head?, isSpace c = true ∧ value ≠ []

/-- The text of a value in front of the rest of a tag, and the token that it is at offset `k`. -/
inductive ValueText (k : Nat) (rest : List Char) : List Char → Token → Prop
  | quoted {quote : Char} {inner : List Char} (hquote : isTagQuote quote = true)
    (hinner : FillsQuote quote inner) :
    ValueText k rest (quote :: inner ++ [quote])
      (.literal ⟨.string (String.ofList inner), String.ofList (quote :: inner ++ [quote]), false,
        ⟨k, k + byteSize (quote :: inner ++ [quote])⟩⟩)
  | braced {inner : List Char} (hinner : FillsBraces inner) :
    ValueText k rest ('{' :: inner ++ ['}'])
      (.program ⟨String.ofList (trim inner), ⟨k, k + byteSize ('{' :: inner ++ ['}'])⟩⟩)
  | bare {value : List Char} (hvalue : IsBareValue value rest) :
    ValueText k rest value (.literal (.ofText k value))

/-- What may follow a name that has no value: no more of the name, and no `=` behind whitespace. -/
structure EndsFlag (rest : List Char) : Prop where
  name : ∀ c ∈ rest.head?, isAttributeNameChar c = false
  equals : ∀ c ∈ (rest.dropWhile isSpace).head?, c ≠ '='

/-- The text of an attribute in front of the rest of a tag, and its property at offset `k`. -/
inductive AttributeText (k : Nat) (rest : List Char) : List Char → Property → Prop
  | braced {inner : List Char} (hinner : FillsBraces inner) :
    AttributeText k rest ('{' :: inner ++ ['}'])
      (bracedAttribute ⟨k, k + byteSize ('{' :: inner ++ ['}'])⟩ inner)
  | flag {name : List Char} (hname : IsAttributeName name) (hrest : EndsFlag rest) :
    AttributeText k rest name
      (.plain ⟨String.ofList name, ⟨k, k + byteSize name⟩⟩
        (.literal ⟨.boolean true, String.ofList name, false, ⟨k, k + byteSize name⟩⟩))
  | valued {name before after value : List Char} {token : Token} (hname : IsAttributeName name)
    (hbefore : ∀ c ∈ before, isSpace c = true) (hafter : ∀ c ∈ after, isSpace c = true)
    (hvalue : ValueText (k + byteSize (name ++ (before ++ '=' :: after))) rest value token) :
    AttributeText k rest (name ++ (before ++ '=' :: after) ++ value)
      (.plain ⟨String.ofList name, ⟨k, k + byteSize name⟩⟩ token)

/-- A character that may stand between attributes: ASCII whitespace or a delimiter that begins no
attribute. -/
def isBetween (c : Char) : Bool :=
  isSpace c || c = '=' || isTagQuote c || c = '}' || c = '<' || c = '>' || c = '/'

/-- The text of a tag behind its name, and the properties of its attributes at offset `k`. -/
inductive AttributesText : Nat → List Char → List Property → Prop
  | nil {k : Nat} : AttributesText k [] []
  | skip {k : Nat} {c : Char} {rest : List Char} {properties : List Property}
    (hc : isBetween c = true) (hrest : AttributesText (k + byteSize [c]) rest properties) :
    AttributesText k (c :: rest) properties
  | cons {k : Nat} {x rest : List Char} {p : Property} {properties : List Property}
    (hx : AttributeText k rest x p) (hrest : AttributesText (k + byteSize x) rest properties) :
    AttributesText k (x ++ rest) (p :: properties)

section

variable {k : Nat} {x rest : List Char} {p : Property}

/-- The attribute object of a tag has the properties that were read. -/
theorem attributeObject_properties {nameEnd : Nat} {properties : List Property} :
    (attributeObject nameEnd properties).properties = properties := by
  unfold attributeObject
  split <;> rfl

/-- An attribute in braces spans what it is given. -/
theorem bracedAttribute_span (span : Span) (inner : List Char) :
    (bracedAttribute span inner).span = span := by
  unfold bracedAttribute
  dsimp only
  split <;> rfl

/-- The span of the value of an attribute is that of its text. -/
theorem ValueText.span_eq {value : Token} (h : ValueText k rest x value) :
    value.span = ⟨k, k + byteSize x⟩ := by
  cases h <;> rfl

/-- The span of an attribute is that of its text. -/
theorem AttributeText.span_eq (h : AttributeText k rest x p) : p.span = ⟨k, k + byteSize x⟩ := by
  cases h with
  | braced => exact bracedAttribute_span _ _
  | flag => rfl
  | valued hname hbefore hafter hvalue =>
    simp only [Property.plain, hvalue.span_eq, byteSize_append, Nat.add_assoc]

/-- The text of an attribute is not empty. -/
theorem AttributeText.ne_nil (h : AttributeText k rest x p) : x ≠ [] := by
  cases h with
  | braced => exact List.cons_ne_nil _ _
  | flag hname => exact hname.1
  | valued hname =>
    intro hnil
    simp only [List.append_eq_nil_iff] at hnil
    exact hname.1 hnil.1.1

end

/-- What is read of the one attribute that begins at a cursor, a braced or a named one. -/
inductive ReadsAttribute (c : Cursor) (result : Except TemplateError (Property × Cursor)) : Prop
  | braced {text : List Char} (hc : c.rest = '{' :: text) (hread : readBraced c text = result) :
    ReadsAttribute c result
  | named {ch : Char} {text : List Char} (hc : c.rest = ch :: text)
    (hch : isAttributeNameChar ch = true) (hread : readNamed c = result) : ReadsAttribute c result

/-- What is read of a tag from a cursor on: up to its end or its closing slash, over attributes and
over characters that begin none, or up to an attribute that cannot be read. -/
inductive ReadsAttributes : Cursor → Except TemplateError (List Property × Bool) → Prop
  | nil {c : Cursor} (hc : c.rest = []) : ReadsAttributes c (.ok ([], false))
  | slash {c : Cursor} (hc : c.rest = ['/']) : ReadsAttributes c (.ok ([], true))
  | skip {c : Cursor} {ch : Char} {text : List Char}
    {result : Except TemplateError (List Property × Bool)} (hc : c.rest = ch :: text)
    (hbrace : ch ≠ '{') (hname : ¬isAttributeNameChar ch = true) (hslash : ch = '/' → text ≠ [])
    (hrest : ReadsAttributes (c.advance [ch] text) result) : ReadsAttributes c result
  | refuse {c : Cursor} {e : TemplateError} (hread : ReadsAttribute c (.error e)) :
    ReadsAttributes c (.error e)
  | cons {c after : Cursor} {p : Property} {result : Except TemplateError (List Property × Bool)}
    (hread : ReadsAttribute c (.ok (p, after))) (hrest : ReadsAttributes after result) :
    ReadsAttributes c (result.map fun (properties, closing) => (p :: properties, closing))

section

variable {c d : Cursor} {text : List Char} {p : Property}

/-- Whitespace is passed over like every character that begins no attribute. -/
theorem ReadsAttributes.of_skipWhile {result : Except TemplateError (List Property × Bool)}
    (h : ReadsAttributes (c.skipWhile isSpace) result) : ReadsAttributes c result := by
  obtain ⟨k, text⟩ := c
  induction text generalizing k with
  | nil => exact h
  | cons ch text ih =>
    rw [Cursor.skipWhile, List.takeWhile_cons, List.dropWhile_cons] at h
    by_cases hspace : isSpace ch = true
    · refine .skip rfl ?_ ?_ ?_ (ih (k + byteSize [ch]) ?_)
      · rintro rfl
        cases hspace
      · intro hname
        rw [(isAttributeNameChar_iff.mp hname).1] at hspace
        cases hspace
      · rintro rfl
        cases hspace
      · rw [if_pos hspace, if_pos hspace] at h
        simpa only [Cursor.skipWhile, Cursor.advance, byteSize_cons, byteSize_nil, Nat.add_zero,
          Nat.add_assoc] using h
    · rwa [if_neg hspace, if_neg hspace] at h

/-- The attributes of a tag are read one behind the other. -/
theorem readsAttributes (c : Cursor) : ReadsAttributes c (readAttributes c) := by
  fun_induction readAttributes c with
  | case1 c start hs => exact .of_skipWhile (.nil hs)
  | case2 c start text e hread hs => exact .of_skipWhile (.refuse (.braced hs hread))
  | case3 c start text property after hread hs _ _ _ ih =>
    exact .of_skipWhile (.cons (.braced hs hread) ih)
  | case4 c start ch text hs _ _ hname e hread =>
    exact .of_skipWhile (.refuse (.named hs hname hread))
  | case5 c start ch text hs _ _ hname property after hread _ _ ih =>
    exact .of_skipWhile (.cons (.named hs hname hread) ih)
  | case6 c start ch text hs _ _ _ hslash =>
    rw [Bool.and_eq_true, decide_eq_true_iff, List.isEmpty_iff] at hslash
    obtain ⟨rfl, rfl⟩ := hslash
    exact .of_skipWhile (.slash hs)
  | case7 c start ch text hs _ hbrace hname hslash ih =>
    refine .of_skipWhile (.skip hs hbrace hname ?_ ih)
    rintro rfl rfl
    exact hslash rfl

/-- An attribute in braces is read as it is written. -/
theorem exists_of_readBraced (hc : c.rest = '{' :: text) (h : readBraced c text = .ok (p, d)) :
    ∃ x, c.Passes x d ∧ AttributeText c.offset d.rest x p := by
  unfold readBraced at h
  split at h
  · cases h
  · next inner rest hs =>
    simp only [Except.ok.injEq, Prod.mk.injEq] at h
    obtain ⟨rfl, rfl⟩ := h
    obtain ⟨rfl, hinner⟩ := splitBraces_eq_some_iff.mp hs
    have hpasses := Cursor.passes_delimited hc
    refine ⟨_, hpasses, ?_⟩
    rw [hpasses.spanTo_eq]
    exact .braced hinner

private theorem isBareValue_takeWhile {ch : Char} (hc : c.rest = ch :: text)
    (hspace : isSpace ch = false) (hquote : isTagQuote ch = false) (hbrace : ch ≠ '{') :
    IsBareValue (c.rest.takeWhile fun ch => !isSpace ch)
      (c.skipWhile fun ch => !isSpace ch).rest where
  clear := by
    intro ch' hch
    have hall := List.all_eq_true.mp List.all_takeWhile ch' hch
    rwa [Bool.not_eq_true'] at hall
  opens := by
    rw [hc, List.takeWhile_cons, hspace]
    rintro ch' ⟨⟩
    exact ⟨hquote, hbrace⟩
  ends := by
    intro ch' hch
    refine ⟨?_, ?_⟩
    · have hend := head?_dropWhile_eq_false _ _ ch' hch
      rwa [Bool.not_eq_false'] at hend
    · rw [hc, List.takeWhile_cons, hspace]
      exact List.cons_ne_nil _ _

/-- The value of an attribute is read as it is written. -/
theorem exists_of_readAttributeValue {value : Token} (hc : ∀ ch ∈ c.rest.head?, isSpace ch = false)
    (h : readAttributeValue c = .ok (value, d)) :
    ∃ x, c.Passes x d ∧ ValueText c.offset d.rest x value := by
  unfold readAttributeValue at h
  split at h
  · next hnil =>
    simp only [Except.ok.injEq, Prod.mk.injEq] at h
    obtain ⟨rfl, rfl⟩ := h
    refine ⟨[], .refl c, .bare ⟨List.forall_mem_nil _, ?_, ?_⟩⟩
    · rintro ch ⟨⟩
    · rw [hnil]
      rintro ch ⟨⟩
  · next ch text hrest =>
    split at h
    · next hquote =>
      split at h
      · cases h
      · next inner rest hs =>
        simp only [Except.ok.injEq, Prod.mk.injEq] at h
        obtain ⟨rfl, rfl⟩ := h
        obtain ⟨rfl, hinner⟩ := splitQuote_eq_some_iff.mp hs
        have hpasses := Cursor.passes_delimited hrest
        refine ⟨_, hpasses, ?_⟩
        rw [hpasses.spanTo_eq]
        exact .quoted hquote hinner
    · next hquote =>
      split at h
      · next hbrace =>
        subst hbrace
        split at h
        · cases h
        · next inner rest hs =>
          simp only [Except.ok.injEq, Prod.mk.injEq] at h
          obtain ⟨rfl, rfl⟩ := h
          obtain ⟨rfl, hinner⟩ := splitBraces_eq_some_iff.mp hs
          have hpasses := Cursor.passes_delimited hrest
          refine ⟨_, hpasses, ?_⟩
          rw [hpasses.spanTo_eq]
          exact .braced hinner
      · next hbrace =>
        simp only [Except.ok.injEq, Prod.mk.injEq] at h
        obtain ⟨rfl, rfl⟩ := h
        have hspace := hc ch (by rw [hrest]; rfl)
        rw [Bool.not_eq_true] at hquote
        exact ⟨_, c.passes_skipWhile _, .bare (isBareValue_takeWhile hrest hspace hquote hbrace)⟩

private theorem mem_takeWhile {q : Char → Bool} {run : List Char} :
    ∀ ch ∈ run.takeWhile q, q ch = true :=
  List.all_eq_true.mp List.all_takeWhile

/-- A value follows its name, whitespace, `=` and whitespace. -/
theorem exists_passes_to_value {after : List Char}
    (hequals : ((c.skipWhile isAttributeNameChar).skipWhile isSpace).rest = '=' :: after) :
    ∃ gap gap', (∀ ch ∈ gap, isSpace ch = true) ∧ (∀ ch ∈ gap', isSpace ch = true) ∧
      c.Passes (c.rest.takeWhile isAttributeNameChar ++ (gap ++ '=' :: gap'))
        ((((c.skipWhile isAttributeNameChar).skipWhile isSpace).advance ['='] after).skipWhile
          isSpace) := by
  have hbefore := (c.passes_skipWhile isAttributeNameChar).trans (Cursor.passes_skipWhile isSpace _)
  have hafter := (Cursor.passes_advance hequals).trans (Cursor.passes_skipWhile isSpace _)
  have hpasses := hbefore.trans hafter
  rw [List.append_assoc] at hpasses
  exact ⟨_, _, mem_takeWhile, mem_takeWhile, hpasses⟩

/-- An attribute with a name is read as it is written. -/
theorem exists_of_readNamed {ch : Char} (hc : c.rest = ch :: text)
    (hch : isAttributeNameChar ch = true) (h : readNamed c = .ok (p, d)) :
    ∃ x, c.Passes x d ∧ AttributeText c.offset d.rest x p := by
  have hname : IsAttributeName (c.rest.takeWhile isAttributeNameChar) := by
    refine ⟨?_, mem_takeWhile⟩
    rw [hc, List.takeWhile_cons, hch]
    exact List.cons_ne_nil _ _
  unfold readNamed at h
  dsimp only at h
  split at h
  · next after hequals =>
    split at h
    · next token d hvalue =>
      simp only [Except.ok.injEq, Prod.mk.injEq] at h
      obtain ⟨rfl, rfl⟩ := h
      obtain ⟨gap, gap', hgap, hgap', hfront⟩ := exists_passes_to_value hequals
      obtain ⟨x, hx, htext⟩ := exists_of_readAttributeValue (head?_dropWhile_eq_false _ _) hvalue
      rw [hfront.offset] at htext
      exact ⟨_, hfront.trans hx, .valued hname hgap hgap' htext⟩
    · cases h
  · next hequals =>
    simp only [Except.ok.injEq, Prod.mk.injEq] at h
    obtain ⟨rfl, rfl⟩ := h
    refine ⟨_, c.passes_skipWhile _, .flag hname ⟨head?_dropWhile_eq_false _ _, ?_⟩⟩
    rintro _ hhead rfl
    obtain ⟨after, hafter⟩ := List.head?_eq_some_iff.mp hhead
    exact hequals after hafter

/-- An attribute that is read is one in the text, which the cursor passes. -/
theorem ReadsAttribute.exists_text (h : ReadsAttribute c (.ok (p, d))) :
    ∃ x, c.Passes x d ∧ AttributeText c.offset d.rest x p := by
  cases h with
  | braced hc hread => exact exists_of_readBraced hc hread
  | named hc hch hread => exact exists_of_readNamed hc hch hread

/-- An attribute takes up text. -/
theorem ReadsAttribute.length_lt (h : ReadsAttribute c (.ok (p, d))) :
    d.rest.length < c.rest.length := by
  obtain ⟨x, hx, htext⟩ := h.exists_text
  have hpos := List.length_pos_iff.mpr htext.ne_nil
  rw [hx.rest, List.length_append]
  omega

/-- What begins no attribute stands between attributes. -/
theorem isBetween_of_not_begins {ch : Char} (hbrace : ch ≠ '{')
    (hname : ¬isAttributeNameChar ch = true) : isBetween ch = true := by
  rw [← Bool.not_eq_false]
  intro hbetween
  simp only [isBetween, Bool.or_eq_false_iff, decide_eq_false_iff_not, and_assoc] at hbetween
  obtain ⟨hspace, hequals, hquote, hclose, hless, hgreater, hslash⟩ := hbetween
  exact hname (isAttributeNameChar_iff.mpr
    ⟨hspace, hequals, hquote, hbrace, hclose, hless, hgreater, hslash⟩)

/-- The attributes that are read of a tag are those of its text. -/
theorem attributesText_of_readAttributes {properties : List Property} {closesItself : Bool}
    (h : readAttributes c = .ok (properties, closesItself)) :
    AttributesText c.offset c.rest properties := by
  have hreads := readsAttributes c
  generalize readAttributes c = result at h hreads
  induction hreads generalizing properties closesItself with
  | nil hc =>
    obtain ⟨rfl, -⟩ := Prod.mk.inj (Except.ok.inj h)
    rw [hc]
    exact .nil
  | slash hc =>
    obtain ⟨rfl, -⟩ := Prod.mk.inj (Except.ok.inj h)
    rw [hc]
    exact .skip rfl .nil
  | skip hc hbrace hname _ _ ih =>
    rw [hc]
    exact .skip (isBetween_of_not_begins hbrace hname) (ih h)
  | refuse => cases h
  | @cons c after property result hread _ ih =>
    cases result with
    | error e => cases h
    | ok r =>
      obtain ⟨rfl, -⟩ := Prod.mk.inj (Except.ok.inj h)
      obtain ⟨x, hx, htext⟩ := hread.exists_text
      rw [hx.rest]
      refine .cons htext ?_
      rw [← hx.offset]
      exact ih rfl

end

end TemplateReader
