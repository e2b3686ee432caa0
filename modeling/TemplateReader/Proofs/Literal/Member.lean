import TemplateReader.Proofs.Literal.Leaf
import TemplateReader.Proofs.Offset.Passes

/-!
# Members of arrays and objects

The members of a container are described for any kind of member: a relation
between an offset, a text and what is read there. A reader that is sound and
complete for such a relation gives a reader of whole containers that is. What may
stand between members is ASCII whitespace and single commas.
-/

namespace TemplateReader

/-- Whitespace of ASCII, or nothing. -/
def IsGap (text : List Char) : Prop := ∀ c ∈ text, isSpace c = true

instance (text : List Char) : Decidable (IsGap text) :=
  decidable_of_iff (text.all isSpace = true) List.all_eq_true

/-- The closing brackets of containers. -/
def IsClosing (c : Char) : Prop := c = ']' ∨ c = '}'

/-- What a value may begin with. -/
def IsValueStart (c : Char) : Prop :=
  isWordStart c = true ∨ c = '-' ∨ c.isDigit = true ∨ isTagQuote c = true ∨ c = '{' ∨ c = '['

/-- A key is a name, reserved or not, or a string. -/
inductive KeyText : List Char → String → Prop
  | word {x : List Char} (hword : IsWord x) : KeyText x (String.ofList x)
  | string {quote : Char} {body value : List Char} {escape : Bool}
    (hquote : isTagQuote quote = true) (h : SpellsString quote body value escape) :
    KeyText (quote :: (body ++ [quote])) (String.ofList value)

/-- A property: a key, a colon and a value, with gaps between them. -/
inductive PropertyText (R : Nat → List Char → Token → Prop) : Nat → List Char → Property → Prop
  | mk {k : Nat} {key gap gap' x : List Char} {name : String} {t : Token}
    (hkey : KeyText key name) (hgap : IsGap gap) (hgap' : IsGap gap')
    (hvalue : R (k + byteSize (key ++ gap ++ ':' :: gap')) x t) :
    PropertyText R k (key ++ gap ++ ':' :: gap' ++ x) (.plain ⟨name, ⟨k, k + byteSize key⟩⟩ t)

/-- Members separated by commas, with gaps behind members and commas, and the closing bracket. -/
inductive MembersText {α : Type} (closing : Char) (R : Nat → List Char → α → Prop) :
    Nat → List Char → List α → Prop
  | close {k : Nat} : MembersText closing R k [closing] []
  | last {k : Nat} {x gap : List Char} {a : α} (hx : R k x a) (hgap : IsGap gap) :
    MembersText closing R k (x ++ gap ++ [closing]) [a]
  | more {k : Nat} {x gap gap' others : List Char} {a : α} {as : List α} (hx : R k x a)
    (hgap : IsGap gap) (hgap' : IsGap gap')
    (h : MembersText closing R (k + byteSize (x ++ gap ++ ',' :: gap')) others as) :
    MembersText closing R k (x ++ gap ++ ',' :: gap' ++ others) (a :: as)

/-- An array or an object with its brackets. -/
inductive ContainerText (R : Nat → List Char → Token → Prop) : Nat → List Char → Token → Prop
  | array {k : Nat} {gap members : List Char} {elements : List Token} (hgap : IsGap gap)
    (h : MembersText ']' R (k + byteSize ('[' :: gap)) members elements) :
    ContainerText R k ('[' :: gap ++ members)
      (.array elements ⟨k, k + byteSize ('[' :: gap ++ members)⟩)
  | object {k : Nat} {gap members : List Char} {properties : List Property} (hgap : IsGap gap)
    (h : MembersText '}' (PropertyText R) (k + byteSize ('{' :: gap)) members properties) :
    ContainerText R k ('{' :: gap ++ members)
      (.object ⟨properties, ⟨k, k + byteSize ('{' :: gap ++ members)⟩⟩)

/-- A reader of values that finds what a relation describes, and all of it that is ended. -/
structure ReadsValue (value : Cursor → Option Token) (R : Nat → List Char → Token → Prop) :
    Prop where
  /-- A value begins like one. -/
  head {k : Nat} {x : List Char} {t : Token} : R k x t → BeginsWith IsValueStart x
  /-- A value spans its text. -/
  span {k : Nat} {x : List Char} {t : Token} : R k x t → t.span = ⟨k, k + byteSize x⟩
  /-- Nothing else is found. -/
  sound {c : Cursor} {t : Token} : value c = some t → ∃ x d, c.Passes x d ∧ R c.offset x t
  /-- All of it is found. -/
  complete {c d : Cursor} {x : List Char} {t : Token} :
    c.Passes x d → R c.offset x t → EndsValue d.rest → value c = some t

/-- A reader of members that finds what a relation describes, and all of it that is ended. -/
structure ReadsMember {α : Type} (member : (c : Cursor) → Option (α × LaterCursor c))
    (R : Nat → List Char → α → Prop) : Prop where
  /-- A member begins like a value. -/
  head {k : Nat} {x : List Char} {a : α} : R k x a → BeginsWith IsValueStart x
  /-- Nothing else is found. -/
  sound {c : Cursor} {a : α} {d : LaterCursor c} :
    member c = some (a, d) → ∃ x, c.Passes x d ∧ R c.offset x a
  /-- All of it is found. -/
  complete {c d : Cursor} {x : List Char} {a : α} :
    c.Passes x d → R c.offset x a → EndsValue d.rest → ∃ hlt, member c = some (a, ⟨d, hlt⟩)

section

variable {c d e : Cursor} {x y rest : List Char}

/-- A value ends in front of a character that can go on none. -/
theorem EndsValue.cons {ch : Char} (h : isWordChar ch = false ∧ ch ≠ '.') (rest : List Char) :
    EndsValue (ch :: rest) := by
  rintro c ⟨⟩
  exact h

/-- A value ends in front of blanks behind which one ends. -/
theorem IsGap.endsValue_append {gap : List Char} (hgap : IsGap gap) (h : EndsValue rest) :
    EndsValue (gap ++ rest) := by
  cases gap with
  | nil => exact h
  | cons ch gap =>
    refine .cons ?_ _
    have hch := hgap ch List.mem_cons_self
    simp only [isSpace, Bool.or_eq_true, decide_eq_true_eq] at hch
    rcases hch with (((rfl | rfl) | rfl) | rfl) | rfl <;> exact ⟨rfl, by decide⟩

/-- A value ends in front of a closing bracket. -/
theorem IsClosing.endsValue {closing : Char} (h : IsClosing closing) (rest : List Char) :
    EndsValue (closing :: rest) := by
  rcases h with rfl | rfl <;> exact .cons ⟨rfl, by decide⟩ rest

/-- A closing bracket is no comma. -/
theorem IsClosing.ne_comma {closing : Char} (h : IsClosing closing) : closing ≠ ',' := by
  rcases h with rfl | rfl <;> decide

/-- A closing bracket is no blank. -/
theorem IsClosing.isSpace_eq_false {closing : Char} (h : IsClosing closing) :
    isSpace closing = false := by
  rcases h with rfl | rfl <;> rfl

/-- The characters that values begin with lie between the exclamation mark and the opening brace,
the closing bracket aside. -/
theorem IsValueStart.toNat {ch : Char} (h : IsValueStart ch) :
    0x21 ≤ ch.toNat ∧ ch.toNat ≤ 0x7b ∧ ch.toNat ≠ 0x5d := by
  simp only [IsValueStart, isWordStart, isAlpha_iff, Char.isDigit_iff_toNat, Bool.or_eq_true,
    decide_eq_true_eq, isTagQuote_iff, Char.reduceToNat] at h
  rcases h with ((h | rfl) | rfl) | rfl | h | (rfl | rfl) | rfl | rfl
  · omega
  any_goals decide
  · omega

/-- A value does not begin with a blank. -/
theorem IsValueStart.isBlankChar_eq_false {ch : Char} (h : IsValueStart ch) :
    isBlankChar ch = false := by
  obtain ⟨hlow, hhigh, -⟩ := h.toNat
  simp only [isBlankChar, Bool.or_eq_false_iff, Bool.and_eq_false_iff, decide_eq_false_iff_not]
  omega

/-- The characters that values begin with are no blanks. -/
theorem IsValueStart.isSpace_eq_false {ch : Char} (h : IsValueStart ch) : isSpace ch = false := by
  rw [Bool.eq_false_iff]
  intro hspace
  have hblank := h.isBlankChar_eq_false
  rw [isBlankChar_of_isSpace hspace] at hblank
  cases hblank

/-- A value does not begin with a closing bracket. -/
theorem IsValueStart.not_isClosing {ch : Char} (h : IsValueStart ch) : ¬IsClosing ch := by
  obtain ⟨-, hhigh, hne⟩ := h.toNat
  rintro (rfl | rfl)
  · exact hne rfl
  · exact absurd hhigh (by decide)

/-- What begins with something is not empty. -/
theorem BeginsWith.ne_nil {p : Char → Prop} (h : BeginsWith p x) : x ≠ [] := by
  rintro rfl
  obtain ⟨ch, hch, -⟩ := h
  cases hch

/-- In front of a value stand no blanks. -/
theorem BeginsWith.isSpace_eq_false (h : BeginsWith IsValueStart x) (rest : List Char) :
    ∀ ch ∈ (x ++ rest).head?, isSpace ch = false := by
  intro ch hch
  obtain ⟨ch', hch', hstart⟩ := h.append rest
  obtain rfl := Option.some.inj (hch.symm.trans hch')
  exact hstart.isSpace_eq_false

namespace Cursor

/-- Skipping whitespace passes a gap. -/
theorem exists_gap_passes (c : Cursor) : ∃ gap, IsGap gap ∧ c.Passes gap (c.skipWhile isSpace) :=
  ⟨c.rest.takeWhile isSpace, fun _ hch => List.all_eq_true.mp List.all_takeWhile _ hch,
    List.takeWhile_append_dropWhile.symm, rfl⟩

/-- Behind blanks a cursor that skips them stands where they end. -/
theorem Passes.skipWhile_isSpace (h : c.Passes x d) (hx : IsGap x)
    (hd : ∀ ch ∈ d.rest.head?, isSpace ch = false) : c.skipWhile isSpace = d := by
  obtain ⟨htake, hdrop⟩ := takeWhile_append_of_ends hx hd
  have hskip : c.Passes x (c.skipWhile isSpace) := by
    constructor
    · rw [skipWhile, advance, h.rest, hdrop]
    · rw [skipWhile, advance, h.rest, htake]
  exact hskip.eq h

/-- A cursor jumps to the end of a stretch that it passes. -/
theorem Passes.jump? (h : c.Passes x d) (hne : x ≠ []) :
    c.jump? (c.offset + byteSize x) = some d := by
  have hpos := byteSize_pos hne
  rw [Cursor.jump?, if_pos (by omega), Nat.add_sub_cancel_left, h.rest, splitBytes?_append,
    ← h.offset]
  rfl

end Cursor

/-- A value behind which the cursor can jump is an element. -/
theorem element?_eq_some {value : Cursor → Option Token} {t : Token} (hv : value c = some t)
    (hjump : c.jump? t.span.stop = some d) : ∃ hlt, element? value c = some (t, ⟨d, hlt⟩) := by
  refine ⟨Cursor.length_lt_of_jump? hjump, ?_⟩
  simp only [element?, hv, Option.bind_eq_bind, Option.bind_some]
  split
  · next hnone =>
    rw [hjump] at hnone
    cases hnone
  · next after hsome =>
    obtain rfl := Option.some.inj (hjump.symm.trans hsome)
    rfl

/-- A value is read with the cursor behind it. -/
theorem ReadsValue.readsMember {value : Cursor → Option Token}
    {R : Nat → List Char → Token → Prop} (h : ReadsValue value R) :
    ReadsMember (element? value) R where
  head := h.head
  sound := by
    intro c t d hd
    simp only [element?, Option.bind_eq_bind, Option.bind_eq_some_iff] at hd
    obtain ⟨v, hv, hd⟩ := hd
    split at hd
    · cases hd
    · next after hjump =>
      simp only [Option.some.injEq, Prod.mk.injEq] at hd
      obtain ⟨rfl, rfl⟩ := hd
      obtain ⟨x, e, hpasses, hx⟩ := h.sound hv
      rw [h.span hx, hpasses.jump? (h.head hx).ne_nil] at hjump
      obtain rfl := Option.some.inj hjump
      exact ⟨x, hpasses, hx⟩
  complete := by
    intro c d x t hpasses hx hrest
    apply element?_eq_some (h.complete hpasses hx hrest)
    rw [h.span hx]
    exact hpasses.jump? (h.head hx).ne_nil

/-- A key begins as a value may. -/
theorem KeyText.head {key : List Char} {name : String} (h : KeyText key name) :
    BeginsWith IsValueStart key := by
  cases h with
  | word hword =>
    obtain ⟨ch, hch, hstart⟩ := hword.1
    exact ⟨ch, hch, Or.inl hstart⟩
  | string hquote h => exact ⟨_, rfl, Or.inr (Or.inr (Or.inr (Or.inl hquote)))⟩

/-- A key is read where it is written. -/
theorem exists_of_key? {s : Scope} {key : Identifier} (h : key? s c = some key) :
    ∃ x d, c.Passes x d ∧ KeyText x key.name ∧ key.span = ⟨c.offset, c.offset + byteSize x⟩ := by
  unfold key? at h
  split at h
  · next hname =>
    obtain rfl := Option.some.inj h
    obtain ⟨x, rest, hc, hword, -, rfl⟩ := identifier?_eq_some_iff.mp hname
    obtain ⟨d, hpasses, -⟩ := Cursor.exists_passes hc
    exact ⟨x, d, hpasses, .word hword, rfl⟩
  · split at h
    · next hstring =>
      obtain rfl := Option.some.inj h
      obtain ⟨quote, body, value, escape, rest, hquote, hspells, hc, ht⟩ :=
        string_eq_some_iff.mp hstring
      simp only [scalarToken, Token.literal.injEq, Literal.mk.injEq, Scalar.string.injEq] at ht
      obtain ⟨rfl, -, -, rfl⟩ := ht
      obtain ⟨d, hpasses, -⟩ := Cursor.exists_passes hc
      exact ⟨_, d, hpasses, .string hquote hspells, rfl⟩
    · cases h

/-- Every key is read, unless a word goes on behind it. -/
theorem KeyText.key? {s : Scope} {name : String} (h : KeyText x name) (hpasses : c.Passes x d)
    (hrest : EndsValue d.rest) :
    TemplateReader.key? s c = some ⟨name, ⟨c.offset, c.offset + byteSize x⟩⟩ := by
  unfold TemplateReader.key?
  cases h with
  | word hword =>
    rw [identifier?_eq_some_iff.mpr
      ⟨x, d.rest, hpasses.rest, hword, fun ch hch => (hrest ch hch).1, rfl⟩]
  | @string quote body value escape hquote h =>
    have hname : identifier? c = none := by
      rw [identifier?, hpasses.rest]
      refine if_neg ?_
      rcases isTagQuote_iff.mp hquote with rfl | rfl <;> decide
    rw [hname, string_eq_some_iff.mpr
      ⟨quote, body, value, escape, d.rest, hquote, h, hpasses.rest, rfl⟩]
    rfl

/-- A property is read from a key, a colon and a value. -/
theorem exists_of_member? {s : Scope} {value : Cursor → Option Token} {p : Property}
    {d : LaterCursor c} (h : member? s value c = some (p, d)) :
    ∃ key afterKey text v after, key? s c = some key ∧ c.jump? key.span.stop = some afterKey ∧
      (afterKey.skipWhile isSpace).rest = ':' :: text ∧
      element? value (((afterKey.skipWhile isSpace).advance [':'] text).skipWhile isSpace) =
        some (v, after) ∧
      p = .plain key v ∧ d.1 = after.1 := by
  simp only [member?, Option.bind_eq_bind, Option.bind_eq_some_iff] at h
  obtain ⟨key, hkey, h⟩ := h
  split at h
  · cases h
  next afterKey hjump =>
  split at h
  · cases h
  next ch text hcolon =>
  split at h
  · next hch =>
    obtain ⟨⟨v, after⟩, hv, h⟩ := Option.bind_eq_some_iff.mp h
    simp only [Option.some.injEq, Prod.mk.injEq] at h
    obtain ⟨rfl, rfl⟩ := h
    subst hch
    exact ⟨key, afterKey, text, v, after, hkey, hjump, hcolon, hv, rfl, rfl⟩
  · cases h

/-- What follows the colon behind a key is further on. -/
theorem length_lt_behind_colon {stop : Nat} {afterKey : Cursor} {text : List Char}
    (hjump : c.jump? stop = some afterKey)
    (hcolon : (afterKey.skipWhile isSpace).rest = ':' :: text) :
    (((afterKey.skipWhile isSpace).advance [':'] text).skipWhile isSpace).rest.length <
      c.rest.length := by
  have h₁ := Cursor.length_lt_of_jump? hjump
  have h₂ := afterKey.length_skipWhile_le isSpace
  have h₃ := ((afterKey.skipWhile isSpace).advance [':'] text).length_skipWhile_le isSpace
  have h₄ : ((afterKey.skipWhile isSpace).advance [':'] text).rest.length = text.length := rfl
  rw [hcolon, List.length_cons] at h₂
  omega

/-- A key, a colon and a value behind it make up a property. -/
theorem member?_eq_some {s : Scope} {value : Cursor → Option Token} {key : Identifier}
    {afterKey start after : Cursor} {text : List Char} {v : Token} {hafter}
    (hkey : key? s c = some key) (hjump : c.jump? key.span.stop = some afterKey)
    (hcolon : (afterKey.skipWhile isSpace).rest = ':' :: text)
    (hstart : ((afterKey.skipWhile isSpace).advance [':'] text).skipWhile isSpace = start)
    (hv : element? value start = some (v, ⟨after, hafter⟩)) :
    ∃ hlt, member? s value c = some (.plain key v, ⟨after, hlt⟩) := by
  subst hstart
  have hlt := Nat.lt_trans hafter (length_lt_behind_colon hjump hcolon)
  refine ⟨hlt, ?_⟩
  simp only [member?, hkey, Option.bind_eq_bind, Option.bind_some]
  split
  · next hnone =>
    rw [hjump] at hnone
    cases hnone
  next afterKey' hjump' =>
  obtain rfl := Option.some.inj (hjump.symm.trans hjump')
  split
  · next hnil =>
    rw [hcolon] at hnil
    cases hnil
  next ch text' hcolon' =>
  obtain ⟨rfl, rfl⟩ := List.cons.inj (hcolon.symm.trans hcolon')
  rw [if_pos rfl, hv]
  rfl

/-- A property is read where its key, a colon and its value are. -/
theorem ReadsValue.readsMember_property {s : Scope} {value : Cursor → Option Token}
    {R : Nat → List Char → Token → Prop} (h : ReadsValue value R) :
    ReadsMember (member? s value) (PropertyText R) where
  head := by
    intro k x p hp
    cases hp with
    | mk hkey =>
      simp only [List.append_assoc]
      exact hkey.head.append _
  sound := by
    intro c p d hp
    obtain ⟨key, afterKey, text, v, after, hkey, hjump, hcolon, hv, rfl, hd⟩ :=
      exists_of_member? hp
    obtain ⟨x, afterKey', hpasses, hx, hspan⟩ := exists_of_key? hkey
    rw [hspan, hpasses.jump? hx.head.ne_nil] at hjump
    obtain rfl := Option.some.inj hjump
    obtain ⟨gap, hgap, hgapPasses⟩ := afterKey'.exists_gap_passes
    have hcolonPasses := Cursor.passes_advance hcolon
    obtain ⟨gap', hgap', hgapPasses'⟩ :=
      ((afterKey'.skipWhile isSpace).advance [':'] text).exists_gap_passes
    obtain ⟨y, hvaluePasses, hy⟩ := h.readsMember.sound hv
    have hstart := (hpasses.trans hgapPasses).trans (hcolonPasses.trans hgapPasses')
    rw [List.singleton_append] at hstart
    obtain ⟨name, span⟩ := key
    obtain rfl := hspan
    rw [hstart.offset] at hy
    rw [← hd] at hvaluePasses
    exact ⟨_, hstart.trans hvaluePasses, .mk hx hgap hgap' hy⟩
  complete := by
    intro c d x p hpasses hp hrest
    cases hp with
    | @mk key gap gap' x name t hkey hgap hgap' hvalue =>
      have hc := hpasses.rest
      simp only [List.append_assoc, List.cons_append] at hc
      obtain ⟨afterKey, hafterKey, hafterKeyRest⟩ := Cursor.exists_passes hc
      obtain ⟨colon, hcolon, hcolonRest⟩ := Cursor.exists_passes hafterKeyRest
      have hcolonPasses := Cursor.passes_advance hcolonRest
      obtain ⟨start, hstart, hstartRest⟩ :=
        Cursor.exists_passes (c := colon.advance [':'] _) (x := gap') rfl
      have hpasses' := (hafterKey.trans hcolon).trans (hcolonPasses.trans hstart)
      rw [List.singleton_append] at hpasses'
      obtain ⟨after, hafter, -⟩ := Cursor.exists_passes hstartRest
      have hd : after = d := (hpasses'.trans hafter).eq hpasses
      subst hd
      have hgapPasses : afterKey.skipWhile isSpace = colon := by
        refine hcolon.skipWhile_isSpace hgap ?_
        rw [hcolonRest]
        rintro ch ⟨⟩
        rfl
      have hgapPasses' := hstart.skipWhile_isSpace hgap' (by
        rw [hstartRest]
        exact (h.head hvalue).isSpace_eq_false _)
      have hends : EndsValue afterKey.rest := by
        rw [hafterKeyRest]
        exact hgap.endsValue_append (.cons ⟨rfl, by decide⟩ _)
      rw [← hgapPasses] at hcolonRest hgapPasses'
      rw [← hpasses'.offset] at hvalue
      obtain ⟨hlt, helement⟩ := h.readsMember.complete hafter hvalue hrest
      exact member?_eq_some (hkey.key? hafterKey hends) (hafterKey.jump? hkey.head.ne_nil)
        hcolonRest hgapPasses' helement

variable {α : Type} {closing : Char} {member : (c : Cursor) → Option (α × LaterCursor c)}
  {R : Nat → List Char → α → Prop}

/-- Every member of a container has a text of its own. -/
theorem MembersText.exists_of_mem {k : Nat} {members : List Char} {as : List α}
    (h : MembersText closing R k members as) {a : α} (ha : a ∈ as) : ∃ k x, R k x a := by
  induction h with
  | close => cases ha
  | last hx =>
    obtain rfl := List.mem_singleton.mp ha
    exact ⟨_, _, hx⟩
  | more hx _ _ _ ih =>
    rcases List.mem_cons.mp ha with rfl | ha
    · exact ⟨_, _, hx⟩
    · exact ih ha

/-- The members of a container end with the closing bracket. -/
theorem MembersText.exists_append {k : Nat} {members : List Char} {as : List α}
    (h : MembersText closing R k members as) : ∃ front, members = front ++ [closing] := by
  induction h with
  | close => exact ⟨[], rfl⟩
  | last => exact ⟨_, rfl⟩
  | more _ _ _ _ ih =>
    obtain ⟨front, rfl⟩ := ih
    exact ⟨_, (List.append_assoc ..).symm⟩

/-- Before the members of a container no whitespace is left. -/
theorem MembersText.isSpace_eq_false (hclosing : IsClosing closing) (hmember : ReadsMember member R)
    {k : Nat} {members : List Char} {as : List α} (h : MembersText closing R k members as)
    (rest : List Char) : ∀ ch ∈ (members ++ rest).head?, isSpace ch = false := by
  cases h with
  | close =>
    rintro ch ⟨⟩
    exact hclosing.isSpace_eq_false
  | last hx =>
    simp only [List.append_assoc]
    exact (hmember.head hx).isSpace_eq_false _
  | more hx =>
    simp only [List.append_assoc]
    exact (hmember.head hx).isSpace_eq_false _

/-- What the members of a container are read from. -/
theorem exists_of_readMembers (hmember : ReadsMember member R) {as : List α}
    (h : readMembers closing member c = some (as, d)) :
    ∃ x, c.Passes x d ∧ MembersText closing R c.offset x as := by
  fun_induction readMembers closing member c generalizing as d with
  | case1 => cases h
  | case2 c text hc =>
    simp only [Option.some.injEq, Prod.mk.injEq] at h
    obtain ⟨rfl, rfl⟩ := h
    exact ⟨[closing], Cursor.passes_advance hc, .close⟩
  | case3 => cases h
  | case4 => cases h
  | case5 c ch text hc hch first after hlt hfirst next tail hcomma =>
    rename_i ih
    obtain ⟨⟨others, last⟩, hothers, heq⟩ := Option.map_eq_some_iff.mp h
    simp only [Prod.mk.injEq] at heq
    obtain ⟨rfl, rfl⟩ := heq
    obtain ⟨x, hpasses, hx⟩ := hmember.sound hfirst
    obtain ⟨gap, hgap, hnext⟩ := after.exists_gap_passes
    obtain ⟨gap', hgap', hstart⟩ :=
      ((after.skipWhile isSpace).advance [','] tail).exists_gap_passes
    obtain ⟨y, hlast, hy⟩ := ih hothers
    have hseparated := (hpasses.trans hnext).trans ((Cursor.passes_advance hcomma).trans hstart)
    rw [List.singleton_append] at hseparated
    rw [hseparated.offset] at hy
    exact ⟨_, hseparated.trans hlast, .more hx hgap hgap' hy⟩
  | case6 c ch text hc hch first after hlt hfirst next tail hclose =>
    simp only [Option.some.injEq, Prod.mk.injEq] at h
    obtain ⟨rfl, rfl⟩ := h
    obtain ⟨x, hpasses, hx⟩ := hmember.sound hfirst
    obtain ⟨gap, hgap, hnext⟩ := after.exists_gap_passes
    exact ⟨_, (hpasses.trans hnext).trans (Cursor.passes_advance hclose), .last hx hgap⟩
  | case7 => cases h

private theorem readMembers_close {text : List Char} (hc : c.rest = closing :: text) :
    readMembers closing member c = some ([], c.advance [closing] text) := by
  rw [readMembers.eq_def]
  split
  · next hnil => rw [hc] at hnil; cases hnil
  · next ch text' hcons =>
    obtain ⟨rfl, rfl⟩ := List.cons.inj (hc.symm.trans hcons)
    exact if_pos rfl

private theorem readMembers_of_member {ch : Char} {text : List Char} {first : α} {after : Cursor}
    {hlt} (hc : c.rest = ch :: text) (hch : ch ≠ closing)
    (hfirst : member c = some (first, ⟨after, hlt⟩)) {ch' : Char} {text' : List Char}
    (hnext : (after.skipWhile isSpace).rest = ch' :: text') :
    readMembers closing member c =
      if ch' = ',' then
        (readMembers closing member
          (((after.skipWhile isSpace).advance [ch'] text').skipWhile isSpace)).map
            fun (others, last) => (first :: others, last)
      else if ch' = closing then
        some ([first], (after.skipWhile isSpace).advance [ch'] text')
      else none := by
  rw [readMembers.eq_def]
  split
  · next hnil => rw [hc] at hnil; cases hnil
  next ch₁ text₁ hcons =>
  obtain ⟨rfl, rfl⟩ := List.cons.inj (hc.symm.trans hcons)
  rw [if_neg hch, hfirst]
  dsimp only
  split
  · next hnil => rw [hnext] at hnil; cases hnil
  next ch₂ text₂ hcons =>
  obtain ⟨rfl, rfl⟩ := List.cons.inj (hnext.symm.trans hcons)
  rfl

private theorem exists_ne_closing (hclosing : IsClosing closing) (h : BeginsWith IsValueStart x)
    (hc : c.rest = x ++ rest) : ∃ ch text, c.rest = ch :: text ∧ ch ≠ closing := by
  obtain ⟨ch, hch, hstart⟩ := h.append rest
  rw [← hc] at hch
  obtain ⟨text, hc⟩ := List.head?_eq_some_iff.mp hch
  refine ⟨ch, text, hc, ?_⟩
  rintro rfl
  exact hstart.not_isClosing hclosing

/-- The members of a container are read from what they are written as, whatever follows. -/
theorem MembersText.readMembers (hclosing : IsClosing closing) (hmember : ReadsMember member R)
    {as : List α} (hpasses : c.Passes x d) (h : MembersText closing R c.offset x as) :
    TemplateReader.readMembers closing member c = some (as, d) := by
  generalize hk : c.offset = k at h
  induction h generalizing c with
  | close =>
    have hc := hpasses.rest
    rw [readMembers_close hc]
    rw [(Cursor.passes_advance hc).eq hpasses]
  | @last k x gap a hx hgap =>
    subst hk
    have hrest := hpasses.rest
    simp only [List.append_assoc, List.singleton_append] at hrest
    obtain ⟨ch, text, hc, hch⟩ := exists_ne_closing hclosing (hmember.head hx) hrest
    obtain ⟨after, hafter, hafterRest⟩ := Cursor.exists_passes hrest
    obtain ⟨next, hnext, hnextRest⟩ := Cursor.exists_passes hafterRest
    have hends : EndsValue after.rest := by
      rw [hafterRest]
      exact hgap.endsValue_append (hclosing.endsValue _)
    have hskip := hnext.skipWhile_isSpace hgap (by
      rw [hnextRest]
      rintro ch ⟨⟩
      exact hclosing.isSpace_eq_false)
    have hlast := (hafter.trans hnext).trans (Cursor.passes_advance hnextRest)
    obtain ⟨hlt, hfirst⟩ := hmember.complete hafter hx hends
    rw [← hskip] at hnextRest
    rw [readMembers_of_member hc hch hfirst hnextRest, if_neg hclosing.ne_comma, if_pos rfl, hskip,
      hlast.eq hpasses]
  | @more k x gap gap' others a as hx hgap hgap' h ih =>
    subst hk
    have hrest := hpasses.rest
    simp only [List.append_assoc, List.cons_append] at hrest
    obtain ⟨ch, text, hc, hch⟩ := exists_ne_closing hclosing (hmember.head hx) hrest
    obtain ⟨after, hafter, hafterRest⟩ := Cursor.exists_passes hrest
    obtain ⟨next, hnext, hnextRest⟩ := Cursor.exists_passes hafterRest
    obtain ⟨start, hstart, hstartRest⟩ :=
      Cursor.exists_passes (c := next.advance [','] (gap' ++ (others ++ d.rest))) rfl
    have hends : EndsValue after.rest := by
      rw [hafterRest]
      exact hgap.endsValue_append (.cons ⟨rfl, by decide⟩ _)
    have hskip := hnext.skipWhile_isSpace hgap (by
      rw [hnextRest]
      rintro ch ⟨⟩
      rfl)
    have hskip' := hstart.skipWhile_isSpace hgap' (by
      rw [hstartRest]
      exact h.isSpace_eq_false hclosing hmember _)
    have hseparated := (hafter.trans hnext).trans ((Cursor.passes_advance hnextRest).trans hstart)
    rw [List.singleton_append] at hseparated
    obtain ⟨last, hlast, -⟩ := Cursor.exists_passes hstartRest
    have hd : last = d := (hseparated.trans hlast).eq hpasses
    subst hd
    obtain ⟨hlt, hfirst⟩ := hmember.complete hafter hx hends
    rw [← hskip] at hnextRest hskip'
    rw [readMembers_of_member hc hch hfirst hnextRest, if_pos rfl, hskip',
      ih hlast hseparated.offset]
    rfl

end

end TemplateReader
