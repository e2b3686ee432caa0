import TemplateReader.Proofs.Bytes.Grammar
import TemplateReader.Proofs.Template.Tiling
import TemplateReader.Token.Outline

/-!
# Data tokens and the text they span

Every token that the grammar of data literals matches tells of the text what
stands there, all the way down: a literal is written as its slice, a name is its
slice, and the members of a container lie one behind the other between its
brackets, with nothing but whitespace and commas around them. A property is a key
and, behind it, a value.
-/

namespace TemplateReader

/-- What may stand between the members of a container. -/
def IsSeparator (gap : List Char) : Prop := ∀ c ∈ gap, isSpace c = true ∨ c = ','

/-- An entry of an object has a key, which stands before the value, and spans both. -/
structure Property.IsEntry (source : List Char) (p : Property) (key : Identifier) : Prop where
  key_eq : p.key = some key
  form_eq : p.form = .plain
  span_eq : p.span = ⟨key.span.start, p.value.span.stop⟩
  start_lt : key.span.start < key.span.stop
  stop_lt : key.span.stop < p.value.span.start
  written : ∃ x, key.span.slice? source = some x ∧ KeyText x key.name

/-- A token of data stands in the source as it says, and so do all tokens in it. -/
inductive Token.IsExact (source : List Char) : Token → Prop
  | literal {l : Literal} (hraw : l.span.slice? source = some l.raw.toList) :
    IsExact source (.literal l)
  | identifier {i : Identifier} (hname : i.span.slice? source = some i.name.toList) :
    IsExact source (.identifier i)
  | array {elements : List Token} {span : Span} {inner : List Char}
    (hslice : span.slice? source = some ('[' :: inner ++ [']']))
    (htiled : Tiled IsSeparator (span.start + 1) (elements.map Token.span) inner)
    (helements : ∀ t ∈ elements, t.IsExact source) : IsExact source (.array elements span)
  | object {o : Object} {inner : List Char}
    (hslice : o.span.slice? source = some ('{' :: inner ++ ['}']))
    (htiled : Tiled IsSeparator (o.span.start + 1) (o.properties.map Property.span) inner)
    (hkeys : ∀ p ∈ o.properties, ∃ key, p.IsEntry source key)
    (hvalues : ∀ p ∈ o.properties, p.value.IsExact source) : IsExact source (.object o)
  | program {p : Program} {inner : List Char} (hinner : FillsBraces inner)
    (hslice : p.span.slice? source = some ('{' :: inner ++ ['}']))
    (hsource : p.source = String.ofList (trim inner)) : IsExact source (.program p)

section

variable {source x : List Char} {k : Nat} {t : Token} {R : Nat → List Char → Token → Prop}

/-- A value without parts is exact where the source has its text. -/
theorem LeafText.isExact (h : LeafText k x t)
    (hslice : Span.slice? ⟨k, k + byteSize x⟩ source = some x) : t.IsExact source := by
  cases h with
  | scalar =>
    apply Token.IsExact.literal
    rwa [String.toList_ofList]
  | name =>
    apply Token.IsExact.identifier
    rwa [String.toList_ofList]

/-- Blanks separate. -/
theorem IsGap.isSeparator {gap : List Char} (h : IsGap gap) : IsSeparator gap :=
  fun ch hch => Or.inl (h ch hch)

/-- Two separators one behind the other separate. -/
theorem IsSeparator.append {a b : List Char} (ha : IsSeparator a) (hb : IsSeparator b) :
    IsSeparator (a ++ b) :=
  List.forall_mem_append.mpr ⟨ha, hb⟩

/-- A comma between blanks separates. -/
theorem isSeparator_comma {gap gap' : List Char} (hgap : IsGap gap) (hgap' : IsGap gap') :
    IsSeparator (gap ++ ',' :: gap') := by
  have hcomma : IsSeparator [','] := List.forall_mem_singleton.mpr (Or.inr rfl)
  exact hgap.isSeparator.append (hcomma.append hgap'.isSeparator)

section

variable {α : Type} {closing : Char} {Q : Nat → List Char → α → Prop} {members : List Char}
  {as : List α}

/-- Members that span their texts lie one behind the other in front of the closing bracket. -/
theorem MembersText.exists_tiled (h : MembersText closing Q k members as) {span : α → Span}
    (hspan : ∀ {k : Nat} {x : List Char} {a : α}, Q k x a → span a = ⟨k, k + byteSize x⟩)
    (hne : ∀ {k : Nat} {x : List Char} {a : α}, Q k x a → x ≠ []) :
    ∃ inner, members = inner ++ [closing] ∧ Tiled IsSeparator k (as.map span) inner := by
  induction h with
  | close => exact ⟨[], rfl, .nil nofun⟩
  | @last k x gap a hx hgap =>
    refine ⟨x ++ gap, rfl, ?_⟩
    rw [List.map_singleton, hspan hx]
    exact @Tiled.cons _ k [] x gap _ nofun (hne hx) (.nil hgap.isSeparator)
  | @more k x gap gap' others a as hx hgap hgap' h ih =>
    obtain ⟨inner, rfl, htiled⟩ := ih
    have hrest : Tiled IsSeparator (k + byteSize x) (as.map span)
        ((gap ++ ',' :: gap') ++ inner) := by
      refine Tiled.append_gap (fun _ _ => IsSeparator.append) (isSeparator_comma hgap hgap') ?_
      rwa [List.append_assoc, byteSize_append, ← Nat.add_assoc] at htiled
    refine ⟨x ++ ((gap ++ ',' :: gap') ++ inner), by simp only [List.append_assoc], ?_⟩
    rw [List.map_cons, hspan hx]
    exact @Tiled.cons _ k [] x _ _ nofun (hne hx) hrest

/-- Every member of a container has a text of its own in the source. -/
theorem MembersText.exists_slice_of_mem (h : MembersText closing Q k members as)
    (hslice : Span.slice? ⟨k, k + byteSize members⟩ source = some members) {a : α} (ha : a ∈ as) :
    ∃ k x, Q k x a ∧ Span.slice? ⟨k, k + byteSize x⟩ source = some x := by
  induction h with
  | close => cases ha
  | @last k x gap b hx hgap =>
    obtain rfl := List.mem_singleton.mp ha
    have hparts : x ++ gap ++ [closing] = [] ++ (x ++ (gap ++ [closing])) := by
      rw [List.nil_append, List.append_assoc]
    exact ⟨k, x, hx, Span.slice?_part hslice hparts⟩
  | @more k x gap gap' others b as hx hgap hgap' h ih =>
    rcases List.mem_cons.mp ha with rfl | ha
    · have hparts : x ++ gap ++ ',' :: gap' ++ others =
          [] ++ (x ++ (gap ++ (',' :: gap' ++ others))) := by
        simp only [List.nil_append, List.append_assoc]
      exact ⟨k, x, hx, Span.slice?_part hslice hparts⟩
    · refine ih ?_ ha
      have hparts : x ++ gap ++ ',' :: gap' ++ others =
          (x ++ gap ++ ',' :: gap') ++ (others ++ []) := by
        rw [List.append_nil]
      exact Span.slice?_part hslice hparts

end

/-- The span of a property is that of its text. -/
theorem PropertyText.span_eq {p : Property}
    (hspan : ∀ {k : Nat} {x : List Char} {t : Token}, R k x t → t.span = ⟨k, k + byteSize x⟩)
    (h : PropertyText R k x p) : p.span = ⟨k, k + byteSize x⟩ := by
  cases h with
  | mk hkey hgap hgap' hvalue =>
    simp only [Property.plain, hspan hvalue, byteSize_append, Nat.add_assoc]

/-- A property is an entry of the source, with its key, where the source has its text. -/
theorem PropertyText.isEntry {p : Property}
    (hspan : ∀ {k : Nat} {x : List Char} {t : Token}, R k x t → t.span = ⟨k, k + byteSize x⟩)
    (h : PropertyText R k x p) (hslice : Span.slice? ⟨k, k + byteSize x⟩ source = some x) :
    ∃ key, p.IsEntry source key := by
  cases h with
  | @mk key gap gap' y name t hkey hgap hgap' hvalue =>
    have hparts : key ++ gap ++ ':' :: gap' ++ y = [] ++ (key ++ (gap ++ (':' :: gap' ++ y))) := by
      simp only [List.nil_append, List.append_assoc]
    have hpos := byteSize_pos hkey.head.ne_nil
    have hcolon : ':'.utf8Size = 1 := rfl
    refine ⟨_, rfl, rfl, rfl, ?_, ?_, key, Span.slice?_part hslice hparts, hkey⟩
    · exact Nat.lt_add_of_pos_right hpos
    · simp only [Property.plain, hspan hvalue, byteSize_append, byteSize_cons, hcolon]
      omega

/-- Where the source has the text of a property, it has that of the value. -/
theorem PropertyText.exists_value {p : Property} (h : PropertyText R k x p)
    (hslice : Span.slice? ⟨k, k + byteSize x⟩ source = some x) :
    ∃ k y, R k y p.value ∧ Span.slice? ⟨k, k + byteSize y⟩ source = some y := by
  cases h with
  | @mk key gap gap' y name t hkey hgap hgap' hvalue =>
    have hparts : key ++ gap ++ ':' :: gap' ++ y = (key ++ gap ++ ':' :: gap') ++ (y ++ []) := by
      rw [List.append_nil]
    exact ⟨_, y, hvalue, Span.slice?_part hslice hparts⟩

/-- The text of a property is not empty. -/
theorem PropertyText.ne_nil {p : Property} (h : PropertyText R k x p) : x ≠ [] := by
  cases h with
  | mk hkey =>
    simp only [List.append_assoc]
    exact List.append_ne_nil_of_left_ne_nil hkey.head.ne_nil _

section

variable {α : Type} {opening closing : Char} {Q : Nat → List Char → α → Prop}
  {gap members : List Char} {as : List α}

/-- Members that span their texts lie between the brackets of their container. -/
theorem MembersText.exists_inner
    (h : MembersText closing Q (k + byteSize (opening :: gap)) members as)
    (hopening : opening.utf8Size = 1) (hgap : IsGap gap) {span : α → Span}
    (hspan : ∀ {k : Nat} {x : List Char} {a : α}, Q k x a → span a = ⟨k, k + byteSize x⟩)
    (hne : ∀ {k : Nat} {x : List Char} {a : α}, Q k x a → x ≠ []) :
    ∃ inner, opening :: gap ++ members = opening :: inner ++ [closing] ∧
      Tiled IsSeparator (k + 1) (as.map span) inner := by
  obtain ⟨inner, rfl, htiled⟩ := h.exists_tiled hspan hne
  rw [byteSize_cons, hopening, ← Nat.add_assoc] at htiled
  refine ⟨gap ++ inner, ?_, htiled.append_gap (fun _ _ => IsSeparator.append) hgap.isSeparator⟩
  simp only [List.cons_append, List.append_assoc]

/-- Every member of a container has a text of its own between the brackets. -/
theorem MembersText.exists_slice_of_brackets
    (h : MembersText closing Q (k + byteSize (opening :: gap)) members as)
    (hslice : Span.slice? ⟨k, k + byteSize (opening :: gap ++ members)⟩ source =
      some (opening :: gap ++ members)) {a : α} (ha : a ∈ as) :
    ∃ k x, Q k x a ∧ Span.slice? ⟨k, k + byteSize x⟩ source = some x := by
  refine h.exists_slice_of_mem ?_ ha
  have hparts : opening :: gap ++ members = (opening :: gap) ++ (members ++ []) := by
    rw [List.append_nil]
  exact Span.slice?_part hslice hparts

end

/-- A container is exact if its values are, and if they span their texts. -/
theorem ContainerText.isExact
    (hne : ∀ {k : Nat} {x : List Char} {t : Token}, R k x t → x ≠ [])
    (hspan : ∀ {k : Nat} {x : List Char} {t : Token}, R k x t → t.span = ⟨k, k + byteSize x⟩)
    (hvalue : ∀ {k : Nat} {x : List Char} {t : Token}, R k x t →
      Span.slice? ⟨k, k + byteSize x⟩ source = some x → t.IsExact source)
    (h : ContainerText R k x t) (hslice : Span.slice? ⟨k, k + byteSize x⟩ source = some x) :
    t.IsExact source := by
  cases h with
  | @array gap members elements hgap h =>
    obtain ⟨inner, hinner, htiled⟩ := h.exists_inner rfl hgap hspan hne
    refine .array (by rw [hslice, hinner]) htiled ?_
    intro t ht
    obtain ⟨k, x, hx, hslice⟩ := h.exists_slice_of_brackets hslice ht
    exact hvalue hx hslice
  | @object gap members properties hgap h =>
    obtain ⟨inner, hinner, htiled⟩ :=
      h.exists_inner rfl hgap (PropertyText.span_eq hspan) PropertyText.ne_nil
    refine .object (by rw [hslice, hinner]) htiled ?_ ?_
    · intro p hp
      obtain ⟨k, x, hx, hslice⟩ := h.exists_slice_of_brackets hslice hp
      exact hx.isEntry hspan hslice
    · intro p hp
      obtain ⟨k, x, hx, hslice⟩ := h.exists_slice_of_brackets hslice hp
      obtain ⟨k, y, hy, hslice⟩ := hx.exists_value hslice
      exact hvalue hy hslice

/-- The text of a datum is not empty. -/
theorem DatumText.ne_nil {depth : Nat} (h : DatumText depth k x t) : x ≠ [] := by
  cases depth with
  | zero => exact (LeafText.head h).ne_nil
  | succ depth =>
    rcases h with h | h
    · exact h.head.ne_nil
    · exact h.head.ne_nil

/-- The span of a datum is that of its text. -/
theorem DatumText.span_eq {depth : Nat} (h : DatumText depth k x t) :
    t.span = ⟨k, k + byteSize x⟩ := by
  cases depth with
  | zero => exact LeafText.span_eq h
  | succ depth =>
    rcases h with h | h
    · exact h.span_eq
    · exact h.span_eq

/-- A value stands in the source as it says, if the source has its text where it begins. -/
theorem DatumText.isExact {depth : Nat} (h : DatumText depth k x t)
    (hslice : Span.slice? ⟨k, k + byteSize x⟩ source = some x) : t.IsExact source := by
  induction depth generalizing k x t with
  | zero => exact LeafText.isExact h hslice
  | succ depth ih =>
    rcases h with h | h
    · exact h.isExact hslice
    · exact h.isExact DatumText.ne_nil DatumText.span_eq ih hslice

end

section

variable {text x : List Char} {offset : Nat} {s : Scope} {t : Token}

/-- What a cursor of a text passes over is the slice from its offset, unless it is nothing. -/
theorem Cursor.Passes.slice?_eq {d : Cursor} (h : (Cursor.atOffset text offset).Passes x d)
    (hx : x ≠ []) : Span.slice? ⟨offset, offset + byteSize x⟩ text = some x := by
  obtain ⟨before, htext, rfl⟩ := Cursor.exists_of_passes h hx
  rw [htext]
  exact Span.slice?_append before x d.rest

/-- What a rule for scalars finds is exact. -/
theorem isExact_of_scalarRule {r : Rule}
    (hr : r ∈ [Rule.null, Rule.boolean, Rule.string, Rule.float, Rule.integer])
    (h : r s (.atOffset text offset) = some t) : t.IsExact text := by
  obtain ⟨x, rest, value, escape, hc, hspells, rfl⟩ := exists_of_scalarRule hr h
  obtain ⟨d, hpasses, -⟩ := Cursor.exists_passes hc
  have hleaf : LeafText offset x (scalarToken (.atOffset text offset) x value escape) :=
    .scalar hspells
  exact hleaf.isExact (hpasses.slice?_eq hleaf.head.ne_nil)

/-- What the rule for identifiers finds is exact. -/
theorem isExact_of_identifier (h : Rule.identifier s (.atOffset text offset) = some t) :
    t.IsExact text := by
  obtain ⟨i, hi, rfl⟩ := Option.map_eq_some_iff.mp h
  obtain ⟨x, rest, hc, hword, -, rfl⟩ := identifier?_eq_some_iff.mp hi
  obtain ⟨d, hpasses, -⟩ := Cursor.exists_passes hc
  apply Token.IsExact.identifier
  rw [String.toList_ofList]
  exact hpasses.slice?_eq hword.ne_nil

/-- What the rule for programs finds is exact. -/
theorem isExact_of_program (h : Rule.program s (.atOffset text offset) = some t) :
    t.IsExact text := by
  unfold Rule.program at h
  split at h
  · next text' hc =>
    obtain ⟨⟨inner, rest⟩, hsplit, rfl⟩ := Option.map_eq_some_iff.mp h
    obtain ⟨rfl, hinner⟩ := splitBraces_eq_some_iff.mp hsplit
    have hparts : (Cursor.atOffset text offset).rest = ('{' :: inner ++ ['}']) ++ rest := by
      simp only [hc, List.cons_append, List.append_assoc, List.nil_append]
    obtain ⟨d, hpasses, -⟩ := Cursor.exists_passes hparts
    have hsize : byteSize ('{' :: inner ++ ['}']) = byteSize inner + 2 := by
      have hopening : '{'.utf8Size = 1 := rfl
      have hclosing : '}'.utf8Size = 1 := rfl
      rw [byteSize_append, byteSize_cons, byteSize_cons, byteSize_nil, hopening, hclosing]
      omega
    have hslice := hpasses.slice?_eq (List.cons_ne_nil _ _)
    rw [hsize, ← Nat.add_assoc] at hslice
    exact .program hinner hslice rfl
  · cases h

/-- With fuel for every level of nesting, what the rules of containers find is exact. -/
theorem isExact_of_containerRule {r : Rule} (hr : r = Rule.object ∨ r = Rule.array)
    {index fuel level : Nat} (hfuel : Lexer.nestingLimit ≤ fuel)
    (h : r (Registry.standard.scope Lexer.nestingLimit text index fuel level)
      (.atOffset text offset) = some t) : t.IsExact text := by
  have hlevel : level < Lexer.nestingLimit := level_lt_of_containerRule hr h
  have hvalue : ReadsValue (dataWithin Lexer.nestingLimit text index fuel (level + 1))
      (DatumText (Lexer.nestingLimit - (level + 1))) :=
    readsValue_dataWithin Lexer.nestingLimit text index (by omega)
  obtain ⟨x, d, hpasses, hx⟩ := exists_of_containerRule
    (s := Registry.standard.scope Lexer.nestingLimit text index fuel level) hr hvalue h
  have hdatum : DatumText (Lexer.nestingLimit - (level + 1) + 1) offset x t := Or.inr hx
  exact hdatum.isExact (hpasses.slice?_eq hdatum.ne_nil)

/-- With fuel for every level of nesting, what the built-in rules find is exact. -/
theorem isExact_of_mem_builtIn {name : String} {r : Rule} (hr : (name, r) ∈ Rule.builtIn)
    {index fuel level : Nat} (hfuel : Lexer.nestingLimit ≤ fuel)
    (h : r (Registry.standard.scope Lexer.nestingLimit text index fuel level)
      (.atOffset text offset) = some t) : t.IsExact text := by
  simp only [Rule.builtIn, List.mem_cons, List.not_mem_nil, or_false, Prod.mk.injEq] at hr
  rcases hr with ⟨-, rfl⟩ | ⟨-, rfl⟩ | ⟨-, rfl⟩ | ⟨-, rfl⟩ | ⟨-, rfl⟩ | ⟨-, rfl⟩ | ⟨-, rfl⟩ |
    ⟨-, rfl⟩ | ⟨-, rfl⟩
  · exact isExact_of_scalarRule (by simp) h
  · exact isExact_of_scalarRule (by simp) h
  · exact isExact_of_scalarRule (by simp) h
  · exact isExact_of_scalarRule (by simp) h
  · exact isExact_of_scalarRule (by simp) h
  · exact isExact_of_identifier h
  · exact isExact_of_containerRule (Or.inl rfl) hfuel h
  · exact isExact_of_containerRule (Or.inr rfl) hfuel h
  · exact isExact_of_program h

end

/-- What a lexer for data literals matches is exact. -/
theorem Lexer.isExact_of_matchAt {l : Lexer} (hl : l.registry = .standard) {offset : Nat}
    {names : Option (List String)} {t : Token} (h : l.matchAt offset names = .ok (some t)) :
    t.IsExact l.text := by
  obtain ⟨registry, text, index, level⟩ := l
  obtain rfl := hl
  obtain ⟨fuel, hfuel, name, -, rule, hmem, hfound, -⟩ := Registry.exists_of_matchWith h
  have hlimit : Lexer.nestingLimit < fuel + 1 := hfuel ▸ lt_fuel text.length
  exact isExact_of_mem_builtIn hmem (Nat.le_of_lt_succ hlimit) hfound

/-- Matching data literals over the bytes of a text goes wrong nowhere, whatever the offset, and
comes to what a lexer of the text matches: nothing, or a token that begins at the offset, ends
behind it on a boundary, and is exact. -/
theorem Bytes.matchAt_exact (text : List Char) (index level offset : Nat)
    (names : Option (List String)) :
    ∃ found, Bytes.matchAt text level offset names = .ok found ∧
      (⟨.standard, text, index, level⟩ : Lexer).matchAt offset names = found ∧
      ∀ t, found = .ok (some t) →
        t.FitsAt text offset ∧ offset < t.span.stop ∧ t.IsExact text := by
  refine ⟨_, Bytes.matchAt_eq ⟨.standard, text, index, level⟩ rfl offset names, rfl, ?_⟩
  intro t ht
  obtain ⟨hfits, hne⟩ := Lexer.fitsAt_of_matchAt Registry.fits_standard ht
  refine ⟨hfits, ?_, Lexer.isExact_of_matchAt rfl ht⟩
  rw [Token.isEmpty, Span.isEmpty, decide_eq_false_iff_not, hfits.start] at hne
  exact Nat.lt_of_not_le hne

private def nestedLiteral : List Char := "[\x7b'ü': 'é'\x7d, x]".toList

/-- A literal with nested parts and blanks is exact throughout. -/
theorem Bytes.matchAt_exact_nested :
    ∃ t, Bytes.matchAt nestedLiteral 0 0 none = .ok (.ok (some t)) ∧
      (t.outline 0).map OutlineRow.span =
        [⟨0, 17⟩, ⟨1, 13⟩, ⟨2, 12⟩, ⟨2, 6⟩, ⟨8, 12⟩, ⟨15, 16⟩] ∧ t.IsExact nestedLiteral := by
  have hread : (Bytes.matchAt nestedLiteral 0 0 none).toOption.any (fun found =>
      found.toOption.any fun matched => matched.any fun t =>
        decide ((t.outline 0).map OutlineRow.span =
          [⟨0, 17⟩, ⟨1, 13⟩, ⟨2, 12⟩, ⟨2, 6⟩, ⟨8, 12⟩, ⟨15, 16⟩])) = true := by
    decide +kernel
  obtain ⟨found, hbytes, -, hexact⟩ := Bytes.matchAt_exact nestedLiteral 0 0 0 none
  rw [hbytes] at hread
  cases found with
  | error e => cases hread
  | ok matched =>
    cases matched with
    | none => cases hread
    | some t => exact ⟨t, hbytes, of_decide_eq_true hread, (hexact t rfl).2.2⟩

end TemplateReader
