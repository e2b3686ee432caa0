import TemplateReader.Grammar.Lexer
import TemplateReader.Proofs.Literal.Member

/-!
# Data literals

What a data literal is written as, by the depth to which arrays and objects may
nest. The grammar reads exactly these texts: at each level of nesting the rules of
containers ask the scope for their members, which are texts of one depth less. At
the limit only values without members are left.
-/

namespace TemplateReader

/-- A value in which arrays and objects are nested to a depth at most. -/
def DatumText : (depth : Nat) → Nat → List Char → Token → Prop
  | 0 => LeafText
  | depth + 1 => fun k x t => LeafText k x t ∨ ContainerText (DatumText depth) k x t

section

variable {s : Scope} {c d : Cursor} {k : Nat} {x : List Char} {t : Token}
  {R : Nat → List Char → Token → Prop}

/-- The text of a value without parts is that of a datum at any depth. -/
theorem DatumText.of_leaf {depth : Nat} (h : LeafText k x t) : DatumText depth k x t := by
  cases depth with
  | zero => exact h
  | succ depth => exact Or.inl h

/-- An array or an object begins with its bracket. -/
theorem ContainerText.head (h : ContainerText R k x t) :
    BeginsWith (fun ch => ch = '{' ∨ ch = '[') x := by
  cases h with
  | array => exact ⟨'[', rfl, Or.inr rfl⟩
  | object => exact ⟨'{', rfl, Or.inl rfl⟩

/-- The span of an array or an object is that of its text. -/
theorem ContainerText.span_eq (h : ContainerText R k x t) : t.span = ⟨k, k + byteSize x⟩ := by
  cases h with
  | array => rfl
  | object => rfl

section

variable {α : Type} {opening closing : Char} {member : (c : Cursor) → Option (α × LaterCursor c)}
  {Q : Nat → List Char → α → Prop} {text : List Char} {as : List α}

private theorem exists_of_brackets (hmember : ReadsMember member Q) (hc : c.rest = opening :: text)
    (h : readMembers closing member ((c.advance [opening] text).skipWhile isSpace) =
      some (as, d)) :
    ∃ gap members, IsGap gap ∧ c.Passes (opening :: gap ++ members) d ∧
      MembersText closing Q (c.offset + byteSize (opening :: gap)) members as := by
  obtain ⟨gap, hgap, hstart⟩ := (c.advance [opening] text).exists_gap_passes
  obtain ⟨members, hpasses, hx⟩ := exists_of_readMembers hmember h
  have hopening := (Cursor.passes_advance hc).trans hstart
  rw [List.singleton_append] at hopening
  rw [hopening.offset] at hx
  exact ⟨gap, members, hgap, hopening.trans hpasses, hx⟩

private theorem readMembers_of_brackets (hclosing : IsClosing closing)
    (hmember : ReadsMember member Q) {gap members : List Char} (hgap : IsGap gap)
    (hpasses : c.Passes (opening :: gap ++ members) d)
    (h : MembersText closing Q (c.offset + byteSize (opening :: gap)) members as) :
    ∃ text, c.rest = opening :: text ∧
      readMembers closing member ((c.advance [opening] text).skipWhile isSpace) = some (as, d) := by
  have hc : c.rest = opening :: (gap ++ (members ++ d.rest)) := by
    rw [hpasses.rest, List.append_assoc, List.cons_append]
  obtain ⟨start, hstart, hstartRest⟩ :=
    Cursor.exists_passes (c := c.advance [opening] (gap ++ (members ++ d.rest))) rfl
  have hopening := (Cursor.passes_advance hc).trans hstart
  rw [List.singleton_append] at hopening
  obtain ⟨after, hafter, -⟩ := Cursor.exists_passes hstartRest
  have hd : after = d := (hopening.trans hafter).eq hpasses
  subst hd
  have hskip := hstart.skipWhile_isSpace hgap (by
    rw [hstartRest]
    exact h.isSpace_eq_false hclosing hmember _)
  rw [← hopening.offset] at h
  exact ⟨_, hc, by rw [hskip, h.readMembers hclosing hmember hafter]⟩

end

/-- Below the limit of nesting, an object is read where it is written, whatever follows. -/
theorem object_eq_some_iff (hlevel : s.level < s.limit)
    (hvalue : ReadsValue (fun c => Scope.matchAt { s with level := s.level + 1 } c dataNames) R) :
    Rule.object s c = some t ↔
      ∃ o x d, t = .object o ∧ c.Passes x d ∧ ContainerText R c.offset x (.object o) := by
  have hmember := hvalue.readsMember_property (s := { s with level := s.level + 1 })
  constructor
  · intro h
    unfold Rule.object at h
    split at h
    · next text hc =>
      rw [Scope.nested, if_pos hlevel] at h
      simp only [Option.bind_eq_bind, Option.bind_eq_some_iff, Prod.exists] at h
      obtain ⟨properties, after, hmembers, ht⟩ := h
      obtain rfl := Option.some.inj ht
      obtain ⟨gap, members, hgap, hpasses, hx⟩ := exists_of_brackets hmember hc hmembers
      rw [hpasses.spanTo_eq]
      exact ⟨_, _, after, rfl, hpasses, .object hgap hx⟩
    · cases h
  · rintro ⟨o, x, d, rfl, hpasses, h⟩
    cases h with
    | object hgap h =>
      obtain ⟨text, hc, hread⟩ := readMembers_of_brackets (Or.inr rfl) hmember hgap hpasses h
      simp only [Rule.object, hc, Scope.nested, if_pos hlevel, hread, Option.bind_eq_bind,
        Option.bind_some, hpasses.spanTo_eq]

/-- Below the limit of nesting, an array is read where it is written, whatever follows. -/
theorem array_eq_some_iff (hlevel : s.level < s.limit)
    (hvalue : ReadsValue (fun c => Scope.matchAt { s with level := s.level + 1 } c dataNames) R) :
    Rule.array s c = some t ↔
      ∃ elements span x d, t = .array elements span ∧ c.Passes x d ∧
        ContainerText R c.offset x (.array elements span) := by
  have hmember := hvalue.readsMember
  constructor
  · intro h
    unfold Rule.array at h
    split at h
    · next text hc =>
      rw [Scope.nested, if_pos hlevel] at h
      simp only [Option.bind_eq_bind, Option.bind_eq_some_iff, Prod.exists] at h
      obtain ⟨elements, after, hmembers, ht⟩ := h
      obtain rfl := Option.some.inj ht
      obtain ⟨gap, members, hgap, hpasses, hx⟩ := exists_of_brackets hmember hc hmembers
      rw [hpasses.spanTo_eq]
      exact ⟨_, _, _, after, rfl, hpasses, .array hgap hx⟩
    · cases h
  · rintro ⟨elements, span, x, d, rfl, hpasses, h⟩
    cases h with
    | array hgap h =>
      obtain ⟨text, hc, hread⟩ := readMembers_of_brackets (Or.inl rfl) hmember hgap hpasses h
      simp only [Rule.array, hc, Scope.nested, if_pos hlevel, hread, Option.bind_eq_bind,
        Option.bind_some, hpasses.spanTo_eq]

/-- At the limit of nesting there are no containers. -/
theorem containerRule_eq_none {r : Rule} (hr : r = Rule.object ∨ r = Rule.array)
    (hlevel : ¬s.level < s.limit) : r s c = none := by
  rcases hr with rfl | rfl
  · unfold Rule.object Scope.nested
    split
    · rw [if_neg hlevel]
    · rfl
  · unfold Rule.array Scope.nested
    split
    · rw [if_neg hlevel]
    · rfl

/-- An array or an object is found only below the limit. -/
theorem level_lt_of_containerRule {r : Rule} (hr : r = Rule.object ∨ r = Rule.array)
    (h : r s c = some t) : s.level < s.limit := by
  by_contra hlevel
  rw [containerRule_eq_none hr hlevel] at h
  cases h

/-- A container is read from what containers are written as. -/
theorem exists_of_containerRule {r : Rule} (hr : r = Rule.object ∨ r = Rule.array)
    (hvalue : ReadsValue (fun c => Scope.matchAt { s with level := s.level + 1 } c dataNames) R)
    (h : r s c = some t) : ∃ x d, c.Passes x d ∧ ContainerText R c.offset x t := by
  have hlevel := level_lt_of_containerRule hr h
  rcases hr with rfl | rfl
  · obtain ⟨o, x, d, rfl, hpasses, hx⟩ := (object_eq_some_iff hlevel hvalue).mp h
    exact ⟨x, d, hpasses, hx⟩
  · obtain ⟨elements, span, x, d, rfl, hpasses, hx⟩ := (array_eq_some_iff hlevel hvalue).mp h
    exact ⟨x, d, hpasses, hx⟩

/-- Where a bracket opens, no scalar is read. -/
theorem scalarRules_eq_none (hopens : BeginsWith (fun ch => ch = '{' ∨ ch = '[') c.rest) :
    ∀ r ∈ [Rule.null, Rule.boolean, Rule.string, Rule.float, Rule.integer], r s c = none := by
  simp only [List.forall_mem_cons]
  refine ⟨eq_none_of_head head_of_null hopens ?_, eq_none_of_head head_of_boolean hopens ?_,
    eq_none_of_head head_of_string hopens ?_, eq_none_of_head head_of_float hopens ?_,
    eq_none_of_head head_of_integer hopens ?_, nofun⟩
  all_goals rintro ch (rfl | rfl) <;> decide

/-- A container is read as a value, below the limit of nesting. -/
theorem ContainerText.valueAt (hlevel : s.level < s.limit)
    (hvalue : ReadsValue (fun c => Scope.matchAt { s with level := s.level + 1 } c dataNames) R)
    (hpasses : c.Passes x d) (h : ContainerText R c.offset x t) :
    TemplateReader.valueAt s c = some t := by
  have hopens : BeginsWith (fun ch => ch = '{' ∨ ch = '[') c.rest := by
    rw [hpasses.rest]
    exact h.head.append d.rest
  have hleaves := scalarRules_eq_none (s := s) hopens
  have hempty : t.isEmpty = false := by
    have hpos := byteSize_pos h.head.ne_nil
    rw [Token.isEmpty, h.span_eq, Span.isEmpty, decide_eq_false_iff_not]
    dsimp only
    omega
  cases t with
  | object o =>
    have hobject := (object_eq_some_iff hlevel hvalue).mpr ⟨o, x, d, rfl, hpasses, h⟩
    exact valueAt_of_rule [Rule.null, Rule.boolean, Rule.string, Rule.float, Rule.integer] rfl
      hleaves hobject hempty
  | array elements span =>
    have harray := (array_eq_some_iff hlevel hvalue).mpr ⟨elements, span, x, d, rfl, hpasses, h⟩
    have hobject : Rule.object s c = none := by
      refine eq_none_of_head head_of_object (head_of_array harray) ?_
      rintro ch rfl
      decide
    refine valueAt_of_rule [Rule.null, Rule.boolean, Rule.string, Rule.float, Rule.integer,
      Rule.object] rfl ?_ harray hempty
    simp only [List.forall_mem_cons] at hleaves ⊢
    exact ⟨hleaves.1, hleaves.2.1, hleaves.2.2.1, hleaves.2.2.2.1, hleaves.2.2.2.2.1, hobject,
      List.forall_mem_nil _⟩
  | literal | identifier | property | program | element | importDeclaration => cases h

/-- A value without parts begins as a value may. -/
theorem LeafText.head (h : LeafText k x t) : BeginsWith IsValueStart x := by
  cases h with
  | scalar h =>
    cases h with
    | null => exact ⟨'n', rfl, Or.inl rfl⟩
    | true => exact ⟨'t', rfl, Or.inl rfl⟩
    | false => exact ⟨'f', rfl, Or.inl rfl⟩
    | string hquote => exact ⟨_, rfl, Or.inr (Or.inr (Or.inr (Or.inl hquote)))⟩
    | float hwhole =>
      obtain ⟨ch, hch, hstart⟩ := hwhole.head.append ('.' :: _)
      exact ⟨ch, hch, Or.inr (hstart.imp_right Or.inl)⟩
    | integer hdigits =>
      obtain ⟨ch, hch, hstart⟩ := hdigits.head
      exact ⟨ch, hch, Or.inr (hstart.imp_right Or.inl)⟩
  | name hword =>
    obtain ⟨ch, hch, hstart⟩ := hword.1
    exact ⟨ch, hch, Or.inl hstart⟩

/-- At the limit of nesting the values are the leaves. -/
theorem readsValue_leaf (hlevel : ¬s.level < s.limit) : ReadsValue (valueAt s) LeafText where
  head := LeafText.head
  span := LeafText.span_eq
  sound := by
    intro c t h
    rcases leafText_of_valueAt h with ⟨x, rest, hc, hx⟩ | h | h
    · obtain ⟨d, hpasses, -⟩ := Cursor.exists_passes hc
      exact ⟨x, d, hpasses, hx⟩
    · exact absurd (level_lt_of_containerRule (Or.inl rfl) h) hlevel
    · exact absurd (level_lt_of_containerRule (Or.inr rfl) h) hlevel
  complete := fun hpasses h hrest => h.valueAt hpasses.rest hrest

/-- Below the limit containers of the values one level deeper come to the leaves. -/
theorem readsValue_nested (hlevel : s.level < s.limit)
    (hvalue : ReadsValue (fun c => Scope.matchAt { s with level := s.level + 1 } c dataNames) R) :
    ReadsValue (valueAt s) (fun k x t => LeafText k x t ∨ ContainerText R k x t) where
  head := by
    rintro k x t (h | h)
    · exact h.head
    · obtain ⟨ch, hch, hstart⟩ := h.head
      exact ⟨ch, hch, Or.inr (Or.inr (Or.inr (Or.inr hstart)))⟩
  span := by
    rintro k x t (h | h)
    · exact h.span_eq
    · exact h.span_eq
  sound := by
    intro c t h
    rcases leafText_of_valueAt h with ⟨x, rest, hc, hx⟩ | h | h
    · obtain ⟨d, hpasses, -⟩ := Cursor.exists_passes hc
      exact ⟨x, d, hpasses, Or.inl hx⟩
    · obtain ⟨x, d, hpasses, hx⟩ := exists_of_containerRule (Or.inl rfl) hvalue h
      exact ⟨x, d, hpasses, Or.inr hx⟩
    · obtain ⟨x, d, hpasses, hx⟩ := exists_of_containerRule (Or.inr rfl) hvalue h
      exact ⟨x, d, hpasses, Or.inr hx⟩
  complete := by
    rintro c d x t hpasses (h | h) hrest
    · exact h.valueAt hpasses.rest hrest
    · exact h.valueAt hlevel hvalue hpasses

/-- The data literal at a cursor, some levels deep, for a lexer of a text that has got to an index. -/
def dataAt (text : List Char) (index fuel level : Nat) (c : Cursor) : Option Token :=
  (Registry.standard.matchWith Lexer.nestingLimit text index fuel level c dataNames).toOption.join

/-- The data literal at a cursor, some levels deep, under a limit of nesting. -/
def dataWithin (limit : Nat) (text : List Char) (index fuel level : Nat) (c : Cursor) :
    Option Token :=
  (Registry.standard.matchWith limit text index fuel level c dataNames).toOption.join

/-- The fuel of a lexer lasts for every level of nesting. -/
theorem lt_fuel (length : Nat) :
    Lexer.nestingLimit < Registry.standard.fuel Lexer.nestingLimit length := by
  have hsize : Registry.standard.size = 9 := rfl
  rw [Registry.fuel, hsize, Lexer.nestingLimit]
  omega

/-- With fuel for each level that is left, the grammar reads the literals that nest no deeper than the
limit lets them. -/
theorem readsValue_dataWithin (limit : Nat) (text : List Char) (index : Nat) {fuel level : Nat}
    (hfuel : limit - level < fuel) :
    ReadsValue (dataWithin limit text index fuel level) (DatumText (limit - level)) := by
  generalize hdepth : limit - level = depth at hfuel
  induction depth generalizing fuel level with
  | zero =>
    obtain ⟨fuel, rfl⟩ : ∃ f, fuel = f + 1 := ⟨fuel - 1, by omega⟩
    exact readsValue_leaf (s := ⟨text, index, level, limit, _⟩) (by dsimp only; omega)
  | succ depth ih =>
    obtain ⟨fuel, rfl⟩ : ∃ f, fuel = f + 1 := ⟨fuel - 1, by omega⟩
    have hinner : ReadsValue (dataWithin limit text index fuel (level + 1)) (DatumText depth) :=
      ih (by omega) (by omega)
    exact readsValue_nested (s := ⟨text, index, level, limit, _⟩) (by dsimp only; omega) hinner

/-- With fuel for each level that is left, the grammar reads the literals that nest as deep. -/
theorem readsValue_dataAt (text : List Char) (index : Nat) {fuel level depth : Nat}
    (hfuel : depth < fuel) (hlevel : level + depth = Lexer.nestingLimit) :
    ReadsValue (dataAt text index fuel level) (DatumText depth) := by
  obtain rfl : Lexer.nestingLimit - level = depth := by omega
  exact readsValue_dataWithin Lexer.nestingLimit text index hfuel

end

end TemplateReader
