import TemplateReader.Proofs.Grammar.Matching
import TemplateReader.Proofs.Literal.Exactness
import TemplateReader.Proofs.Literal.Height
import TemplateReader.Proofs.Literal.Whole
import TemplateReader.Proofs.Offset.Reading

/-!
# Literals on their own

What a literal is written as does not mention what stands around it, where it
begins or how deep it is nested. So the slice that a data token spans is a literal
at the start of its own text, whatever alternatives the grammar tried around it, and
its value is the value of the token.
-/

namespace TemplateReader

section

variable {k j : Nat} {x : List Char} {t : Token} {R : Nat → List Char → Token → Prop}

/-- A leaf `j` bytes later is one where it would stand without them. -/
theorem LeafText.exists_base (h : LeafText (k + j) x t) :
    ∃ base, LeafText k x base ∧ t = base.move (· + j) := by
  cases h with
  | scalar h =>
    refine ⟨_, .scalar h, ?_⟩
    rw [shiftedSpan_eq]
    rfl
  | name hword hname =>
    refine ⟨_, .name hword hname, ?_⟩
    rw [shiftedSpan_eq]
    rfl

/-- A property `j` bytes later is one where it would stand without them. -/
theorem PropertyText.exists_base {p : Property}
    (hR : ∀ {k x t}, R (k + j) x t → ∃ base, R k x base ∧ t = base.move (· + j))
    (h : PropertyText R (k + j) x p) :
    ∃ base, PropertyText R k x base ∧ p = base.move (· + j) := by
  cases h with
  | mk hkey hgap hgap' hvalue =>
    rw [Nat.add_right_comm] at hvalue
    obtain ⟨base, hbase, rfl⟩ := hR hvalue
    refine ⟨_, .mk hkey hgap hgap' hbase, ?_⟩
    rw [shiftedSpan_eq, Property.plain_shift]

/-- Members `j` bytes later are members where they would stand without them. -/
theorem MembersText.exists_base {α : Type} {move : α → α} {closing : Char}
    {Q : Nat → List Char → α → Prop} {as : List α}
    (hQ : ∀ {k x a}, Q (k + j) x a → ∃ base, Q k x base ∧ a = move base)
    (h : MembersText closing Q (k + j) x as) :
    ∃ base, MembersText closing Q k x base ∧ as = base.map move := by
  generalize hm : k + j = m at h
  induction h generalizing k with
  | close => exact ⟨[], .close, rfl⟩
  | last hx hgap =>
    subst hm
    obtain ⟨base, hbase, rfl⟩ := hQ hx
    exact ⟨[base], .last hbase hgap, rfl⟩
  | more hx hgap hgap' _ ih =>
    subst hm
    obtain ⟨base, hbase, rfl⟩ := hQ hx
    obtain ⟨others, hothers, rfl⟩ := ih (Nat.add_right_comm k _ j)
    exact ⟨base :: others, .more hbase hgap hgap' hothers, rfl⟩

/-- A container `j` bytes later is one where it would stand without them. -/
theorem ContainerText.exists_base
    (hR : ∀ {k x t}, R (k + j) x t → ∃ base, R k x base ∧ t = base.move (· + j))
    (h : ContainerText R (k + j) x t) :
    ∃ base, ContainerText R k x base ∧ t = base.move (· + j) := by
  cases h with
  | array hgap h =>
    rw [Nat.add_right_comm] at h
    obtain ⟨elements, helements, rfl⟩ := h.exists_base hR
    refine ⟨_, .array hgap helements, ?_⟩
    rw [shiftedSpan_eq, Token.move, moveTokens_eq_map]
  | object hgap h =>
    rw [Nat.add_right_comm] at h
    obtain ⟨properties, hproperties, rfl⟩ := h.exists_base (PropertyText.exists_base hR)
    refine ⟨_, .object hgap hproperties, ?_⟩
    rw [shiftedSpan_eq, Token.move, Object.move, moveProperties_eq_map]

/-- A literal `j` bytes later is one where it would stand without them. -/
theorem DatumText.exists_base {depth : Nat} (h : DatumText depth (k + j) x t) :
    ∃ base, DatumText depth k x base ∧ t = base.move (· + j) := by
  induction depth generalizing k x t with
  | zero => exact LeafText.exists_base h
  | succ depth ih =>
    rcases h with h | h
    · obtain ⟨base, hbase, rfl⟩ := h.exists_base
      exact ⟨base, Or.inl hbase, rfl⟩
    · obtain ⟨base, hbase, rfl⟩ := h.exists_base ih
      exact ⟨base, Or.inr hbase, rfl⟩

end

section

variable (references : Option Fields) (f : Nat → Nat)

mutual

/-- The value of a token does not depend on where it stands. -/
theorem Token.evaluate_move (t : Token) : (t.move f).evaluate references = t.evaluate references := by
  cases t with
  | literal | identifier | property | program | element | importDeclaration => rfl
  | object o => rw [Token.move, Token.evaluate, Token.evaluate, o.evaluate_move]
  | array elements span =>
    rw [Token.move, Token.evaluate, Token.evaluate, evaluateTokens_move elements]

/-- Moving an object does not change its value. -/
theorem Object.evaluate_move (o : Object) :
    (o.move f).evaluate references = o.evaluate references := by
  obtain ⟨properties, span⟩ := o
  rw [Object.move, Object.evaluate, Object.evaluate, evaluateProperties_move properties]

/-- Moving a property does not change its key nor its value. -/
theorem Property.evaluate_move (p : Property) :
    (p.move f).evaluate references = p.evaluate references := by
  obtain ⟨key, value, form, span⟩ := p
  cases key with
  | none => rfl
  | some key =>
    rw [Property.move, Option.map_some, Property.evaluate, Property.evaluate, value.evaluate_move]
    rfl

/-- Moving tokens does not change their values. -/
theorem evaluateTokens_move (ts : List Token) :
    evaluateTokens references (moveTokens f ts) = evaluateTokens references ts := by
  cases ts with
  | nil => rfl
  | cons t ts =>
    rw [moveTokens, evaluateTokens, evaluateTokens, t.evaluate_move, evaluateTokens_move ts]

/-- Moving properties does not change their keys nor their values. -/
theorem evaluateProperties_move (ps : List Property) :
    evaluateProperties references (moveProperties f ps) = evaluateProperties references ps := by
  cases ps with
  | nil => rfl
  | cons p ps =>
    rw [moveProperties, evaluateProperties, evaluateProperties, p.evaluate_move,
      evaluateProperties_move ps]

end

end

section

variable {x : List Char} {t : Token} {offset : Nat}

/-- What a lexer for data literals matches as a value is written as one. -/
theorem Lexer.exists_of_matchAt_dataNames {l : Lexer} (hl : l.registry = .standard)
    (h : l.matchAt offset (some dataNames) = .ok (some t)) :
    ∃ x d, (Cursor.atOffset l.text offset).Passes x d ∧
      DatumText (nestingLimit - l.level) offset x t := by
  rw [Lexer.matchAt_dataNames hl] at h
  have hfuel : nestingLimit - l.level < Registry.standard.fuel nestingLimit l.text.length :=
    (Nat.sub_le _ _).trans_lt (lt_fuel l.text.length)
  exact (readsValue_dataWithin nestingLimit l.text l.index hfuel).sound (Except.ok.inj h)

/-- A literal that is the whole text of a lexer is matched at its start. -/
theorem IsDatum.matchAt_load (h : IsDatum x t) :
    (Lexer.standard.load x).matchAt 0 (some dataNames) = .ok (some t) := by
  have hstart : Cursor.atOffset x 0 = ⟨0, x⟩ := Cursor.atOffset_append [] x
  have hpasses : Cursor.Passes ⟨0, x⟩ x ⟨byteSize x, []⟩ :=
    ⟨(List.append_nil x).symm, (Nat.zero_add _).symm⟩
  rw [Lexer.matchAt_dataNames rfl]
  change Except.ok (dataAt x _ _ 0 (.atOffset x 0)) = _
  rw [hstart]
  exact congrArg Except.ok
    ((readsValue_dataAt x _ (lt_fuel x.length) (Nat.zero_add _)).complete hpasses h .nil)

/-- The value of a text that is one literal is the value of its token. -/
theorem IsDatum.evaluateText (h : IsDatum x t) (references : Option Fields) :
    TemplateReader.evaluateText x references = (t.evaluate references).mapError .data := by
  have htoken : literalToken x = .ok t :=
    literalToken_eq_ok_iff.mpr ⟨[], x, [], (List.append_nil x).symm, rfl, rfl, h⟩
  rw [TemplateReader.evaluateText, htoken]

end

/-- A data token depends only on its own text. Whatever a lexer for data literals matches at an
offset, from any level of nesting, a fresh lexer of the slice that the token spans matches at the
start and to the end of the slice, with offsets counted from there, and the value of the slice under
any references is the value of the token. -/
theorem Lexer.dataToken_alone {l : Lexer} (hl : l.registry = .standard) {offset : Nat} {t : Token}
    (h : l.matchAt offset (some dataNames) = .ok (some t)) :
    ∃ text base, t.span.slice? l.text = some text ∧ t = base.move (· + t.span.start) ∧
      (Lexer.standard.load text).matchAt 0 (some dataNames) = .ok (some base) ∧
      base.span = ⟨0, byteSize text⟩ ∧
      ∀ references, evaluateText text references = (t.evaluate references).mapError .data := by
  obtain ⟨x, d, hpasses, hx⟩ := Lexer.exists_of_matchAt_dataNames hl h
  have hspan := hx.span_eq
  have hslice := hpasses.slice?_eq hx.ne_nil
  rw [← hspan] at hslice
  have hdatum : DatumText nestingLimit (0 + offset) x t := by
    rw [Nat.zero_add]
    exact hx.mono (Nat.sub_le _ _)
  obtain ⟨base, hbase, rfl⟩ := hdatum.exists_base
  have hbase : IsDatum x base := hbase
  refine ⟨x, base, hslice, ?_, hbase.matchAt_load, hbase.span, fun references => ?_⟩
  · rw [hspan]
  · rw [hbase.evaluateText, Token.evaluate_move]

private def insideArray : Lexer :=
  { Lexer.standard.load "[1.5, \x7ba: [true, $x]\x7d.7]".toList with level := 1 }

/-- An object inside an array matches alone over its whole length, as the token that it is there
without the offset. -/
theorem Lexer.dataToken_alone_insideArray :
    ∃ t base, insideArray.matchAt 6 (some dataNames) = .ok (some t) ∧ t = base.move (· + 6) ∧
      (Lexer.standard.load "\x7ba: [true, $x]\x7d".toList).matchAt 0 (some dataNames) =
        .ok (some base) ∧
      base.span = ⟨0, 15⟩ ∧
      evaluateText "\x7ba: [true, $x]\x7d".toList none = (t.evaluate none).mapError .data := by
  have hread : ((insideArray.matchAt 6 (some dataNames)).toOption.any fun matched =>
      matched.any fun t => decide (t.span = ⟨6, 21⟩)) = true := by
    decide +kernel
  obtain ⟨t, hmatch, ht⟩ := Lexer.exists_of_any hread
  have hspan : t.span = ⟨6, 21⟩ := of_decide_eq_true ht
  obtain ⟨text, base, hslice, hmove, hbase, hwhole, hvalue⟩ := Lexer.dataToken_alone rfl hmatch
  rw [hspan] at hslice hmove
  have htext : Span.slice? ⟨6, 21⟩ insideArray.text = some "\x7ba: [true, $x]\x7d".toList := by
    decide +kernel
  obtain rfl := Option.some.inj (hslice.symm.trans htext)
  exact ⟨t, base, hmatch, hmove, hbase, hwhole, hvalue none⟩

end TemplateReader
