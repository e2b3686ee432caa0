import TemplateReader.Proofs.Grammar.Boundary
import TemplateReader.Proofs.Literal.Evaluation

/-!
# What evaluation of a literal fails with

A text that is no literal fails where nothing is read, or behind the literal that
it begins with. A literal fails with the first name that the table lacks and with
nothing else: the lexer builds no token without a value, and no number beyond the
finite ones, so that every number stands for itself in data.
-/

namespace TemplateReader

/-- A ratio that has a float has a finite one. -/
theorem Binary64.isFinite_of_ofRatio {negative : Bool} {num den : Nat} {x : Binary64}
    (h : ofRatio negative num den = some x) : x.isFinite = true := by
  unfold ofRatio at h
  dsimp only at h
  split at h
  · next hlt =>
    obtain rfl := Option.some.inj h
    exact decide_eq_true hlt
  · cases h

/-- A decimal number that has a float has a finite one. -/
theorem Binary64.isFinite_of_ofDecimal {negative : Bool} {significand : Nat} {exponent : Int}
    {x : Binary64} (h : ofDecimal negative significand exponent = some x) : x.isFinite = true := by
  unfold ofDecimal at h
  split at h <;> exact isFinite_of_ofRatio h

/-- The number that a literal writes is finite. -/
theorem Binary64.isFinite_of_spellsScalar {text : List Char} {value : Scalar} {escape : Bool}
    {x : Binary64} (h : SpellsScalar text value escape) (hx : value = .float x) :
    x.isFinite = true := by
  cases h with
  | null | true | false | string => cases hx
  | float _ _ _ hvalue =>
    cases hx
    exact Binary64.isFinite_of_ofDecimal hvalue
  | integer _ hvalue =>
    unfold wholeNumber? at hvalue
    split at hvalue
    · rw [← Option.some.inj hvalue] at hx
      cases hx
    · obtain ⟨y, hy, rfl⟩ := Option.map_eq_some_iff.mp hvalue
      cases hx
      exact Binary64.isFinite_of_ofDecimal hy

/-- Only the word for it has the absent value. -/
theorem SpellsScalar.eq_of_toValue_eq_null {text : List Char} {value : Scalar} {escape : Bool}
    (h : SpellsScalar text value escape) (hnull : value.toValue = .null) :
    text = "null".toList := by
  have hfinite := fun x => Binary64.isFinite_of_spellsScalar h (x := x)
  cases value with
  | integer | string | boolean => cases hnull
  | float x =>
    rw [Scalar.toValue, if_pos (hfinite x rfl)] at hnull
    cases hnull
  | null =>
    generalize hvalue : Scalar.null = value at h
    cases h with
    | null => rfl
    | true | false | string | float => cases hvalue
    | integer _ hwhole =>
      unfold wholeNumber? at hwhole
      split at hwhole
      · rw [← Option.some.inj hwhole] at hvalue
        cases hvalue
      · obtain ⟨y, -, rfl⟩ := Option.map_eq_some_iff.mp hwhole
        cases hvalue

private theorem spellsScalar_of_builtIn {s : Scope} {c : Cursor} {t : Token} {r : Rule}
    {R : Nat → List Char → Token → Prop} (h : r s c = some t) (hr : r ∈ Rule.builtIn.map Prod.snd)
    (hvalue : ReadsValue (fun c => Scope.matchAt { s with level := s.level + 1 } c dataNames) R)
    (hR : ∀ {k x t}, R k x t → IsSound k x t) :
    ∀ l ∈ t.literals, ∃ text, l.raw = String.ofList text ∧
      SpellsScalar text l.value l.escape := by
  have hscalar (hr : r ∈ [Rule.null, Rule.boolean, Rule.string, Rule.float, Rule.integer]) :
      ∀ l ∈ t.literals, ∃ text, l.raw = String.ofList text ∧
        SpellsScalar text l.value l.escape := by
    obtain ⟨x, rest, value, escape, -, hspells, rfl⟩ := exists_of_scalarRule hr h
    exact (LeafText.scalar hspells : LeafText c.offset x _).isSound.literals
  have hcontainer (hr : r = Rule.object ∨ r = Rule.array) :
      ∀ l ∈ t.literals, ∃ text, l.raw = String.ofList text ∧
        SpellsScalar text l.value l.escape := by
    obtain ⟨x, d, -, hx⟩ := exists_of_containerRule hr hvalue h
    exact (hx.isSound hR).literals
  simp only [Rule.builtIn, List.map_cons, List.map_nil, List.mem_cons, List.not_mem_nil,
    or_false] at hr
  rcases hr with rfl | rfl | rfl | rfl | rfl | rfl | rfl | rfl | rfl
  · exact hscalar (by simp)
  · exact hscalar (by simp)
  · exact hscalar (by simp)
  · exact hscalar (by simp)
  · exact hscalar (by simp)
  · obtain ⟨i, -, rfl⟩ := Option.map_eq_some_iff.mp h
    exact List.forall_mem_nil _
  · exact hcontainer (Or.inl rfl)
  · exact hcontainer (Or.inr rfl)
  · unfold Rule.program at h
    split at h
    · obtain ⟨split, -, rfl⟩ := Option.map_eq_some_iff.mp h
      exact List.forall_mem_nil _
    · cases h

/-- Whatever a standard lexer matches, every literal in it is written as a scalar. -/
theorem spellsScalar_of_matchAt {text : List Char} {offset : Nat} {names : Option (List String)}
    {t : Token} (h : (Lexer.standard.load text).matchAt offset names = .ok (some t)) :
    ∀ l ∈ t.literals, ∃ text, l.raw = String.ofList text ∧
      SpellsScalar text l.value l.escape := by
  change Registry.standard.matchWith Lexer.nestingLimit text _
    (Registry.standard.fuel Lexer.nestingLimit text.length) 0 (.atOffset text offset) _ = _ at h
  obtain ⟨fuel, hfuel, name, -, rule, hrule, ht, -⟩ := Registry.exists_of_matchWith h
  have hlt : 255 < fuel := by
    have h := lt_fuel text.length
    rw [hfuel, Lexer.nestingLimit] at h
    omega
  have hvalue : ReadsValue
      (dataAt text (Lexer.standard.load text).index fuel 1) (DatumText 255) :=
    readsValue_dataAt text _ hlt rfl
  exact spellsScalar_of_builtIn ht (List.mem_map_of_mem hrule) hvalue DatumText.isSound

/-- A name in value position is the first, in the order of the source, that a table lacks. -/
def IsFirstMissing (source : List Char) (table : Fields) (i : Identifier) : Prop :=
  ∃ t before after, literalToken source = .ok t ∧ HoldsNames 0 (trimStart source) t.references ∧
    t.references = before ++ i :: after ∧ (∀ j ∈ before, (table.get? j.name).isSome = true) ∧
    table.get? i.name = none

/-- A literal fails with its first missing name alone. -/
theorem exists_isFirstMissing {source : List Char} {references : Option Fields} {t : Token}
    {e : DataError} (ht : literalToken source = .ok t) (h : t.evaluate references = .error e) :
    ∃ table i, references = some table ∧ IsFirstMissing source table i ∧
      e = .unknownReference i.name := by
  obtain ⟨before, x, after, rfl, hbefore, hafter, hx⟩ := literalToken_eq_ok_iff.mp ht
  have hsound := DatumText.isSound hx
  rw [t.evaluate_eq references hsound.isData, checkNames] at h
  split at h
  · next i hfind =>
    obtain rfl := Except.error.inj h
    obtain ⟨hlacks, names, others, hsplit, hnames⟩ := List.find?_eq_some_iff_append.mp hfind
    cases references with
    | none => cases hlacks
    | some table =>
      refine ⟨table, i, rfl, ⟨t, names, others, ht, ?_, hsplit, ?_, ?_⟩, rfl⟩
      · rw [trimStart_append_of_isBlank hbefore, (hx.head.append after).trimStart]
        exact hsound.names.append_right after
      · intro j hj
        have hhas := hnames j hj
        simpa [lacksName] using hhas
      · simpa [lacksName] using hlacks
  · cases h

/-- Evaluation fails where no literal begins, with extra text behind a literal, or with the first
name that a given table lacks. No number that the lexer yields is beyond the finite ones. -/
theorem evaluateText_failure (source : List Char) (references : Option Fields) :
    (∀ f, evaluateText source references = .error f →
      (∃ preview, f = .grammar (.unexpectedToken preview dataNames 0) ∧
        BeginsNoDatum (trimStart source)) ∨
      (∃ preview offset, f = .grammar (.unexpectedToken preview [] offset) ∧ 0 < offset ∧
        ∃ x t rest, trimStart source = x ++ rest ∧ IsDatum x t) ∨
      (∃ table i, references = some table ∧ IsFirstMissing source table i ∧
        f = .data (.unknownReference i.name))) ∧
    ∀ text offset names t, (Lexer.standard.load text).matchAt offset names = .ok (some t) →
      ∀ l ∈ t.literals, (∀ x, l.value = .float x → x.isFinite = true) ∧
        (l.value.toValue = .null → l.raw = "null") := by
  constructor
  · intro f h
    unfold evaluateText at h
    split at h
    · next e he =>
      obtain rfl := Except.error.inj h
      rcases literalToken_eq_error he with
        ⟨preview, rfl, hnone⟩ | ⟨x, t, rest, preview, offset, htext, hx, rfl, hoffset⟩
      · exact Or.inl ⟨preview, rfl, hnone⟩
      · have hpos := byteSize_pos hx.head.ne_nil
        exact Or.inr (Or.inl ⟨preview, offset, rfl, by omega, x, t, rest, htext, hx⟩)
    · next t ht =>
      cases he : t.evaluate references with
      | ok value =>
        rw [he] at h
        cases h
      | error e =>
        rw [he] at h
        obtain rfl := Except.error.inj h
        obtain ⟨table, i, hreferences, hmissing, rfl⟩ := exists_isFirstMissing ht he
        exact Or.inr (Or.inr ⟨table, i, hreferences, hmissing, rfl⟩)
  · intro text offset names t h l hl
    obtain ⟨raw, hraw, hspells⟩ := spellsScalar_of_matchAt h l hl
    refine ⟨fun x hx => Binary64.isFinite_of_spellsScalar hspells hx, fun hnull => ?_⟩
    rw [hraw, hspells.eq_of_toValue_eq_null hnull]
    rfl

end TemplateReader
