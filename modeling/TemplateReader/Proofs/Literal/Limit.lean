import TemplateReader.Proofs.Grammar.Boundary
import TemplateReader.Proofs.Literal.Height

/-!
# Limits of nesting

A limit takes away exactly the literals that are nested too deep for it. A container
that the limit cuts off inside is no value at all: no other alternative begins with a
bracket. Everything else is read as with any other limit.
-/

namespace TemplateReader

section

variable {s : Scope} {c : Cursor} {t : Token} {R : Nat → List Char → Token → Prop}

/-- Where a bracket opens, only the rules of containers find anything. -/
theorem containerRule_of_valueAt (hopens : BeginsWith (fun ch => ch = '{' ∨ ch = '[') c.rest)
    (h : valueAt s c = some t) : Rule.object s c = some t ∨ Rule.array s c = some t := by
  obtain ⟨r, hr, hfound, -⟩ := Registry.exists_of_firstMatch h
  have hscalars := scalarRules_eq_none (s := s) hopens
  have hidentifier : Rule.identifier s c = none :=
    eq_none_of_head head_of_identifier hopens (by rintro ch (rfl | rfl) <;> decide)
  simp only [List.forall_mem_cons] at hscalars
  simp only [valueRules, List.mem_cons, List.not_mem_nil, or_false] at hr
  rcases hr with rfl | rfl | rfl | rfl | rfl | rfl | rfl | rfl
  · cases hscalars.1.symm.trans hfound
  · cases hscalars.2.1.symm.trans hfound
  · cases hscalars.2.2.1.symm.trans hfound
  · cases hscalars.2.2.2.1.symm.trans hfound
  · cases hscalars.2.2.2.2.1.symm.trans hfound
  · exact Or.inl hfound
  · exact Or.inr hfound
  · cases hidentifier.symm.trans hfound

/-- Where a bracket opens, nothing is a value at the limit. -/
theorem valueAt_eq_none (hopens : BeginsWith (fun ch => ch = '{' ∨ ch = '[') c.rest)
    (hlevel : ¬s.level < s.limit) : valueAt s c = none := by
  rw [Option.eq_none_iff_forall_ne_some]
  intro t ht
  rcases containerRule_of_valueAt hopens ht with h | h
  · exact hlevel (level_lt_of_containerRule (Or.inl rfl) h)
  · exact hlevel (level_lt_of_containerRule (Or.inr rfl) h)

/-- Where a bracket opens, the values below the limit are the containers. -/
theorem valueAt_eq_some_iff (hopens : BeginsWith (fun ch => ch = '{' ∨ ch = '[') c.rest)
    (hlevel : s.level < s.limit)
    (hvalue : ReadsValue (fun c => Scope.matchAt { s with level := s.level + 1 } c dataNames) R) :
    valueAt s c = some t ↔ ∃ x d, c.Passes x d ∧ ContainerText R c.offset x t := by
  constructor
  · intro h
    rcases containerRule_of_valueAt hopens h with h | h
    · exact exists_of_containerRule (Or.inl rfl) hvalue h
    · exact exists_of_containerRule (Or.inr rfl) hvalue h
  · rintro ⟨x, d, hpasses, hx⟩
    exact hx.valueAt hlevel hvalue hpasses

/-- Where no bracket opens, no container is read. -/
theorem containerRule_eq_none_of_head {r : Rule} (hr : r = Rule.object ∨ r = Rule.array)
    (hopens : ¬BeginsWith (fun ch => ch = '{' ∨ ch = '[') c.rest) : r s c = none := by
  rw [Option.eq_none_iff_forall_ne_some]
  intro t ht
  apply hopens
  rcases hr with rfl | rfl
  · obtain ⟨ch, hch, hbrace⟩ := head_of_object ht
    exact ⟨ch, hch, Or.inl hbrace⟩
  · obtain ⟨ch, hch, hbracket⟩ := head_of_array ht
    exact ⟨ch, hch, Or.inr hbracket⟩

/-- Where no bracket opens, values do not depend on the level of nesting. -/
theorem valueAt_congr (s s' : Scope)
    (hopens : ¬BeginsWith (fun ch => ch = '{' ∨ ch = '[') c.rest) :
    valueAt s c = valueAt s' c := by
  refine Registry.firstMatch_congr ?_
  simp only [valueRules, List.forall_mem_cons]
  refine ⟨rfl, rfl, rfl, rfl, rfl, ?_, ?_, rfl, List.forall_mem_nil _⟩
  · rw [containerRule_eq_none_of_head (Or.inl rfl) hopens,
      containerRule_eq_none_of_head (Or.inl rfl) hopens]
  · rw [containerRule_eq_none_of_head (Or.inr rfl) hopens,
      containerRule_eq_none_of_head (Or.inr rfl) hopens]

/-- Where no bracket opens, nothing is nested. -/
theorem height_eq_zero_of_valueAt (hopens : ¬BeginsWith (fun ch => ch = '{' ∨ ch = '[') c.rest)
    (h : valueAt s c = some t) : t.height = 0 := by
  rcases leafText_of_valueAt h with ⟨x, rest, -, hx⟩ | h | h
  · exact hx.height_eq_zero
  · rw [containerRule_eq_none_of_head (Or.inl rfl) hopens] at h
    cases h
  · rw [containerRule_eq_none_of_head (Or.inr rfl) hopens] at h
    cases h

end

section

variable {limit limit' index index' fuel fuel' level level' : Nat} {text text' : List Char}
  {c : Cursor} {t : Token}

/-- Where a bracket opens, what is read are the containers of literals one level deeper. -/
theorem dataWithin_eq_some_iff_of_opens
    (hopens : BeginsWith (fun ch => ch = '{' ∨ ch = '[') c.rest) (hfuel : limit - level < fuel) :
    dataWithin limit text index fuel level c = some t ↔
      level < limit ∧
        ∃ x d, c.Passes x d ∧ ContainerText (DatumText (limit - (level + 1))) c.offset x t := by
  obtain ⟨fuel, rfl⟩ : ∃ f, fuel = f + 1 := ⟨fuel - 1, by omega⟩
  change valueAt (Registry.standard.scope limit text index fuel level) c = some t ↔ _
  by_cases hlevel : level < limit
  · have hinner : ReadsValue (dataWithin limit text index fuel (level + 1))
        (DatumText (limit - (level + 1))) := readsValue_dataWithin limit text index (by omega)
    rw [valueAt_eq_some_iff (s := Registry.standard.scope limit text index fuel level) hopens hlevel
      hinner]
    exact (and_iff_right hlevel).symm
  · rw [valueAt_eq_none (s := Registry.standard.scope limit text index fuel level) hopens hlevel]
    exact ⟨nofun, fun h => absurd h.1 hlevel⟩

/-- Where no bracket opens, a value is read the same under every limit. -/
theorem dataWithin_congr (hopens : ¬BeginsWith (fun ch => ch = '{' ∨ ch = '[') c.rest)
    (hfuel : 0 < fuel) (hfuel' : 0 < fuel') :
    dataWithin limit text index fuel level c = dataWithin limit' text' index' fuel' level' c := by
  obtain ⟨fuel, rfl⟩ := Nat.exists_eq_add_one.mpr hfuel
  obtain ⟨fuel', rfl⟩ := Nat.exists_eq_add_one.mpr hfuel'
  exact valueAt_congr (Registry.standard.scope limit text index fuel level)
    (Registry.standard.scope limit' text' index' fuel' level') hopens

/-- Of two limits, the one that leaves fewer levels lets through exactly those values of the other
that are no higher than the levels it leaves. -/
theorem dataWithin_eq_some_iff (hle : limit - level ≤ limit' - level')
    (hfuel : limit - level < fuel) (hfuel' : limit' - level' < fuel') :
    dataWithin limit text index fuel level c = some t ↔
      dataWithin limit' text' index' fuel' level' c = some t ∧ t.height ≤ limit - level := by
  -- A limit is asked for nothing but brackets.
  by_cases hopens : BeginsWith (fun ch => ch = '{' ∨ ch = '[') c.rest
  · rw [dataWithin_eq_some_iff_of_opens hopens hfuel, dataWithin_eq_some_iff_of_opens hopens hfuel']
    constructor
    · rintro ⟨hlevel, x, d, hpasses, hx⟩
      have hheight := hx.height_le DatumText.height_le
      have hx' : ContainerText (DatumText (limit' - (level' + 1))) c.offset x t :=
        hx.of_height hheight fun h _ => h.mono (by omega)
      exact ⟨⟨by omega, x, d, hpasses, hx'⟩, by omega⟩
    · rintro ⟨⟨-, x, d, hpasses, hx⟩, hheight⟩
      have hpos := hx.height_pos
      have hx' : ContainerText (DatumText (limit - (level + 1))) c.offset x t :=
        hx.of_height (by omega) DatumText.of_height
      exact ⟨by omega, x, d, hpasses, hx'⟩
  · have hsame : dataWithin limit text index fuel level c =
        dataWithin limit' text' index' fuel' level' c :=
      dataWithin_congr hopens (Nat.zero_lt_of_lt hfuel) (Nat.zero_lt_of_lt hfuel')
    rw [hsame]
    refine ⟨fun h => ⟨h, ?_⟩, And.left⟩
    obtain ⟨fuel', rfl⟩ := Nat.exists_eq_add_one.mpr (Nat.zero_lt_of_lt hfuel')
    rw [height_eq_zero_of_valueAt
      (s := Registry.standard.scope limit' text' index' fuel' level') hopens h]
    exact Nat.zero_le _

end

end TemplateReader
