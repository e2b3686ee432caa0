import TemplateReader.Proofs.Literal.Datum

/-!
# Heights of literals

How deep arrays and objects are nested in a token can be told from the token. A text
that is a literal at all is one at exactly the depths that are no less than the height
of its token.
-/

namespace TemplateReader

mutual

/-- How deep arrays and objects are nested in a token; a token of any other kind has no members. -/
def Token.height : Token → Nat
  | .object o => o.height + 1
  | .array elements _ => tokensHeight elements + 1
  | _ => 0

/-- The greatest height among the properties of an object. -/
def Object.height : Object → Nat
  | ⟨properties, _⟩ => propertiesHeight properties

/-- The height of the value of a property. -/
def Property.height : Property → Nat
  | ⟨_, value, _, _⟩ => value.height

/-- The greatest height among tokens, zero if there are none. -/
def tokensHeight : List Token → Nat
  | [] => 0
  | t :: ts => max t.height (tokensHeight ts)

/-- The greatest height among properties, zero if there are none. -/
def propertiesHeight : List Property → Nat
  | [] => 0
  | p :: ps => max p.height (propertiesHeight ps)

end

/-- Tokens are as high as the highest of them. -/
theorem tokensHeight_le_iff {ts : List Token} {n : Nat} :
    tokensHeight ts ≤ n ↔ ∀ t ∈ ts, t.height ≤ n := by
  induction ts with
  | nil => simp [tokensHeight]
  | cons t ts ih => rw [tokensHeight, Nat.max_le, ih, List.forall_mem_cons]

/-- A property is as high as its value. -/
theorem Property.height_eq (p : Property) : p.height = p.value.height := by
  cases p
  rfl

/-- Properties are as high as the highest of their values. -/
theorem propertiesHeight_le_iff {ps : List Property} {n : Nat} :
    propertiesHeight ps ≤ n ↔ ∀ p ∈ ps, p.value.height ≤ n := by
  induction ps with
  | nil => simp [propertiesHeight]
  | cons p ps ih => rw [propertiesHeight, Nat.max_le, ih, List.forall_mem_cons, Property.height_eq]

section

variable {k : Nat} {x : List Char} {t : Token} {R R' : Nat → List Char → Token → Prop}

/-- The text of a property is one still when that of its value is taken in a wider sense. -/
theorem PropertyText.imp {p : Property} (h : PropertyText R k x p)
    (hR : ∀ {k x}, R k x p.value → R' k x p.value) : PropertyText R' k x p := by
  cases h with
  | mk hkey hgap hgap' hvalue => exact .mk hkey hgap hgap' (hR hvalue)

/-- The text of a property holds that of its value. -/
theorem PropertyText.exists_value_text {p : Property} (h : PropertyText R k x p) :
    ∃ k y, R k y p.value := by
  cases h with
  | mk _ _ _ hvalue => exact ⟨_, _, hvalue⟩

/-- The text of members is one still when those of the members are taken in a wider sense. -/
theorem MembersText.imp {α : Type} {closing : Char} {Q Q' : Nat → List Char → α → Prop}
    {as : List α} (h : MembersText closing Q k x as)
    (hQ : ∀ a ∈ as, ∀ {k x}, Q k x a → Q' k x a) : MembersText closing Q' k x as := by
  induction h with
  | close => exact .close
  | last hx hgap => exact .last (hQ _ List.mem_cons_self hx) hgap
  | more hx hgap hgap' _ ih =>
    exact .more (hQ _ List.mem_cons_self hx) hgap hgap' (ih fun a ha => hQ a (List.mem_cons_of_mem _ ha))

/-- The height of a container is more than the heights of its values. -/
theorem ContainerText.height_le {n : Nat} (h : ContainerText R k x t)
    (hR : ∀ {k x t}, R k x t → t.height ≤ n) : t.height ≤ n + 1 := by
  cases h with
  | array _ h =>
    refine Nat.succ_le_succ (tokensHeight_le_iff.mpr fun t ht => ?_)
    obtain ⟨k, x, hx⟩ := h.exists_of_mem ht
    exact hR hx
  | object _ h =>
    refine Nat.succ_le_succ (propertiesHeight_le_iff.mpr fun p hp => ?_)
    obtain ⟨k, x, hx⟩ := h.exists_of_mem hp
    obtain ⟨k, y, hy⟩ := hx.exists_value_text
    exact hR hy

/-- A container of a height is one of values of less height. -/
theorem ContainerText.of_height {n : Nat} (h : ContainerText R k x t) (ht : t.height ≤ n + 1)
    (hR : ∀ {k x t}, R k x t → t.height ≤ n → R' k x t) : ContainerText R' k x t := by
  cases h with
  | array hgap h =>
    have hmembers := tokensHeight_le_iff.mp (Nat.le_of_succ_le_succ ht)
    exact .array hgap (h.imp fun t hmem _ _ hx => hR hx (hmembers t hmem))
  | object hgap h =>
    have hmembers := propertiesHeight_le_iff.mp (Nat.le_of_succ_le_succ ht)
    exact .object hgap (h.imp fun p hmem _ _ hp => hp.imp fun hx => hR hx (hmembers p hmem))

/-- An array or an object has a height. -/
theorem ContainerText.height_pos (h : ContainerText R k x t) : 0 < t.height := by
  cases h <;> exact Nat.succ_pos _

/-- A value without parts has no height. -/
theorem LeafText.height_eq_zero (h : LeafText k x t) : t.height = 0 := by
  cases h <;> rfl

/-- What is nested in a literal is nested no deeper than its depth. -/
theorem DatumText.height_le {depth : Nat} (h : DatumText depth k x t) : t.height ≤ depth := by
  induction depth generalizing k x t with
  | zero => exact Nat.le_of_eq (LeafText.height_eq_zero h)
  | succ depth ih =>
    rcases h with h | h
    · exact h.height_eq_zero.trans_le (Nat.zero_le _)
    · exact h.height_le ih

/-- A literal is one at every depth that reaches its height. -/
theorem DatumText.of_height {depth depth' : Nat} (h : DatumText depth k x t)
    (ht : t.height ≤ depth') : DatumText depth' k x t := by
  induction depth generalizing depth' k x t with
  | zero => exact .of_leaf h
  | succ depth ih =>
    rcases h with h | h
    · exact .of_leaf h
    · cases depth' with
      | zero => exact absurd h.height_pos (Nat.not_lt.mpr ht)
      | succ depth' => exact Or.inr (h.of_height ht ih)

/-- A literal is one at every greater depth. -/
theorem DatumText.mono {depth depth' : Nat} (h : DatumText depth k x t) (hle : depth ≤ depth') :
    DatumText depth' k x t :=
  h.of_height (h.height_le.trans hle)

end

end TemplateReader
