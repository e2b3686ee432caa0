import TemplateReader.Data.Evaluate
import TemplateReader.Proofs.Literal.Whole

/-!
# Values of literals

Evaluation walks a literal in source order and stops at the first name that it
cannot look up. Whether it succeeds depends on the names in value position alone,
and its result, if it does, on each part alone. Keys are no names, so nothing is
looked up for them, and a value is looked up also where a later key replaces it.
-/

namespace TemplateReader

mutual

/-- The names that stand for values, in source order. -/
def Token.references : Token → List Identifier
  | .identifier i => [i]
  | .object o => o.references
  | .array elements _ => tokenReferences elements
  | _ => []

/-- The names in the values of an object. -/
def Object.references : Object → List Identifier
  | ⟨properties, _⟩ => propertyReferences properties

/-- The names in the value of a property; its key is none. -/
def Property.references : Property → List Identifier
  | ⟨_, value, _, _⟩ => value.references

/-- The names in several values. -/
def tokenReferences : List Token → List Identifier
  | [] => []
  | t :: ts => t.references ++ tokenReferences ts

/-- The names in the values of several properties. -/
def propertyReferences : List Property → List Identifier
  | [] => []
  | p :: ps => p.references ++ propertyReferences ps

end

/-- Whether a table is given that lacks a name. -/
def lacksName (references : Option Fields) (i : Identifier) : Bool :=
  references.any fun table => (table.get? i.name).isNone

/-- Fails with the first of some names that a table lacks. -/
def checkNames (references : Option Fields) (names : List Identifier) : Except DataError Unit :=
  match names.find? (lacksName references) with
  | some i => .error (.unknownReference i.name)
  | none => .ok ()

/-- The value of a name that no table lacks. -/
def nameValue (references : Option Fields) (name : String) : Value :=
  match references with
  | none => .string (deferredReference name)
  | some table => (table.get? name).getD .null

mutual

/-- The value of a token whose names can be looked up. -/
def Token.value (references : Option Fields) : Token → Value
  | .literal l => l.value.toValue
  | .identifier i => nameValue references i.name
  | .object o => .object (o.value references)
  | .array elements _ => .array (valuesOf references elements)
  | _ => .null

/-- The fields of an object whose names can be looked up. -/
def Object.value (references : Option Fields) : Object → Fields
  | ⟨properties, _⟩ => Fields.ofList (pairsOf references properties)

/-- The values of several tokens. -/
def valuesOf (references : Option Fields) : List Token → List Value
  | [] => []
  | t :: ts => t.value references :: valuesOf references ts

/-- The keys with the values of several properties. -/
def pairsOf (references : Option Fields) : List Property → List (String × Value)
  | [] => []
  | p :: ps => p.pair references :: pairsOf references ps

/-- The key and the value of a property. -/
def Property.pair (references : Option Fields) : Property → String × Value
  | ⟨key, value, _, _⟩ => (key.elim "" Identifier.name, value.value references)

end

mutual

/-- Only literals, names, arrays and objects whose properties all have keys. -/
def Token.IsData : Token → Prop
  | .literal _ => True
  | .identifier _ => True
  | .object o => o.IsData
  | .array elements _ => AreData elements
  | _ => False

/-- Every property has a key and such a value. -/
def Object.IsData : Object → Prop
  | ⟨properties, _⟩ => AreProperties properties

/-- A property has a key and such a value. -/
def Property.IsData : Property → Prop
  | ⟨key, value, _, _⟩ => key.isSome = true ∧ value.IsData

/-- All tokens of a list are such. -/
def AreData : List Token → Prop
  | [] => True
  | t :: ts => t.IsData ∧ AreData ts

/-- All properties of a list are such. -/
def AreProperties : List Property → Prop
  | [] => True
  | p :: ps => p.IsData ∧ AreProperties ps

end

section

variable (references : Option Fields)

/-- Names are checked from the first on. -/
theorem checkNames_append (names others : List Identifier) :
    checkNames references (names ++ others) =
      match checkNames references names with
      | .error e => .error e
      | .ok _ => checkNames references others := by
  rw [checkNames, List.find?_append, checkNames]
  cases names.find? (lacksName references) with
  | none => rfl
  | some i => rfl

/-- A name is resolved to its value if the check of names lets it through. -/
theorem resolveName_eq (i : Identifier) :
    resolveName references i.name =
      (checkNames references [i]).map fun _ => nameValue references i.name := by
  cases references with
  | none => rfl
  | some table =>
    cases h : table.get? i.name with
    | none => simp [resolveName, checkNames, lacksName, h, Except.map]
    | some value => simp [resolveName, checkNames, lacksName, nameValue, h, Except.map]

mutual

/-- A data token fails with the first name that is missing, and otherwise has its value. -/
theorem Token.evaluate_eq (t : Token) (h : t.IsData) :
    t.evaluate references =
      (checkNames references t.references).map fun _ => t.value references := by
  cases t with
  | literal l => rfl
  | identifier i => exact resolveName_eq references i
  | object o =>
    rw [Token.evaluate, o.evaluate_eq h, Token.references]
    cases checkNames references o.references <;> rfl
  | array elements span =>
    rw [Token.evaluate, evaluateTokens_eq elements h, Token.references]
    cases checkNames references (tokenReferences elements) <;> rfl
  | property p => cases h
  | program p => cases h
  | element e => cases h
  | importDeclaration i => cases h

/-- An object of data has its value if the check lets all its names through. -/
theorem Object.evaluate_eq (o : Object) (h : o.IsData) :
    o.evaluate references =
      (checkNames references o.references).map fun _ => o.value references := by
  obtain ⟨properties, span⟩ := o
  rw [Object.evaluate, evaluateProperties_eq properties h, Object.references]
  cases checkNames references (propertyReferences properties) <;> rfl

/-- A property of data has its value if the check lets all its names through. -/
theorem Property.evaluate_eq (p : Property) (h : p.IsData) :
    p.evaluate references =
      (checkNames references p.references).map fun _ => p.pair references := by
  obtain ⟨key, value, form, span⟩ := p
  obtain ⟨hkey, hvalue⟩ := h
  cases key with
  | none => cases hkey
  | some key =>
    rw [Property.evaluate, value.evaluate_eq hvalue, Property.references]
    cases checkNames references value.references <;> rfl

/-- Tokens of data have their values if the check lets all their names through. -/
theorem evaluateTokens_eq (ts : List Token) (h : AreData ts) :
    evaluateTokens references ts =
      (checkNames references (tokenReferences ts)).map fun _ => valuesOf references ts := by
  cases ts with
  | nil => rfl
  | cons t ts =>
    obtain ⟨ht, hts⟩ := h
    rw [evaluateTokens, t.evaluate_eq ht, evaluateTokens_eq ts hts, tokenReferences,
      checkNames_append]
    cases checkNames references t.references with
    | error e => rfl
    | ok _ => cases checkNames references (tokenReferences ts) <;> rfl

/-- Properties of data have their values if the check lets all their names through. -/
theorem evaluateProperties_eq (ps : List Property) (h : AreProperties ps) :
    evaluateProperties references ps =
      (checkNames references (propertyReferences ps)).map fun _ => pairsOf references ps := by
  cases ps with
  | nil => rfl
  | cons p ps =>
    obtain ⟨hp, hps⟩ := h
    rw [evaluateProperties, p.evaluate_eq hp, evaluateProperties_eq ps hps, propertyReferences,
      checkNames_append]
    cases checkNames references p.references with
    | error e => rfl
    | ok _ => cases checkNames references (propertyReferences ps) <;> rfl

end

end

/-- A text holds some names, one behind the other. -/
def HoldsNames : Nat → List Char → List Identifier → Prop
  | _, _, [] => True
  | k, x, i :: names =>
    ∃ before word after, x = before ++ (word ++ after) ∧ IsWord word ∧
      i = ⟨String.ofList word, ⟨k + byteSize before, k + byteSize before + byteSize word⟩⟩ ∧
      HoldsNames (k + byteSize before + byteSize word) after names

section

variable {k : Nat} {x y : List Char} {names others : List Identifier} {t : Token}

/-- Names stand in a text with something behind it where they stood. -/
theorem HoldsNames.append_right (h : HoldsNames k x names) (y : List Char) :
    HoldsNames k (x ++ y) names := by
  induction names generalizing k x with
  | nil => trivial
  | cons i names ih =>
    obtain ⟨before, word, after, rfl, hword, rfl, h⟩ := h
    exact ⟨before, word, after ++ y, by simp only [List.append_assoc], hword, rfl, ih h⟩

/-- Names stand in a text with something in front of it as far on as that is long. -/
theorem HoldsNames.append_left {front : List Char}
    (h : HoldsNames (k + byteSize front) x names) : HoldsNames k (front ++ x) names := by
  cases names with
  | nil => trivial
  | cons i names =>
    obtain ⟨before, word, after, rfl, hword, rfl, h⟩ := h
    refine ⟨front ++ before, word, after, by simp only [List.append_assoc], hword, ?_, ?_⟩
    · rw [byteSize_append, Nat.add_assoc k]
    · rwa [byteSize_append, ← Nat.add_assoc k]

/-- The names of two texts stand one behind the other in the joined text. -/
theorem HoldsNames.append (h : HoldsNames k x names)
    (h' : HoldsNames (k + byteSize x) y others) : HoldsNames k (x ++ y) (names ++ others) := by
  induction names generalizing k x with
  | nil => exact h'.append_left
  | cons i names ih =>
    obtain ⟨before, word, after, rfl, hword, rfl, h⟩ := h
    refine ⟨before, word, after ++ y, by simp only [List.append_assoc], hword, rfl, ih h ?_⟩
    simpa only [byteSize_append, Nat.add_assoc] using h'

end

mutual

/-- The literals in value position, in source order. -/
def Token.literals : Token → List Literal
  | .literal l => [l]
  | .object o => o.literals
  | .array elements _ => tokenLiterals elements
  | _ => []

/-- The literals in the values of an object. -/
def Object.literals : Object → List Literal
  | ⟨properties, _⟩ => propertyLiterals properties

/-- The literals in the value of a property. -/
def Property.literals : Property → List Literal
  | ⟨_, value, _, _⟩ => value.literals

/-- The literals in several values. -/
def tokenLiterals : List Token → List Literal
  | [] => []
  | t :: ts => t.literals ++ tokenLiterals ts

/-- The literals in the values of several properties. -/
def propertyLiterals : List Property → List Literal
  | [] => []
  | p :: ps => p.literals ++ propertyLiterals ps

end

/-- The names in tokens are those of each, in order. -/
theorem tokenReferences_eq (ts : List Token) :
    tokenReferences ts = ts.flatMap Token.references := by
  induction ts with
  | nil => rfl
  | cons t ts ih => rw [tokenReferences, ih, List.flatMap_cons]

/-- The names in properties are those of each, in order. -/
theorem propertyReferences_eq (ps : List Property) :
    propertyReferences ps = ps.flatMap Property.references := by
  induction ps with
  | nil => rfl
  | cons p ps ih => rw [propertyReferences, ih, List.flatMap_cons]

/-- The literals in tokens are those of each, in order. -/
theorem tokenLiterals_eq (ts : List Token) : tokenLiterals ts = ts.flatMap Token.literals := by
  induction ts with
  | nil => rfl
  | cons t ts ih => rw [tokenLiterals, ih, List.flatMap_cons]

/-- The literals in properties are those of each, in order. -/
theorem propertyLiterals_eq (ps : List Property) :
    propertyLiterals ps = ps.flatMap Property.literals := by
  induction ps with
  | nil => rfl
  | cons p ps ih => rw [propertyLiterals, ih, List.flatMap_cons]

/-- Tokens are data when each of them is. -/
theorem areData_iff (ts : List Token) : AreData ts ↔ ∀ t ∈ ts, t.IsData := by
  induction ts with
  | nil => exact ⟨fun _ => nofun, fun _ => trivial⟩
  | cons t ts ih => rw [AreData, ih, List.forall_mem_cons]

/-- Properties are data when each of them is. -/
theorem areProperties_iff (ps : List Property) : AreProperties ps ↔ ∀ p ∈ ps, p.IsData := by
  induction ps with
  | nil => exact ⟨fun _ => nofun, fun _ => trivial⟩
  | cons p ps ih => rw [AreProperties, ih, List.forall_mem_cons]

/-- A token is data, its names stand in its text in order, and its literals are written scalars. -/
structure IsSound (k : Nat) (x : List Char) (t : Token) : Prop where
  /-- It can be evaluated. -/
  isData : t.IsData
  /-- Its names are in the order of the text. -/
  names : HoldsNames k x t.references
  /-- Each literal is written as a scalar. -/
  literals : ∀ l ∈ t.literals, ∃ text, l.raw = String.ofList text ∧
    SpellsScalar text l.value l.escape

section

variable {R : Nat → List Char → Token → Prop} {k : Nat} {x : List Char} {t : Token}

/-- A value without parts is data, with its names in its text. -/
theorem LeafText.isSound (h : LeafText k x t) : IsSound k x t := by
  cases h with
  | scalar h =>
    refine ⟨trivial, trivial, fun l hl => ?_⟩
    obtain rfl := List.mem_singleton.mp hl
    exact ⟨x, rfl, h⟩
  | name hword =>
    refine ⟨trivial, ⟨[], x, [], (List.append_nil x).symm, hword, rfl, trivial⟩, nofun⟩

section

variable {α : Type} {closing : Char} {Q : Nat → List Char → α → Prop} {members : List Char}
  {as : List α}

private theorem MembersText.holdsNames {names : α → List Identifier}
    (h : MembersText closing Q k members as) (hQ : ∀ k x a, Q k x a → HoldsNames k x (names a)) :
    HoldsNames k members (as.flatMap names) := by
  induction h with
  | close => trivial
  | last hx =>
    rw [List.append_assoc, List.flatMap_singleton]
    exact (hQ _ _ _ hx).append_right _
  | more hx _ _ _ ih =>
    rw [List.flatMap_cons]
    exact (((hQ _ _ _ hx).append_right _).append_right _).append ih

end

private theorem PropertyText.isSound (hR : ∀ {k x t}, R k x t → IsSound k x t) {p : Property}
    (h : PropertyText R k x p) : p.IsData ∧ HoldsNames k x p.references ∧
      ∀ l ∈ p.literals, ∃ text, l.raw = String.ofList text ∧ SpellsScalar text l.value l.escape := by
  cases h with
  | mk _ _ _ hvalue =>
    obtain ⟨hdata, hnames, hliterals⟩ := hR hvalue
    exact ⟨⟨rfl, hdata⟩, hnames.append_left, hliterals⟩

/-- An array or an object is data, with its names in its text, if its members are. -/
theorem ContainerText.isSound (hR : ∀ {k x t}, R k x t → IsSound k x t)
    (h : ContainerText R k x t) : IsSound k x t := by
  cases h with
  | array _ h =>
    refine ⟨(areData_iff _).mpr ?_, ?_, ?_⟩
    · intro t ht
      obtain ⟨k, x, hx⟩ := h.exists_of_mem ht
      exact (hR hx).isData
    · rw [Token.references, tokenReferences_eq]
      exact (h.holdsNames fun _ _ _ hx => (hR hx).names).append_left
    · intro l hl
      rw [Token.literals, tokenLiterals_eq, List.mem_flatMap] at hl
      obtain ⟨t, ht, hl⟩ := hl
      obtain ⟨k, x, hx⟩ := h.exists_of_mem ht
      exact (hR hx).literals l hl
  | object _ h =>
    refine ⟨(areProperties_iff _).mpr ?_, ?_, ?_⟩
    · intro p hp
      obtain ⟨k, x, hx⟩ := h.exists_of_mem hp
      exact (hx.isSound hR).1
    · rw [Token.references, Object.references, propertyReferences_eq]
      exact (h.holdsNames fun _ _ _ hx => (hx.isSound hR).2.1).append_left
    · intro l hl
      rw [Token.literals, Object.literals, propertyLiterals_eq, List.mem_flatMap] at hl
      obtain ⟨p, hp, hl⟩ := hl
      obtain ⟨k, x, hx⟩ := h.exists_of_mem hp
      exact (hx.isSound hR).2.2 l hl

/-- Whatever is read as a data literal is one. -/
theorem DatumText.isSound {depth : Nat} (h : DatumText depth k x t) : IsSound k x t := by
  induction depth generalizing k x t with
  | zero => exact LeafText.isSound h
  | succ depth ih =>
    rcases h with h | h
    · exact h.isSound
    · exact h.isSound ih

end

end TemplateReader
