import Mathlib.Data.List.Forall2
import TemplateReader.Proofs.Literal.RoundTrip

/-!
# Evaluation as a walk

A walk goes over a token depth first and from left to right, whatever the token is
made of. Some of what it comes by is a fault: a property without a key, a name that
a given table lacks, and a value of a kind that has none. Evaluation fails with the
first fault of the walk, and without a fault it gives what the token denotes.
-/

namespace TemplateReader

/-- What a walk comes by. -/
inductive Visit where
  /-- The key of a property or its absence, before the value of the property. -/
  | key (key : Option Identifier)
  /-- A value, before its members. -/
  | value (t : Token)

mutual

/-- What a walk over a token comes by. Only arrays and objects are entered. -/
def Token.visits : Token → List Visit
  | .object o => .value (.object o) :: o.visits
  | .array elements span => .value (.array elements span) :: tokenVisits elements
  | t => [.value t]

/-- What a walk over the properties of an object comes by. -/
def Object.visits : Object → List Visit
  | ⟨properties, _⟩ => propertyVisits properties

/-- What a walk over a property comes by: its key, then its value. -/
def Property.visits : Property → List Visit
  | ⟨key, value, _, _⟩ => .key key :: value.visits

/-- What a walk over several tokens comes by. -/
def tokenVisits : List Token → List Visit
  | [] => []
  | t :: ts => t.visits ++ tokenVisits ts

/-- What a walk over several properties comes by. -/
def propertyVisits : List Property → List Visit
  | [] => []
  | p :: ps => p.visits ++ propertyVisits ps

end

/-- The fault that a walk comes by, if it is one. -/
def Visit.fault? (references : Option Fields) : Visit → Option DataError
  | .key (some _) => none
  | .key none => some .malformedProperty
  | .value (.literal _) => none
  | .value (.identifier i) =>
    if lacksName references i then some (.unknownReference i.name) else none
  | .value (.object _) => none
  | .value (.array _ _) => none
  | .value _ => some .invalidToken

/-- The first fault among some visits. -/
def firstFault? (references : Option Fields) (visits : List Visit) : Option DataError :=
  visits.findSome? (Visit.fault? references)

namespace Object

/-- The keys of the properties in source order. -/
def keys (o : Object) : List String :=
  o.properties.filterMap fun p => p.key.map Identifier.name

/-- The last property of a key. -/
def last? (o : Object) (key : String) : Option Property :=
  o.properties.reverse.find? fun p => p.key.any fun k => k.name = key

end Object

/-- What a token denotes. An object has each key of its properties once, in the order in which they
first occur, with what the value of the last property of that key denotes. -/
inductive Token.Denotes (references : Option Fields) : Token → Value → Prop
  | literal (l : Literal) : Denotes references (.literal l) l.value.toValue
  | identifier {i : Identifier} {value : Value} (h : resolveName references i.name = .ok value) :
    Denotes references (.identifier i) value
  | array {elements : List Token} {span : Span} {values : List Value}
    (h : List.Forall₂ (Denotes references) elements values) :
    Denotes references (.array elements span) (.array values)
  | object {o : Object} {fields : Fields} (hkeys : fields.map Prod.fst = o.keys.eraseDups)
    (hvalues : ∀ key value p, (key, value) ∈ fields → o.last? key = some p →
      Denotes references p.value value) :
    Denotes references (.object o) (.object fields)

/-- A property gives its key what its value denotes. -/
def Property.Denotes (references : Option Fields) (p : Property) (pair : String × Value) : Prop :=
  p.key.map Identifier.name = some pair.1 ∧ p.value.Denotes references pair.2

section

variable {references : Option Fields}

/-- The last property of a key is one of the object. -/
theorem Object.mem_of_last? {o : Object} {key : String} {p : Property} (h : o.last? key = some p) :
    p ∈ o.properties :=
  List.mem_reverse.mp (List.mem_of_find?_eq_some h)

/-- Every key has a last property. -/
theorem Object.exists_last? {o : Object} {key : String} (h : key ∈ o.keys) :
    ∃ p, o.last? key = some p := by
  obtain ⟨p, hp, hkey⟩ := List.mem_filterMap.mp h
  obtain ⟨k, hk, rfl⟩ := Option.map_eq_some_iff.mp hkey
  rw [← Option.isSome_iff_exists, last?, List.find?_isSome]
  exact ⟨p, List.mem_reverse.mpr hp, by simp [hk]⟩

/-- Fields with the same keys in the same order are the same when no key has two values. -/
theorem Fields.eq_of_keys_eq {fields fields' : Fields}
    (hkeys : fields.map Prod.fst = fields'.map Prod.fst)
    (h : ∀ key value value', (key, value) ∈ fields → (key, value') ∈ fields' → value = value') :
    fields = fields' := by
  induction fields generalizing fields' with
  | nil => exact (List.map_eq_nil_iff.mp hkeys.symm).symm
  | cons field fields ih =>
    obtain ⟨key, value⟩ := field
    cases fields' with
    | nil => cases hkeys
    | cons field' fields' =>
      obtain ⟨key', value'⟩ := field'
      obtain ⟨rfl, hothers⟩ := List.cons.inj hkeys
      obtain rfl := h key value value' List.mem_cons_self List.mem_cons_self
      rw [ih hothers fun k v v' hv hv' =>
        h k v v' (List.mem_cons_of_mem _ hv) (List.mem_cons_of_mem _ hv')]

mutual

/-- A token denotes one value at most. -/
theorem Token.Denotes.unique {value value' : Value} (t : Token) (h : t.Denotes references value)
    (h' : t.Denotes references value') : value = value' := by
  cases t with
  | literal l =>
    cases h
    cases h'
    rfl
  | identifier i =>
    cases h with
    | identifier h =>
      cases h' with
      | identifier h' => exact Except.ok.inj (h.symm.trans h')
  | array elements span =>
    cases h with
    | array h =>
      cases h' with
      | array h' => exact congrArg Value.array (denotes_unique elements h h')
  | object o =>
    obtain ⟨properties, span⟩ := o
    cases h with
    | object hkeys hvalues =>
      cases h' with
      | object hkeys' hvalues' =>
        refine congrArg Value.object (Fields.eq_of_keys_eq (hkeys.trans hkeys'.symm) ?_)
        intro key value value' hvalue hvalue'
        have hkey : key ∈ Object.keys ⟨properties, span⟩ := by
          rw [← List.mem_eraseDups, ← hkeys]
          exact List.mem_map_of_mem hvalue
        obtain ⟨p, hp⟩ := Object.exists_last? hkey
        exact denotes_unique_of_mem properties p (Object.mem_of_last? hp)
          (hvalues key value p hvalue hp) (hvalues' key value' p hvalue' hp)
  | property | program | element | importDeclaration => cases h

/-- Tokens denote one list of values at most. -/
theorem denotes_unique {values values' : List Value} (ts : List Token)
    (h : List.Forall₂ (Token.Denotes references) ts values)
    (h' : List.Forall₂ (Token.Denotes references) ts values') : values = values' := by
  cases ts with
  | nil =>
    cases h
    cases h'
    rfl
  | cons t ts =>
    cases h with
    | cons ht hts =>
      cases h' with
      | cons ht' hts' => rw [Token.Denotes.unique t ht ht', denotes_unique ts hts hts']

/-- A property of a list denotes one value at most. -/
theorem denotes_unique_of_mem {value value' : Value} (ps : List Property) (p : Property)
    (hp : p ∈ ps) (h : p.value.Denotes references value)
    (h' : p.value.Denotes references value') : value = value' := by
  cases ps with
  | nil => cases hp
  | cons first ps =>
    obtain ⟨key, token, form, span⟩ := first
    rcases List.mem_cons.mp hp with rfl | hp
    · exact Token.Denotes.unique token h h'
    · exact denotes_unique_of_mem ps p hp h h'

end

end

/-- A result is the error of the first fault, and without a fault a value of some kind. -/
def EndsAs {α : Type} (fault : Option DataError) (P : α → Prop) (result : Except DataError α) :
    Prop :=
  match fault with
  | some e => result = .error e
  | none => ∃ a, result = .ok a ∧ P a

section

variable {α β τ : Type} {fault fault' : Option DataError} {P : α → Prop} {Q : β → Prop}

/-- A result that ends as a walk does still does so when its value is turned into another. -/
theorem EndsAs.map {result : Except DataError α} {f : α → β} (h : EndsAs fault P result)
    (hf : ∀ a, P a → Q (f a)) : EndsAs fault Q (result.map f) := by
  cases fault with
  | some e =>
    obtain rfl : result = .error e := h
    rfl
  | none =>
    obtain ⟨a, rfl, ha⟩ := h
    exact ⟨f a, rfl, hf a ha⟩

/-- Of a list, the first part is gone over before the others. -/
theorem EndsAs.cons {R : τ → α → Prop} {t : τ} {ts : List τ} {first : Except DataError α}
    {others : Except DataError (List α)} (h : EndsAs fault (R t) first)
    (h' : EndsAs fault' (List.Forall₂ R ts) others) :
    EndsAs (fault.or fault') (List.Forall₂ R (t :: ts))
      (first.bind fun a => others.map (a :: ·)) := by
  cases fault with
  | some e =>
    obtain rfl : first = .error e := h
    rfl
  | none =>
    obtain ⟨a, rfl, ha⟩ := h
    exact h'.map fun as has => .cons ha has

end

section

variable {references : Option Fields}

/-- Where lists are related one by one, so are the first of each that have a key. -/
theorem exists_find?_of_denotes {ps : List Property} {pairs : List (String × Value)}
    (h : List.Forall₂ (Property.Denotes references) ps pairs) {key : String} {p : Property}
    (hp : ps.find? (fun p => p.key.any fun k => k.name = key) = some p) :
    ∃ value, Fields.get? pairs key = some value ∧ p.value.Denotes references value := by
  induction h with
  | nil => cases hp
  | @cons first pair ps pairs hfirst _ ih =>
    obtain ⟨hkey, hvalue⟩ := hfirst
    obtain ⟨k, hk, hname⟩ := Option.map_eq_some_iff.mp hkey
    rw [List.find?_cons, hk, Option.any_some, hname] at hp
    by_cases hpair : pair.1 = key
    · rw [decide_eq_true hpair] at hp
      obtain rfl := Option.some.inj hp
      exact ⟨pair.2, by rw [Fields.get?, List.find?_cons, decide_eq_true hpair]; rfl, hvalue⟩
    · rw [decide_eq_false hpair] at hp
      obtain ⟨value, hget, hdenotes⟩ := ih hp
      refine ⟨value, ?_, hdenotes⟩
      rw [Fields.get?, List.find?_cons, decide_eq_false hpair]
      exact hget

/-- The keys of properties are those of what they denote. -/
theorem keys_of_denotes {ps : List Property} {pairs : List (String × Value)}
    (h : List.Forall₂ (Property.Denotes references) ps pairs) :
    (ps.filterMap fun p => p.key.map Identifier.name) = pairs.map Prod.fst := by
  induction h with
  | nil => rfl
  | cons hfirst _ ih => rw [List.filterMap_cons, hfirst.1, ih, List.map_cons]

/-- An object denotes the fields that its properties make up one after another. -/
theorem Object.denotes_ofList {o : Object} {pairs : List (String × Value)}
    (h : List.Forall₂ (Property.Denotes references) o.properties pairs) :
    (Token.object o).Denotes references (.object (Fields.ofList pairs)) := by
  rw [Fields.ofList_eq_lastValues]
  refine .object ?_ ?_
  · rw [Fields.lastValues, List.map_map, keys, keys_of_denotes h]
    exact List.map_id _
  · intro key value p hmem hp
    obtain ⟨key', -, heq⟩ := List.mem_map.mp hmem
    obtain ⟨rfl, rfl⟩ := Prod.mk.inj heq
    obtain ⟨value, hget, hvalue⟩ := exists_find?_of_denotes (List.forall₂_reverse_iff.mpr h) hp
    rwa [hget]

/-- A name evaluates as the walk over it ends. -/
theorem evaluate_identifier_endsAs (i : Identifier) :
    EndsAs (firstFault? references (Token.identifier i).visits)
      ((Token.identifier i).Denotes references) ((Token.identifier i).evaluate references) := by
  have hfault : firstFault? references (Token.identifier i).visits =
      if lacksName references i then some (.unknownReference i.name) else none :=
    List.findSome?_singleton
  rw [hfault, Token.evaluate]
  cases references with
  | none => exact ⟨_, rfl, .identifier rfl⟩
  | some table =>
    cases hget : table.get? i.name with
    | none =>
      have hlacks : lacksName (some table) i = true := by
        rw [lacksName, Option.any_some, hget]
        rfl
      rw [if_pos hlacks, resolveName, hget]
      rfl
    | some value =>
      have hlacks : ¬lacksName (some table) i = true := by
        rw [lacksName, Option.any_some, hget]
        exact Bool.false_ne_true
      have hresolve : resolveName (some table) i.name = .ok value := by
        rw [resolveName, hget]
      rw [if_neg hlacks, hresolve]
      exact ⟨value, rfl, .identifier hresolve⟩

mutual

/-- Evaluation fails with the first fault of a walk, or gives what the token denotes. -/
theorem Token.evaluate_endsAs (t : Token) :
    EndsAs (firstFault? references t.visits) (t.Denotes references) (t.evaluate references) := by
  cases t with
  | literal l => exact ⟨_, rfl, .literal l⟩
  | identifier i => exact evaluate_identifier_endsAs i
  | object o =>
    rw [Token.evaluate, Token.visits]
    exact o.evaluate_endsAs.map fun fields hfields => hfields
  | array elements span =>
    rw [Token.evaluate, Token.visits]
    exact (evaluateTokens_endsAs elements).map fun values hvalues => .array hvalues
  | property | program | element | importDeclaration => rfl

/-- An object evaluates as the walk over it ends. -/
theorem Object.evaluate_endsAs (o : Object) :
    EndsAs (firstFault? references o.visits)
      (fun fields => (Token.object o).Denotes references (.object fields))
      (o.evaluate references) := by
  obtain ⟨properties, span⟩ := o
  exact (evaluateProperties_endsAs properties).map
    fun pairs => Object.denotes_ofList (o := ⟨properties, span⟩)

/-- A property evaluates as the walk over it ends. -/
theorem Property.evaluate_endsAs (p : Property) :
    EndsAs (firstFault? references p.visits) (p.Denotes references) (p.evaluate references) := by
  obtain ⟨key, value, form, span⟩ := p
  cases key with
  | none => rfl
  | some key => exact value.evaluate_endsAs.map fun value hvalue => ⟨rfl, hvalue⟩

/-- Tokens evaluate as the walk over them ends. -/
theorem evaluateTokens_endsAs (ts : List Token) :
    EndsAs (firstFault? references (tokenVisits ts)) (List.Forall₂ (Token.Denotes references) ts)
      (evaluateTokens references ts) := by
  cases ts with
  | nil => exact ⟨[], rfl, .nil⟩
  | cons t ts =>
    have hcons : evaluateTokens references (t :: ts) = (t.evaluate references).bind
        fun value => (evaluateTokens references ts).map (value :: ·) := by
      rw [evaluateTokens]
      cases t.evaluate references <;> rfl
    rw [tokenVisits, firstFault?, List.findSome?_append, hcons]
    exact t.evaluate_endsAs.cons (evaluateTokens_endsAs ts)

/-- Properties evaluate as the walk over them ends. -/
theorem evaluateProperties_endsAs (ps : List Property) :
    EndsAs (firstFault? references (propertyVisits ps))
      (List.Forall₂ (Property.Denotes references) ps) (evaluateProperties references ps) := by
  cases ps with
  | nil => exact ⟨[], rfl, .nil⟩
  | cons p ps =>
    have hcons : evaluateProperties references (p :: ps) = (p.evaluate references).bind
        fun pair => (evaluateProperties references ps).map (pair :: ·) := by
      rw [evaluateProperties]
      cases p.evaluate references <;> rfl
    rw [propertyVisits, firstFault?, List.findSome?_append, hcons]
    exact p.evaluate_endsAs.cons (evaluateProperties_endsAs ps)

end

/-- Evaluation succeeds exactly where a walk comes by no fault, and fails with the first fault that it
comes by. Its value is then what the token denotes. -/
theorem Token.evaluate_iff_walk (references : Option Fields) (t : Token) :
    ((∃ value, t.evaluate references = .ok value) ↔
        ∀ visit ∈ t.visits, visit.fault? references = none) ∧
      (∀ e, t.evaluate references = .error e ↔ firstFault? references t.visits = some e) ∧
      ∀ value, t.evaluate references = .ok value ↔
        firstFault? references t.visits = none ∧ t.Denotes references value := by
  have hends : EndsAs (firstFault? references t.visits) (t.Denotes references)
      (t.evaluate references) := t.evaluate_endsAs
  rw [← List.findSome?_eq_none_iff, ← firstFault?]
  cases hfault : firstFault? references t.visits with
  | some e =>
    rw [hfault] at hends
    have herror : t.evaluate references = .error e := hends
    rw [herror]
    simp
  | none =>
    rw [hfault] at hends
    obtain ⟨value, hvalue, hdenotes⟩ := hends
    rw [hvalue]
    refine ⟨by simp, by simp, fun value' => ?_⟩
    constructor
    · rintro ⟨⟩
      exact ⟨rfl, hdenotes⟩
    · rintro ⟨-, h⟩
      rw [Token.Denotes.unique t hdenotes h]

/-- A fault counts even where a later property of the same key would take the value's place. -/
example (a x : Identifier) (number : Literal) (form : PropertyForm) (span : Span) :
    (Token.object ⟨[⟨some a, .identifier x, form, span⟩, ⟨some a, .literal number, form, span⟩],
      span⟩).evaluate (some []) = .error (.unknownReference x.name) :=
  rfl

end

end TemplateReader
