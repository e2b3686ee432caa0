import TemplateReader.Grammar.Error
import TemplateReader.Token.Basic

/-!
# Rules and registries

A rule recognises one construct at a cursor. Rules of composite constructs
match their parts by name, through the scope they are given, so what counts as
a part is up to the registry. The registry is an ordered list of named rules;
giving a name a new rule keeps its place.

Matching is recursive through the rules, which are arbitrary functions, so it
runs on fuel. `Registry.fuel` says for which rules the fuel that it computes
suffices.
-/

namespace TemplateReader

/-- What a rule may use besides the cursor: the whole text, the place that the lexer has got to in
it, the level of nesting, and matching by names at any level. -/
structure Scope where
  /-- The whole text. -/
  text : List Char
  /-- Number of bytes of the text that have been read. -/
  index : Nat
  /-- Number of nested matches around this one. -/
  level : Nat
  /-- Number of nested matches allowed. -/
  limit : Nat
  /-- Matches any of some names at a level and a cursor; an unknown name matches nothing. -/
  matchAtLevel : Nat → Cursor → List String → Option Token

namespace Scope

/-- Matches the first of some names that matches at a cursor. -/
def matchAt (s : Scope) (c : Cursor) (names : List String) : Option Token :=
  s.matchAtLevel s.level c names

/-- Goes one level deeper, unless the limit is reached. -/
def nested {α : Type} (s : Scope) (f : Scope → Option α) : Option α :=
  if s.level < s.limit then f { s with level := s.level + 1 } else none

end Scope

/-- Recognises one construct at a cursor. -/
abbrev Rule := Scope → Cursor → Option Token

/-- Named rules in the order in which their names were first given. -/
structure Registry where
  /-- The names with their rules. -/
  rules : List (String × Rule)

namespace Registry

/-- No rules. -/
def empty : Registry := ⟨[]⟩

/-- The list of named rules with a name given a rule, in place if the name is there. -/
def put (name : String) (rule : Rule) : List (String × Rule) → List (String × Rule)
  | [] => [(name, rule)]
  | (n, r) :: rules =>
    if n = name then (n, rule) :: rules else (n, r) :: put name rule rules

/-- Gives a name a rule. -/
def define (r : Registry) (name : String) (rule : Rule) : Registry :=
  ⟨put name rule r.rules⟩

/-- The names in order. -/
def names (r : Registry) : List String := r.rules.map Prod.fst

/-- The rule of a name. -/
def get? (r : Registry) (name : String) : Option Rule :=
  (r.rules.find? fun entry => entry.1 = name).map Prod.snd

/-- Whether a name has a rule. -/
def has (r : Registry) (name : String) : Bool := (r.get? name).isSome

/-- Number of names. -/
def size (r : Registry) : Nat := r.rules.length

/-- The rules of some names, unless one of the names has none. -/
def resolve (r : Registry) : List String → Except LexError (List Rule)
  | [] => .ok []
  | name :: names =>
    match r.get? name with
    | none => .error (.unknownDefinition name)
    | some rule => (r.resolve names).map (rule :: ·)

/-- The first match among some rules that is not empty. -/
def firstMatch (rules : List Rule) (s : Scope) (c : Cursor) : Option Token :=
  rules.findSome? fun rule => (rule s c).filter fun t => !t.isEmpty

/-- Matches the first of some names at a level and a cursor. All names are looked up first. -/
def matchWith (r : Registry) (limit : Nat) (text : List Char) (index : Nat) :
    (fuel level : Nat) → Cursor → List String → Except LexError (Option Token)
  | 0, _, _, _ => .ok none
  | fuel + 1, level, c, names =>
    (r.resolve names).map fun rules =>
      firstMatch rules
        { text, index, level, limit
          matchAtLevel := fun level c names =>
            (r.matchWith limit text index fuel level c names).toOption.join }
        c

/-- A bound on the chains of matches over a text of `length` characters. It suffices for rules that
ask for matches at boundaries of the text and at levels up to the limit only, as the built-in ones
do: a longer chain would come twice to one rule at one level and one place, and so would never end.
A rule that asks beyond the end of the text may be told that nothing matches because the fuel has
run out. -/
def fuel (r : Registry) (limit length : Nat) : Nat :=
  (limit + 1) * (r.size + 1) * (length + 2)

/-- Giving a name a rule adds the name at the end, unless it is there already. -/
theorem names_define (r : Registry) (name : String) (rule : Rule) :
    (r.define name rule).names = if name ∈ r.names then r.names else r.names ++ [name] := by
  obtain ⟨rules⟩ := r
  simp only [define, names]
  induction rules with
  | nil => simp [put]
  | cons entry rules ih =>
    obtain ⟨n, old⟩ := entry
    by_cases hn : n = name
    · simp [put, hn]
    · simp only [put, hn, if_false, List.map_cons, ih, List.mem_cons, Ne.symm hn, false_or]
      by_cases hm : name ∈ rules.map Prod.fst <;> simp only [hm, if_true, if_false, List.cons_append]

/-- A name has the rule that it was given last. -/
theorem get?_define_self (r : Registry) (name : String) (rule : Rule) :
    (r.define name rule).get? name = some rule := by
  obtain ⟨rules⟩ := r
  simp only [define, get?]
  induction rules with
  | nil => simp [put]
  | cons entry rules ih =>
    obtain ⟨n, old⟩ := entry
    by_cases hn : n = name
    · simp [put, hn]
    · simpa [put, hn] using ih

/-- Giving one name a rule leaves the other names as they were. -/
theorem get?_define_of_ne (r : Registry) {name other : String} (rule : Rule) (h : other ≠ name) :
    (r.define name rule).get? other = r.get? other := by
  obtain ⟨rules⟩ := r
  simp only [define, get?]
  induction rules with
  | nil => simp [put, Ne.symm h]
  | cons entry rules ih =>
    obtain ⟨n, old⟩ := entry
    by_cases hn : n = name
    · subst hn
      simp [put, Ne.symm h]
    · by_cases ho : n = other
      · subst ho
        simp [put, hn]
      · simpa [put, hn, ho] using ih

end Registry

end TemplateReader
