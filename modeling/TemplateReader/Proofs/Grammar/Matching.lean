import TemplateReader.Proofs.Grammar.Boundary

/-!
# Matching by names

Names are looked up before anything is matched, so a name without a rule is
found out whatever the text is, and the first such name is the one reported.
Where all names have rules, the three ways of matching at the place of the lexer
come to the same match, which fits the text if the registry does.
-/

namespace TemplateReader

namespace Registry

variable {r : Registry} {names before after : List String} {name : String}

/-- Names that all have rules are looked up. -/
theorem exists_resolve (h : ∀ n ∈ names, r.has n = true) :
    ∃ rules, r.resolve names = .ok rules := by
  induction names with
  | nil => exact ⟨[], rfl⟩
  | cons name names ih =>
    obtain ⟨rule, hrule⟩ := Option.isSome_iff_exists.mp (h name List.mem_cons_self)
    obtain ⟨rules, hrules⟩ := ih fun n hn => h n (List.mem_cons_of_mem _ hn)
    refine ⟨rule :: rules, ?_⟩
    rw [resolve, hrule, hrules]
    rfl

/-- The first name without a rule is reported. -/
theorem resolve_unknown (h : ∀ n ∈ before, r.has n = true) (hname : r.has name = false) :
    r.resolve (before ++ name :: after) = .error (.unknownDefinition name) := by
  induction before with
  | nil =>
    have hnone : r.get? name = none := by simpa [has] using hname
    rw [List.nil_append, resolve, hnone]
  | cons first before ih =>
    obtain ⟨rule, hrule⟩ := Option.isSome_iff_exists.mp (h first List.mem_cons_self)
    rw [List.cons_append, resolve, hrule, ih fun n hn => h n (List.mem_cons_of_mem _ hn)]
    rfl

/-- There is always fuel for one match. -/
theorem fuel_pos (r : Registry) (limit length : Nat) : 0 < r.fuel limit length :=
  Nat.mul_pos (Nat.mul_pos (Nat.succ_pos _) (Nat.succ_pos _)) (Nat.succ_pos _)

end Registry

namespace Lexer

variable {l : Lexer} {names before after : List String} {name : String} {t : Token}

/-- What a lexer gives its rules, besides the place where they are tried. -/
def scope (l : Lexer) : Scope :=
  l.registry.scope nestingLimit l.text l.index
    (l.registry.fuel nestingLimit l.text.length - 1) l.level

/-- Matching looks all names up and takes the first match of their rules. -/
theorem matchCursor_eq (l : Lexer) (c : Cursor) (names : List String) :
    l.matchCursor c names =
      (l.registry.resolve names).map fun rules => Registry.firstMatch rules l.scope c := by
  obtain ⟨fuel, hfuel⟩ : ∃ fuel, l.registry.fuel nestingLimit l.text.length = fuel + 1 :=
    Nat.exists_eq_succ_of_ne_zero (Nat.ne_of_gt (l.registry.fuel_pos _ _))
  rw [matchCursor, scope, hfuel, Registry.matchWith_succ, Nat.add_sub_cancel]

/-- Matching at a cursor is the first match among the rules of the names, in one scope for all of
them. -/
theorem exists_matchCursor_eq (l : Lexer) : ∃ s : Scope, ∀ (c : Cursor) (names : List String),
    l.matchCursor c names =
      (l.registry.resolve names).map fun rules => Registry.firstMatch rules s c :=
  ⟨l.scope, l.matchCursor_eq⟩

/-- With names that all have rules, matching is not refused. -/
theorem exists_matchCursor (h : ∀ n ∈ names, l.registry.has n = true) (c : Cursor) :
    ∃ found, l.matchCursor c names = .ok found := by
  obtain ⟨s, hs⟩ := l.exists_matchCursor_eq
  obtain ⟨rules, hrules⟩ := Registry.exists_resolve h
  refine ⟨Registry.firstMatch rules s c, ?_⟩
  rw [hs, hrules]
  rfl

/-- The first name without a rule is reported. -/
theorem matchCursor_unknown (h : ∀ n ∈ before, l.registry.has n = true)
    (hname : l.registry.has name = false) (c : Cursor) :
    l.matchCursor c (before ++ name :: after) = .error (.unknownDefinition name) := by
  obtain ⟨s, hs⟩ := l.exists_matchCursor_eq
  rw [hs, Registry.resolve_unknown h hname]
  rfl

/-- In a registry that fits, every match fits the text. -/
theorem fitsAt_of_matchAt (hr : l.registry.Fits) {offset : Nat} {names : Option (List String)}
    (h : l.matchAt offset names = .ok (some t)) :
    t.FitsAt l.text offset ∧ t.isEmpty = false := by
  obtain ⟨fuel, -, name, -, rule, hmem, hfound, hne⟩ := Registry.exists_of_matchWith h
  exact ⟨hr (name, rule) hmem _ _ _ _ _ _ hfound hne, hne⟩

/-- A match that passes a test is a match. -/
theorem exists_of_any {found : Except LexError (Option Token)} {p : Token → Bool}
    (h : (found.toOption.any fun matched => matched.any p) = true) :
    ∃ t, found = .ok (some t) ∧ p t = true := by
  cases found with
  | error e => cases h
  | ok matched =>
    cases matched with
    | none => cases h
    | some t => exact ⟨t, rfl, h⟩

/-- Looking ahead tells whether something matches at the place of the lexer. -/
theorem next_eq {found : Option Token} (h : l.matchAt l.index (some names) = .ok found) :
    l.next names = .ok found.isSome := by
  rw [next, h]
  rfl

/-- An optional match is what matches at the place of the lexer, and the lexer behind it. -/
theorem optional_eq {found : Option Token} (h : l.matchAt l.index (some names) = .ok found) :
    l.optional names = found.map fun t => (t, l.past t) := by
  rw [optional, h]
  cases found <;> rfl

/-- An expected match is what matches at the place of the lexer, and a failure if nothing does. -/
theorem expect_eq {found : Option Token} (hne : names ≠ [])
    (h : l.matchAt l.index (some names) = .ok found) :
    l.expect names =
      found.elim (.error (.unexpectedToken (LexError.preview l.rest) names l.index))
        fun t => .ok (t, l.past t) := by
  have hempty : ¬names.isEmpty = true := by
    rwa [List.isEmpty_iff]
  rw [expect, if_neg hempty, h]
  cases found <;> rfl

/-- What is read is a match at the place of the lexer, which then stands behind it. -/
theorem matchAt_of_optional {after : Lexer} (h : l.optional names = some (t, after)) :
    l.matchAt l.index (some names) = .ok (some t) ∧ after = l.past t := by
  cases hmatch : l.matchAt l.index (some names) with
  | error e =>
    rw [optional, hmatch] at h
    cases h
  | ok found =>
    rw [optional_eq hmatch] at h
    obtain ⟨t', rfl, heq⟩ := Option.map_eq_some_iff.mp h
    obtain ⟨rfl, rfl⟩ := Prod.mk.inj heq
    exact ⟨rfl, rfl⟩

/-- What is expected and found is what matches at the place of the lexer, and the lexer is behind
it. -/
theorem matchAt_of_expect {after : Lexer} (h : l.expect names = .ok (t, after)) :
    l.matchAt l.index (some names) = .ok (some t) ∧ after = l.past t := by
  rw [expect] at h
  split at h
  · cases h
  · split at h
    · cases h
    · next t' hmatch =>
      obtain ⟨rfl, rfl⟩ := Prod.mk.inj (Except.ok.inj h)
      exact ⟨hmatch, rfl⟩
    · cases h

end Lexer

end TemplateReader
