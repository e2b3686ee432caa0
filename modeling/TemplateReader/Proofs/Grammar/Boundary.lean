import TemplateReader.Grammar.Combinator
import TemplateReader.Grammar.Lexer
import TemplateReader.Proofs.Literal.Member

/-!
# Rules that keep to their place

A rule fits a text when whatever it finds there begins at the offset at which it
was tried and ends on a boundary of a character. Every built-in rule does, in
any scope, because it finds stretches of the text at its cursor; alternatives do
wherever the matches of their scope do. So whatever names are given rules of
these kinds, the registry finds only tokens that fit.
-/

namespace TemplateReader

/-- An offset is a boundary of a text when a first part of the text ends there. -/
def IsBoundary (text : List Char) (n : Nat) : Prop :=
  ∃ before after, text = before ++ after ∧ byteSize before = n

/-- A token fits a text at an offset when it begins there and ends on a boundary. -/
structure Token.FitsAt (t : Token) (text : List Char) (offset : Nat) : Prop where
  /-- The token begins at the offset. -/
  start : t.span.start = offset
  /-- The token ends inside the text, and not inside a character. -/
  stop : IsBoundary text t.span.stop

/-- In a scope that fits, every match fits the text. -/
def Scope.Fits (s : Scope) : Prop :=
  ∀ (level offset : Nat) (names : List String) (t : Token),
    s.matchAtLevel level (.atOffset s.text offset) names = some t → t.FitsAt s.text offset

/-- A rule fits when everything that it finds fits, unless it is empty, wherever its parts do. -/
def Rule.Fits (rule : Rule) : Prop :=
  ∀ s : Scope, s.Fits → ∀ (offset : Nat) (t : Token),
    rule s (.atOffset s.text offset) = some t → t.isEmpty = false → t.FitsAt s.text offset

/-- A rule is local when everything that it finds is a stretch of the text at its cursor. -/
def Rule.IsLocal (rule : Rule) : Prop :=
  ∀ (s : Scope) (c : Cursor) (t : Token), rule s c = some t →
    ∃ x d, c.Passes x d ∧ t.span = c.spanTo d

/-- The rules that need not be written anew: the built-in ones and those for extending a registry. -/
inductive Rule.IsProvided : Rule → Prop
  /-- A rule of the grammar of data literals. -/
  | builtIn {entry : String × Rule} (h : entry ∈ Rule.builtIn) : IsProvided entry.2
  /-- The rule that finds nothing. -/
  | never : IsProvided Rule.never
  /-- The rule for the empty text. -/
  | emptyText : IsProvided Rule.emptyText
  /-- The rule for a fixed text. -/
  | fixedText (text : List Char) : IsProvided (Rule.fixedText text)
  /-- The rule for some other names. -/
  | firstOf (names : List String) : IsProvided (Rule.firstOf names)
  /-- The rule for some other names in parentheses. -/
  | parenthesised (names : List String) : IsProvided (Rule.parenthesised names)

section

variable {text before after x : List Char} {n : Nat} {c d : Cursor}

/-- Between two parts of a text is a boundary. -/
theorem isBoundary_byteSize (before after : List Char) :
    IsBoundary (before ++ after) (byteSize before) := ⟨before, after, rfl, rfl⟩

/-- The start of a text is a boundary. -/
theorem isBoundary_zero (text : List Char) : IsBoundary text 0 := ⟨[], text, rfl, rfl⟩

/-- A boundary is an offset in the text. -/
theorem IsBoundary.le (h : IsBoundary text n) : n ≤ byteSize text := by
  obtain ⟨before, after, rfl, rfl⟩ := h
  rw [byteSize_append]
  exact Nat.le_add_right _ _

/-- A text can be split exactly at its boundaries. -/
theorem isBoundary_iff : IsBoundary text n ↔ (splitBytes? n text).isSome = true := by
  constructor
  · rintro ⟨before, after, rfl, rfl⟩
    rw [splitBytes?_append]
    rfl
  · intro h
    obtain ⟨⟨before, after⟩, hsplit⟩ := Option.isSome_iff_exists.mp h
    obtain ⟨htext, hsize⟩ := eq_append_of_splitBytes? hsplit
    exact ⟨before, after, htext, hsize⟩

/-- The cursor between two parts of a text has the second one in front of it. -/
theorem Cursor.atOffset_append (before after : List Char) :
    Cursor.atOffset (before ++ after) (byteSize before) = ⟨byteSize before, after⟩ := by
  rw [Cursor.atOffset, splitBytes?_append]
  rfl

/-- What a cursor of a text passes over is a part of the text, unless it is nothing. -/
theorem Cursor.exists_of_passes (h : (Cursor.atOffset text n).Passes x d) (hx : x ≠ []) :
    ∃ before, text = before ++ (x ++ d.rest) ∧ n = byteSize before := by
  have hrest := h.rest
  cases hsplit : splitBytes? n text with
  | none =>
    rw [Cursor.atOffset, hsplit] at hrest
    exact absurd (List.append_eq_nil_iff.mp hrest.symm).1 hx
  | some parts =>
    obtain ⟨before, after⟩ := parts
    obtain ⟨rfl, rfl⟩ := eq_append_of_splitBytes? hsplit
    rw [Cursor.atOffset_append] at hrest
    have hafter : after = x ++ d.rest := hrest
    exact ⟨before, by rw [hafter], rfl⟩

/-- What a cursor of a text passes over ends on a boundary, unless it is nothing. -/
theorem isBoundary_of_passes (h : (Cursor.atOffset text n).Passes x d) (hx : x ≠ []) :
    IsBoundary text d.offset := by
  obtain ⟨before, rfl, rfl⟩ := Cursor.exists_of_passes h hx
  refine ⟨before ++ x, d.rest, ?_, ?_⟩
  · rw [List.append_assoc]
  · rw [h.offset, byteSize_append]
    rfl

/-- A jump passes over what it leaves out. -/
theorem Cursor.exists_passes_of_jump? (h : c.jump? n = some d) : ∃ x, c.Passes x d := by
  rw [Cursor.jump?] at h
  split at h
  · next hlt =>
    obtain ⟨⟨x, rest⟩, hsplit, rfl⟩ := Option.map_eq_some_iff.mp h
    obtain ⟨hc, hsize⟩ := eq_append_of_splitBytes? hsplit
    refine ⟨x, hc, ?_⟩
    rw [hsize]
    exact (Nat.add_sub_of_le (Nat.le_of_lt hlt)).symm
  · cases h

end

section

variable {c d : Cursor} {s : Scope}

private theorem exists_passes_of_element? {value : Cursor → Option Token} {t : Token}
    {after : LaterCursor c} (h : element? value c = some (t, after)) : ∃ x, c.Passes x after := by
  simp only [element?, Option.bind_eq_bind, Option.bind_eq_some_iff] at h
  obtain ⟨v, -, h⟩ := h
  split at h
  · cases h
  · next after hjump =>
    obtain ⟨-, rfl⟩ := Prod.mk.inj (Option.some.inj h)
    exact Cursor.exists_passes_of_jump? hjump

private theorem exists_passes_of_member? {value : Cursor → Option Token} {p : Property}
    {after : LaterCursor c} (h : member? s value c = some (p, after)) : ∃ x, c.Passes x after := by
  obtain ⟨key, afterKey, text, v, last, -, hjump, hcolon, hvalue, -, hlast⟩ := exists_of_member? h
  obtain ⟨key, hkey⟩ := Cursor.exists_passes_of_jump? hjump
  obtain ⟨gap, -, hgap⟩ := afterKey.exists_gap_passes
  obtain ⟨gap', -, hgap'⟩ := ((afterKey.skipWhile isSpace).advance [':'] text).exists_gap_passes
  obtain ⟨x, hx⟩ := exists_passes_of_element? hvalue
  rw [hlast]
  exact ⟨_, (hkey.trans hgap).trans ((Cursor.passes_advance hcolon).trans (hgap'.trans hx))⟩

/-- The members of a container are a stretch of the text if each of them is. -/
theorem exists_passes_of_readMembers {α : Type} {closing : Char}
    {member : (c : Cursor) → Option (α × LaterCursor c)}
    (hmember : ∀ {c : Cursor} {a : α} {after : LaterCursor c},
      member c = some (a, after) → ∃ x, c.Passes x after)
    {as : List α} (h : readMembers closing member c = some (as, d)) : ∃ x, c.Passes x d := by
  fun_induction readMembers closing member c generalizing as d with
  | case1 => cases h
  | case2 c text hc =>
    obtain ⟨-, rfl⟩ := Prod.mk.inj (Option.some.inj h)
    exact ⟨_, Cursor.passes_advance hc⟩
  | case3 => cases h
  | case4 => cases h
  | case5 c ch text hc hch first after hlt hfirst next tail hcomma =>
    rename_i ih
    obtain ⟨⟨others, last⟩, hothers, heq⟩ := Option.map_eq_some_iff.mp h
    obtain ⟨-, rfl⟩ := Prod.mk.inj heq
    obtain ⟨x, hx⟩ := hmember hfirst
    obtain ⟨gap, -, hgap⟩ := after.exists_gap_passes
    obtain ⟨gap', -, hgap'⟩ := ((after.skipWhile isSpace).advance [','] tail).exists_gap_passes
    obtain ⟨y, hy⟩ := ih hothers
    exact ⟨_, (hx.trans hgap).trans ((Cursor.passes_advance hcomma).trans (hgap'.trans hy))⟩
  | case6 c ch text hc hch first after hlt hfirst next tail hclose =>
    obtain ⟨-, rfl⟩ := Prod.mk.inj (Option.some.inj h)
    obtain ⟨x, hx⟩ := hmember hfirst
    obtain ⟨gap, -, hgap⟩ := after.exists_gap_passes
    exact ⟨_, (hx.trans hgap).trans (Cursor.passes_advance hclose)⟩
  | case7 => cases h

end

namespace Rule

/-- The rules for scalars find stretches of the text. -/
theorem isLocal_of_scalarRule {r : Rule} (hr : r ∈ [null, boolean, string, float, integer]) :
    r.IsLocal := by
  intro s c t h
  obtain ⟨x, rest, value, escape, hc, -, rfl⟩ := exists_of_scalarRule hr h
  exact ⟨x, c.advance x rest, ⟨hc, rfl⟩, rfl⟩

/-- The rule for identifiers finds stretches of the text. -/
theorem isLocal_identifier : IsLocal identifier := by
  intro s c t h
  obtain ⟨i, hi, rfl⟩ := Option.map_eq_some_iff.mp h
  obtain ⟨x, rest, hc, -, -, rfl⟩ := identifier?_eq_some_iff.mp hi
  exact ⟨x, c.advance x rest, ⟨hc, rfl⟩, rfl⟩

/-- The rule for programs finds stretches of the text. -/
theorem isLocal_program : IsLocal program := by
  intro s c t h
  unfold program at h
  split at h
  · next text hc =>
    obtain ⟨⟨inner, rest⟩, hsplit, rfl⟩ := Option.map_eq_some_iff.mp h
    obtain ⟨rfl, -⟩ := splitBraces_eq_some_iff.mp hsplit
    refine ⟨'{' :: inner ++ ['}'], c.advance ('{' :: inner ++ ['}']) rest, ⟨?_, rfl⟩, ?_⟩
    · rw [hc]
      simp only [List.cons_append, List.append_assoc, List.nil_append]
      rfl
    · have hsize : byteSize ('{' :: inner ++ ['}']) = byteSize inner + 2 := by
        rw [byteSize_append, byteSize_cons, byteSize_cons, byteSize_nil]
        change 1 + byteSize inner + (1 + 0) = byteSize inner + 2
        omega
      rw [Cursor.spanTo, Cursor.advance, hsize]
      rfl
  · cases h

private theorem exists_of_nested {α : Type} {s : Scope} {f : Scope → Option α} {a : α}
    (h : s.nested f = some a) : f { s with level := s.level + 1 } = some a := by
  rw [Scope.nested] at h
  split at h
  · exact h
  · cases h

/-- The rule for objects finds stretches of the text, whatever its parts match. -/
theorem isLocal_object : IsLocal object := by
  intro s c t h
  unfold object at h
  split at h
  · next text hc =>
    obtain ⟨⟨properties, after⟩, hmembers, h⟩ :=
      Option.bind_eq_some_iff.mp (exists_of_nested h)
    obtain rfl := Option.some.inj h
    obtain ⟨gap, -, hgap⟩ := (c.advance ['{'] text).exists_gap_passes
    obtain ⟨x, hx⟩ := exists_passes_of_readMembers exists_passes_of_member? hmembers
    exact ⟨_, after, (Cursor.passes_advance hc).trans (hgap.trans hx), rfl⟩
  · cases h

/-- The rule for arrays finds stretches of the text, whatever its parts match. -/
theorem isLocal_array : IsLocal array := by
  intro s c t h
  unfold array at h
  split at h
  · next text hc =>
    obtain ⟨⟨elements, after⟩, hmembers, h⟩ :=
      Option.bind_eq_some_iff.mp (exists_of_nested h)
    obtain rfl := Option.some.inj h
    obtain ⟨gap, -, hgap⟩ := (c.advance ['['] text).exists_gap_passes
    obtain ⟨x, hx⟩ := exists_passes_of_readMembers exists_passes_of_element? hmembers
    exact ⟨_, after, (Cursor.passes_advance hc).trans (hgap.trans hx), rfl⟩
  · cases h

/-- Every built-in rule is local. -/
theorem isLocal_of_mem_builtIn {entry : String × Rule} (h : entry ∈ builtIn) :
    entry.2.IsLocal := by
  simp only [builtIn, List.mem_cons, List.not_mem_nil, or_false] at h
  rcases h with rfl | rfl | rfl | rfl | rfl | rfl | rfl | rfl | rfl
  · exact isLocal_of_scalarRule (by simp)
  · exact isLocal_of_scalarRule (by simp)
  · exact isLocal_of_scalarRule (by simp)
  · exact isLocal_of_scalarRule (by simp)
  · exact isLocal_of_scalarRule (by simp)
  · exact isLocal_identifier
  · exact isLocal_object
  · exact isLocal_array
  · exact isLocal_program

/-- The rule for the empty text finds stretches of the text. -/
theorem isLocal_emptyText : IsLocal emptyText := by
  rintro s c t ⟨⟩
  exact ⟨[], c, .refl c, rfl⟩

/-- The rule for a fixed text finds stretches of the text. -/
theorem isLocal_fixedText (text : List Char) : IsLocal (fixedText text) := by
  intro s c t h
  unfold fixedText at h
  split at h
  · next rest hdrop =>
    obtain rfl := Option.some.inj h
    exact ⟨text, c.advance text rest, ⟨dropWord?_eq_some_iff.mp hdrop, rfl⟩, rfl⟩
  · cases h

/-- The rule for parentheses finds stretches of the text, whatever matches between them. -/
theorem isLocal_parenthesised (names : List String) : IsLocal (parenthesised names) := by
  intro s c t h
  unfold parenthesised at h
  split at h
  · next text hc =>
    simp only [Option.bind_eq_bind, Option.bind_eq_some_iff] at h
    obtain ⟨inner, -, after, hjump, h⟩ := h
    split at h
    · next rest hafter =>
      obtain rfl := Option.some.inj h
      obtain ⟨x, hx⟩ := Cursor.exists_passes_of_jump? hjump
      exact ⟨_, _, (Cursor.passes_advance hc).trans (hx.trans (Cursor.passes_advance hafter)), rfl⟩
    · cases h
  · cases h

/-- A rule that finds stretches of the text fits. -/
theorem IsLocal.fits {rule : Rule} (h : rule.IsLocal) : rule.Fits := by
  intro s _ offset t ht hne
  obtain ⟨x, d, hpasses, hspan⟩ := h _ _ _ ht
  refine ⟨by rw [hspan]; rfl, ?_⟩
  rw [hspan]
  apply isBoundary_of_passes hpasses
  rintro rfl
  have hoffset := hpasses.offset
  simp only [Token.isEmpty, Span.isEmpty, hspan, Cursor.spanTo, byteSize_nil, Nat.add_zero,
    decide_eq_false_iff_not] at hne hoffset
  exact hne (Nat.le_of_eq hoffset)

/-- Alternatives fit wherever the matches of their scope do. -/
theorem fits_firstOf (names : List String) : (firstOf names).Fits := by
  intro s hs offset t ht _
  exact hs _ _ _ _ ht

/-- Every built-in rule fits. -/
theorem fits_of_mem_builtIn {entry : String × Rule} (h : entry ∈ builtIn) : entry.2.Fits :=
  (isLocal_of_mem_builtIn h).fits

/-- Every rule that is provided fits. -/
theorem IsProvided.fits {rule : Rule} (h : rule.IsProvided) : rule.Fits := by
  cases h with
  | builtIn h => exact fits_of_mem_builtIn h
  | never =>
    rintro s - offset t ⟨⟩
  | emptyText => exact isLocal_emptyText.fits
  | fixedText text => exact (isLocal_fixedText text).fits
  | firstOf names => exact fits_firstOf names
  | parenthesised names => exact (isLocal_parenthesised names).fits

end Rule

namespace Registry

variable {r : Registry} {limit index fuel level offset : Nat} {text : List Char}
  {names : List String} {t : Token}

/-- The scope that a registry gives its rules. -/
def scope (r : Registry) (limit : Nat) (text : List Char) (index fuel level : Nat) : Scope where
  text := text
  index := index
  level := level
  limit := limit
  matchAtLevel level c names := (r.matchWith limit text index fuel level c names).toOption.join

/-- A registry fits when everything that its rules find in its own scopes fits, unless it is
empty and so counts as nothing. -/
def Fits (r : Registry) : Prop :=
  ∀ entry ∈ r.rules, ∀ (text : List Char) (index fuel level offset : Nat) (t : Token),
    entry.2 (r.scope Lexer.nestingLimit text index fuel level) (.atOffset text offset) = some t →
      t.isEmpty = false → t.FitsAt text offset

/-- With fuel left, a match is the first among the rules of the names, in the scope with one fuel
less. -/
theorem matchWith_succ (r : Registry) (limit : Nat) (text : List Char) (index fuel level : Nat)
    (c : Cursor) (names : List String) :
    r.matchWith limit text index (fuel + 1) level c names =
      (r.resolve names).map fun rules => firstMatch rules (r.scope limit text index fuel level) c :=
  rfl

/-- The rule of a name is in the registry under that name. -/
theorem mem_of_get? {name : String} {rule : Rule} (h : r.get? name = some rule) :
    (name, rule) ∈ r.rules := by
  obtain ⟨entry, hfind, rfl⟩ := Option.map_eq_some_iff.mp h
  have hname : entry.1 = name := by simpa using List.find?_some hfind
  rw [← hname]
  exact List.mem_of_find?_eq_some hfind

/-- Names have rules if the first one and the others have. -/
theorem exists_of_resolve_cons {name : String} {rules : List Rule}
    (h : r.resolve (name :: names) = .ok rules) :
    ∃ rule others, r.get? name = some rule ∧ r.resolve names = .ok others ∧
      rules = rule :: others := by
  rw [resolve] at h
  split at h
  · cases h
  · next rule hrule =>
    cases hothers : r.resolve names with
    | error e =>
      rw [hothers] at h
      cases h
    | ok others =>
      rw [hothers] at h
      exact ⟨rule, others, hrule, rfl, (Except.ok.inj h).symm⟩

/-- Names are looked up in the registry. -/
theorem exists_of_resolve {rules : List Rule} (h : r.resolve names = .ok rules) {rule : Rule}
    (hrule : rule ∈ rules) : ∃ name ∈ names, (name, rule) ∈ r.rules := by
  induction names generalizing rules with
  | nil =>
    obtain rfl : [] = rules := Except.ok.inj h
    cases hrule
  | cons name names ih =>
    obtain ⟨first, others, hfirst, hothers, rfl⟩ := exists_of_resolve_cons h
    rcases List.mem_cons.mp hrule with rfl | hrule
    · exact ⟨name, List.mem_cons_self, mem_of_get? hfirst⟩
    · obtain ⟨other, hother, hmem⟩ := ih hothers hrule
      exact ⟨other, List.mem_cons_of_mem _ hother, hmem⟩

/-- The first match is made by one of the rules and is not empty. -/
theorem exists_of_firstMatch {rules : List Rule} {s : Scope} {c : Cursor}
    (h : firstMatch rules s c = some t) :
    ∃ rule ∈ rules, rule s c = some t ∧ t.isEmpty = false := by
  obtain ⟨rule, hrule, ht⟩ := List.exists_of_findSome?_eq_some h
  obtain ⟨hfound, hne⟩ := Option.filter_eq_some_iff.mp ht
  exact ⟨rule, hrule, hfound, by simpa using hne⟩

/-- Rules that find the same at two places have the same first match there. -/
theorem firstMatch_congr {rules : List Rule} {s s' : Scope} {c c' : Cursor}
    (h : ∀ rule ∈ rules, rule s c = rule s' c') :
    firstMatch rules s c = firstMatch rules s' c' := by
  induction rules with
  | nil => rfl
  | cons rule rules ih =>
    rw [List.forall_mem_cons] at h
    have hrest := ih h.2
    rw [firstMatch] at hrest ⊢
    rw [firstMatch, List.findSome?_cons, List.findSome?_cons, h.1, hrest]
    rfl

/-- What is matched was found by one of the rules named, and is not empty. -/
theorem exists_of_matchWith {c : Cursor}
    (h : r.matchWith limit text index fuel level c names = .ok (some t)) :
    ∃ fuel', fuel = fuel' + 1 ∧ ∃ name ∈ names, ∃ rule, (name, rule) ∈ r.rules ∧
      rule (r.scope limit text index fuel' level) c = some t ∧ t.isEmpty = false := by
  cases fuel with
  | zero => cases h
  | succ fuel =>
    rw [matchWith_succ] at h
    cases hresolve : r.resolve names with
    | error e =>
      rw [hresolve] at h
      cases h
    | ok rules =>
      rw [hresolve] at h
      obtain ⟨rule, hrule, hfound, hne⟩ := exists_of_firstMatch (Except.ok.inj h)
      obtain ⟨name, hname, hmem⟩ := exists_of_resolve hresolve hrule
      exact ⟨fuel, rfl, name, hname, rule, hmem, hfound, hne⟩

private theorem matchWith_of_matchAtLevel {c : Cursor}
    (h : (r.scope limit text index fuel level).matchAtLevel offset c names = some t) :
    r.matchWith limit text index fuel offset c names = .ok (some t) := by
  change (r.matchWith limit text index fuel offset c names).toOption.join = some t at h
  cases hmatch : r.matchWith limit text index fuel offset c names with
  | error e =>
    rw [hmatch] at h
    cases h
  | ok found =>
    rw [hmatch] at h
    exact congrArg Except.ok h

/-- Where all rules fit, so does every scope of the registry. -/
theorem fits_scope (hr : ∀ entry ∈ r.rules, entry.2.Fits) (limit : Nat) (text : List Char)
    (index fuel level : Nat) : (r.scope limit text index fuel level).Fits := by
  induction fuel generalizing level with
  | zero =>
    intro level offset names t h
    cases matchWith_of_matchAtLevel h
  | succ fuel ih =>
    intro level' offset names t h
    obtain ⟨fuel', hfuel, name, -, rule, hmem, hfound, hne⟩ :=
      exists_of_matchWith (matchWith_of_matchAtLevel h)
    obtain rfl := Nat.succ.inj hfuel
    exact hr (name, rule) hmem _ (ih level') _ _ hfound hne

/-- A registry of rules that fit fits. -/
theorem fits_of_rules (hr : ∀ entry ∈ r.rules, entry.2.Fits) : r.Fits := by
  intro entry hentry text index fuel level offset t ht hne
  exact hr entry hentry _ (fits_scope hr _ text index fuel level) offset t ht hne

/-- The grammar of data literals fits. -/
theorem fits_standard : Registry.standard.Fits :=
  fits_of_rules fun _ hentry => Rule.fits_of_mem_builtIn hentry

/-- Giving a name a rule leaves no other rule than it and those that were there. -/
theorem mem_of_mem_put {name : String} {rule : Rule} {rules : List (String × Rule)}
    {entry : String × Rule} (h : entry ∈ put name rule rules) :
    entry = (name, rule) ∨ entry ∈ rules := by
  induction rules with
  | nil => exact Or.inl (List.mem_singleton.mp h)
  | cons first rules ih =>
    obtain ⟨n, old⟩ := first
    rw [put] at h
    split at h
    · next hn =>
      rcases List.mem_cons.mp h with rfl | h
      · exact Or.inl (by rw [hn])
      · exact Or.inr (List.mem_cons_of_mem _ h)
    · rcases List.mem_cons.mp h with rfl | h
      · exact Or.inr List.mem_cons_self
      · exact (ih h).imp id (List.mem_cons_of_mem _)

/-- A registry of provided rules is one still when a name is given a provided rule. -/
theorem isProvided_of_mem_define {rule : Rule} (hr : ∀ entry ∈ r.rules, entry.2.IsProvided)
    (hrule : rule.IsProvided) (name : String) :
    ∀ entry ∈ (r.define name rule).rules, entry.2.IsProvided := by
  intro entry hentry
  rcases mem_of_mem_put hentry with rfl | hentry
  · exact hrule
  · exact hr entry hentry

/-- A registry of provided rules fits. -/
theorem fits_of_isProvided (hr : ∀ entry ∈ r.rules, entry.2.IsProvided) : r.Fits :=
  fits_of_rules fun entry hentry => (hr entry hentry).fits

end Registry

end TemplateReader
