import Mathlib.Data.Finset.Card
import TemplateReader.Grammar.Table
import TemplateReader.Proofs.Grammar.Alternatives
import TemplateReader.Proofs.Grammar.Leftmost

/-!
# Sequences of definitions

What a registry knows depends on nothing but the definitions that have been given one
after the other: which names were given and which first, and the last rule of each. The
list and the table of a registry are in step with these after every definition, so each
name of the list has a rule, and all names can be matched in their order.
-/

namespace TemplateReader

/-- The last rule that a name was given. -/
def IsLatest (history : List (String × Rule)) (name : String) (rule : Rule) : Prop :=
  ∃ before after, history = before ++ (name, rule) :: after ∧ ∀ later ∈ after, later.1 ≠ name

/-- The names that were given rules, in the order of the definitions. -/
abbrev definedNames (history : List (String × Rule)) : List String := history.map Prod.fst

/-- One name was first given a rule before another was. -/
def DefinedBefore (history : List (String × Rule)) (first second : String) : Prop :=
  (definedNames history).idxOf first < (definedNames history).idxOf second

namespace RuleTable

/-- A table records the definitions that were given one after the other. -/
structure Records (t : RuleTable) (history : List (String × Rule)) : Prop where
  /-- Each name that was given a rule is listed. -/
  mem_names : ∀ name, name ∈ t.names ↔ name ∈ definedNames history
  /-- No name is listed twice. -/
  nodup : t.names.Nodup
  /-- A name that was first given earlier comes first. -/
  order : t.names.Pairwise (DefinedBefore history)
  /-- The names are counted. -/
  size : t.size = (definedNames history).toFinset.card
  /-- They and no others have rules. -/
  has : ∀ name, t.has name = true ↔ name ∈ definedNames history
  /-- The rule of a name is the last one that it was given. -/
  get? : ∀ name rule, t.get? name = some rule ↔ IsLatest history name rule

/-- A table and a registry hold the same names, in the same order, with the same rules. -/
structure Represents (t : RuleTable) (r : Registry) : Prop where
  names : t.names = r.names
  size : t.size = r.size
  has : ∀ name, t.has name = r.has name
  get? : ∀ name, t.get? name = r.get? name

end RuleTable

namespace Registry

/-- Gives names rules one after the other. -/
def defineAll (r : Registry) (definitions : List (String × Rule)) : Registry :=
  definitions.foldl (fun r (name, rule) => r.define name rule) r

/-- What may be there before the first definition. -/
inductive Start where
  /-- No rules. -/
  | empty
  /-- The grammar of data literals. -/
  | standard
deriving DecidableEq, Repr

namespace Start

/-- It as a registry. -/
def registry : Start → Registry
  | empty => .empty
  | standard => .standard

/-- It as a list and a table. -/
def table : Start → RuleTable
  | empty => .empty
  | standard => .standard

/-- The definitions that have led to it. -/
def history : Start → List (String × Rule)
  | empty => []
  | standard => Rule.builtIn

end Start

end Registry

namespace Lexer

/-- Gives names rules one after the other. -/
def defineAll (l : Lexer) (definitions : List (String × Rule)) : Lexer :=
  definitions.foldl (fun l (name, rule) => l.define name rule) l

/-- A lexer whose registry was there at the start and has been given rules since. -/
def defining (l : Lexer) (start : Registry.Start) (definitions : List (String × Rule)) : Lexer :=
  { l with registry := start.registry }.defineAll definitions

/-- What matching all names at an offset comes to: of the last rules of the names, in the order of
the list, the first that matches. A rule whose match is empty does not match. -/
inductive FirstMatch (l : Lexer) (history : List (String × Rule)) (offset : Nat) :
    Option Token → Prop
  | found {earlier later : List String} {name : String} {rule : Rule} {t : Token}
    (names : l.registry.names = earlier ++ name :: later) (latest : IsLatest history name rule)
    (matched : l.Matches rule offset t)
    (passed : ∀ other ∈ earlier, ∀ rule, IsLatest history other rule →
      ∀ t, ¬l.Matches rule offset t) : FirstMatch l history offset (some t)
  | missed (passed : ∀ other rule, IsLatest history other rule → ∀ t, ¬l.Matches rule offset t) :
    FirstMatch l history offset none

end Lexer

section

variable {history : List (String × Rule)} {name other first second : String} {rule rule' : Rule}

/-- A further definition adds its name at the end. -/
theorem definedNames_concat (history : List (String × Rule)) (name : String) (rule : Rule) :
    definedNames (history ++ [(name, rule)]) = definedNames history ++ [name] :=
  List.map_append

/-- A further definition does not change which of two names was first given. -/
theorem DefinedBefore.concat (h : DefinedBefore history first second)
    (hsecond : second ∈ definedNames history) (name : String) (rule : Rule) :
    DefinedBefore (history ++ [(name, rule)]) first second := by
  have hlt := List.idxOf_lt_length_of_mem hsecond
  have hfirst : first ∈ definedNames history := List.idxOf_lt_length_iff.mp (Nat.lt_trans h hlt)
  rw [DefinedBefore, definedNames_concat, List.idxOf_append_of_mem hfirst,
    List.idxOf_append_of_mem hsecond]
  exact h

/-- All names that were given before come before a new one. -/
theorem definedBefore_new (hfirst : first ∈ definedNames history)
    (hnew : name ∉ definedNames history) (rule : Rule) :
    DefinedBefore (history ++ [(name, rule)]) first name := by
  rw [DefinedBefore, definedNames_concat, List.idxOf_append_of_mem hfirst,
    List.idxOf_append_of_notMem hnew]
  exact Nat.lt_add_right _ (List.idxOf_lt_length_of_mem hfirst)

/-- Before any definition no name has a last rule. -/
theorem not_isLatest_nil : ¬IsLatest [] name rule := by
  rintro ⟨before, after, hsplit, -⟩
  exact List.append_ne_nil_of_right_ne_nil before (List.cons_ne_nil _ _) hsplit.symm

/-- The last rule of a name is that of the last definition, if that is of this name, and else what
it was before. -/
theorem isLatest_concat :
    IsLatest (history ++ [(name, rule)]) other rule' ↔
      if other = name then rule' = rule else IsLatest history other rule' := by
  constructor
  · rintro ⟨before, after, hsplit, hlast⟩
    rcases List.eq_nil_or_concat' after with rfl | ⟨after, last, rfl⟩
    · obtain ⟨-, hentry⟩ := List.append_inj' hsplit rfl
      obtain ⟨rfl, rfl⟩ := Prod.mk.inj (List.singleton_inj.mp hentry)
      rw [if_pos rfl]
    · rw [← List.cons_append, ← List.append_assoc] at hsplit
      obtain ⟨hhistory, hentry⟩ := List.append_inj' hsplit rfl
      obtain rfl := List.singleton_inj.mp hentry
      have hne : name ≠ other := hlast (name, rule) (by simp)
      rw [if_neg hne.symm]
      exact ⟨before, after, hhistory, fun later hlater => hlast later (by simp [hlater])⟩
  · intro h
    split at h
    · next heq =>
      obtain rfl := heq
      obtain rfl := h
      exact ⟨history, [], rfl, List.forall_mem_nil _⟩
    · next hne =>
      obtain ⟨before, after, rfl, hlast⟩ := h
      refine ⟨before, after ++ [(name, rule)], by simp, ?_⟩
      exact List.forall_mem_append.mpr ⟨hlast, List.forall_mem_singleton.mpr (Ne.symm hne)⟩

end

/-- A name has a rule exactly if it is one of the names. -/
theorem Registry.has_iff_mem_names {r : Registry} {name : String} :
    r.has name = true ↔ name ∈ r.names := by
  rw [has, get?, Option.isSome_map, List.find?_isSome, names, List.mem_map]
  simp only [decide_eq_true_eq]

/-- All names of a registry have rules. -/
theorem Registry.exists_resolve_names (r : Registry) : ∃ rules, r.resolve r.names = .ok rules :=
  exists_resolve fun _ hname => has_iff_mem_names.mpr hname

namespace RuleTable

section

variable {t : RuleTable} {r : Registry} {history : List (String × Rule)} {name other : String}

/-- A definition adds its name to the list unless the table knows it. -/
theorem names_define (t : RuleTable) (name : String) (rule : Rule) :
    (t.define name rule).names = if t.has name = true then t.names else t.names ++ [name] := rfl

/-- Behind a definition the table knows the name and those that it knew. -/
theorem has_define (t : RuleTable) (name other : String) (rule : Rule) :
    (t.define name rule).has other = (name == other || t.has other) :=
  Std.HashMap.contains_insert

/-- Behind a definition the name has the rule, and the others have theirs. -/
theorem get?_define (t : RuleTable) (name other : String) (rule : Rule) :
    (t.define name rule).get? other = if other = name then some rule else t.get? other := by
  rw [get?, define, Std.HashMap.getElem?_insert]
  by_cases heq : other = name
  · rw [if_pos heq, if_pos (beq_iff_eq.mpr heq.symm)]
  · rw [if_neg heq, if_neg (mt beq_iff_eq.mp (Ne.symm heq))]
    rfl

/-- That no name is listed twice and how many there are follows from their order. -/
theorem records_of_order (hmem : ∀ name, name ∈ t.names ↔ name ∈ definedNames history)
    (horder : t.names.Pairwise (DefinedBefore history))
    (hhas : ∀ name, t.has name = true ↔ name ∈ definedNames history)
    (hget : ∀ name rule, t.get? name = some rule ↔ IsLatest history name rule) :
    t.Records history := by
  have hnodup : t.names.Nodup := by
    refine horder.imp fun hlt => ?_
    rintro rfl
    exact Nat.lt_irrefl _ hlt
  have hset : t.names.toFinset = (definedNames history).toFinset := by
    ext name
    rw [List.mem_toFinset, List.mem_toFinset, hmem]
  refine ⟨hmem, hnodup, horder, ?_, hhas, hget⟩
  rw [← hset, List.toFinset_card_of_nodup hnodup]
  rfl

/-- The empty table records no definitions. -/
theorem records_empty : empty.Records [] :=
  records_of_order (fun _ => Iff.rfl) .nil
    (fun _ => by simp [has, empty]) (fun _ _ => by simp [get?, empty, not_isLatest_nil])

/-- One definition keeps the list and the table in step with what has been defined. -/
theorem Records.define (h : t.Records history) (name : String) (rule : Rule) :
    (t.define name rule).Records (history ++ [(name, rule)]) := by
  have hmem : ∀ other, other ∈ (t.define name rule).names ↔
      other ∈ definedNames (history ++ [(name, rule)]) := by
    intro other
    rw [names_define, definedNames_concat, List.mem_append, List.mem_singleton, ← h.mem_names]
    split
    · next hhas =>
      have hname : name ∈ t.names := (h.mem_names name).mpr ((h.has name).mp hhas)
      exact (or_iff_left_of_imp fun heq => heq ▸ hname).symm
    · rw [List.mem_append, List.mem_singleton]
  have horder : t.names.Pairwise (DefinedBefore (history ++ [(name, rule)])) :=
    h.order.imp_of_mem fun _ hb hlt => hlt.concat ((h.mem_names _).mp hb) name rule
  apply records_of_order hmem
  · rw [names_define]
    split
    · exact horder
    · next hhas =>
      have hnew : name ∉ definedNames history := fun hname => hhas ((h.has name).mpr hname)
      refine List.pairwise_append.mpr ⟨horder, List.pairwise_singleton _ _, ?_⟩
      intro first hfirst second hsecond
      obtain rfl := List.mem_singleton.mp hsecond
      exact definedBefore_new ((h.mem_names first).mp hfirst) hnew rule
  · intro other
    rw [has_define, Bool.or_eq_true, h.has, beq_iff_eq, definedNames_concat, List.mem_append,
      List.mem_singleton, or_comm, eq_comm]
  · intro other rule'
    rw [get?_define, isLatest_concat]
    split
    · rw [Option.some_inj, eq_comm]
    · exact h.get? other rule'

/-- So does any number of definitions. -/
theorem Records.defineAll (h : t.Records history) (definitions : List (String × Rule)) :
    (t.defineAll definitions).Records (history ++ definitions) := by
  induction definitions generalizing t history with
  | nil =>
    rw [List.append_nil]
    exact h
  | cons entry definitions ih =>
    obtain ⟨name, rule⟩ := entry
    rw [← List.singleton_append, ← List.append_assoc]
    exact ih (h.define name rule)

/-- The standard table records the built-in rules. -/
theorem records_standard : standard.Records Rule.builtIn :=
  records_empty.defineAll Rule.builtIn

/-- Names in the same order with the same rules are as many, and those with rules are the same. -/
theorem represents_of_names (hnames : t.names = r.names)
    (hget : ∀ name, t.get? name = r.get? name) : t.Represents r where
  names := hnames
  size := by
    have hlength := congrArg List.length hnames
    rwa [Registry.names, List.length_map] at hlength
  has name := by
    rw [has, Std.HashMap.contains_eq_isSome_getElem?, Registry.has, ← hget]
    rfl
  get? := hget

/-- The empty table holds what the empty registry holds. -/
theorem represents_empty : empty.Represents .empty :=
  represents_of_names rfl fun _ => by simp [get?, empty, Registry.get?, Registry.empty]

/-- A definition leaves a table and a registry with the same names and rules. -/
theorem Represents.define (h : t.Represents r) (name : String) (rule : Rule) :
    (t.define name rule).Represents (r.define name rule) := by
  apply represents_of_names
  · have hhas : t.has name = true ↔ name ∈ r.names := by
      rw [h.has, Registry.has_iff_mem_names]
    rw [names_define, Registry.names_define, h.names]
    simp only [hhas]
  · intro other
    rw [get?_define]
    split
    · next heq => rw [heq, Registry.get?_define_self]
    · next hne => rw [Registry.get?_define_of_ne r rule hne, h.get?]

/-- Any number of definitions leave a table and a registry with the same names and rules. -/
theorem Represents.defineAll (h : t.Represents r) (definitions : List (String × Rule)) :
    (t.defineAll definitions).Represents (r.defineAll definitions) := by
  induction definitions generalizing t r with
  | nil => exact h
  | cons entry definitions ih => exact ih (h.define entry.1 entry.2)

/-- The standard table holds what the standard registry holds. -/
theorem represents_standard : standard.Represents .standard :=
  represents_empty.defineAll Rule.builtIn

/-- A table and a registry that hold the same look up the same rules. -/
theorem Represents.resolve (h : t.Represents r) (names : List String) :
    t.resolve names = r.resolve names := by
  induction names with
  | nil => rfl
  | cons name names ih =>
    cases hrule : r.get? name with
    | none => simp only [RuleTable.resolve, Registry.resolve, h.get?, hrule]
    | some rule => simp only [RuleTable.resolve, Registry.resolve, h.get?, hrule, ih]

/-- A table matches all names as the registry that holds the same does, and never fails. -/
theorem Represents.matchAll (h : t.Represents r) (s : Scope) (c : Cursor) :
    t.matchAll s c = .ok (r.names.findSome? (r.found s c)) := by
  obtain ⟨rules, hrules⟩ := r.exists_resolve_names
  rw [RuleTable.matchAll, h.names, h.resolve, hrules, ← Registry.firstMatch_eq_findSome? hrules]
  rfl

end

end RuleTable

namespace Lexer

section

variable {l : Lexer} {history : List (String × Rule)} {offset : Nat} {t : Token} {name : String}
  {rule : Rule}

/-- What is found under a name is what its rule matches. -/
theorem found_eq_some_iff :
    l.registry.found l.scope (.atOffset l.text offset) name = some t ↔
      ∃ rule, l.registry.get? name = some rule ∧ l.Matches rule offset t := by
  rw [Registry.found, Option.bind_eq_some_iff]
  refine exists_congr fun rule => and_congr_right fun _ => ?_
  rw [Option.filter_eq_some_iff, Bool.not_eq_true']
  exact ⟨fun h => ⟨h.1, h.2⟩, fun h => ⟨h.found, h.nonempty⟩⟩

/-- Where nothing is found under a name, its rule does not match. -/
theorem not_matches_of_found (hrule : l.registry.get? name = some rule)
    (h : l.registry.found l.scope (.atOffset l.text offset) name = none) (t : Token) :
    ¬l.Matches rule offset t := by
  intro hmatch
  rw [found_eq_some_iff.mpr ⟨rule, hrule, hmatch⟩] at h
  cases h

/-- All names of a registry are looked up, and the first that finds anything is taken. -/
theorem matchAt_none (l : Lexer) (offset : Nat) :
    l.matchAt offset none =
      .ok (l.registry.names.findSome? (l.registry.found l.scope (.atOffset l.text offset))) := by
  obtain ⟨rules, hrules⟩ := l.registry.exists_resolve_names
  rw [matchAt, Option.getD_none, matchCursor_eq, hrules,
    ← Registry.firstMatch_eq_findSome? hrules]
  rfl

/-- Where each name has its last rule, this is the first match. -/
theorem firstMatch_of_latest
    (hlatest : ∀ name rule, l.registry.get? name = some rule ↔ IsLatest history name rule)
    (offset : Nat) :
    l.FirstMatch history offset
      (l.registry.names.findSome? (l.registry.found l.scope (.atOffset l.text offset))) := by
  cases hfound : l.registry.names.findSome?
      (l.registry.found l.scope (.atOffset l.text offset)) with
  | none =>
    rw [List.findSome?_eq_none_iff] at hfound
    refine .missed fun other rule hrule => ?_
    have hget := (hlatest other rule).mpr hrule
    have hother : other ∈ l.registry.names := by
      rw [← Registry.has_iff_mem_names, Registry.has, hget]
      rfl
    exact not_matches_of_found hget (hfound other hother)
  | some t =>
    obtain ⟨earlier, name, later, hnames, ht, hnone⟩ := List.findSome?_eq_some_iff.mp hfound
    obtain ⟨rule, hget, hmatched⟩ := found_eq_some_iff.mp ht
    refine .found hnames ((hlatest name rule).mp hget) hmatched fun other hother rule hrule => ?_
    exact not_matches_of_found ((hlatest other rule).mpr hrule) (hnone other hother)

/-- Definitions change the registry of a lexer and nothing else. -/
theorem defineAll_eq (l : Lexer) (definitions : List (String × Rule)) :
    l.defineAll definitions = { l with registry := l.registry.defineAll definitions } := by
  induction definitions generalizing l with
  | nil => rfl
  | cons entry definitions ih => exact ih (l.define entry.1 entry.2)

end

end Lexer

namespace Registry

/-- What is there at the start records the definitions that have led to it. -/
theorem Start.records (start : Start) : start.table.Records start.history := by
  cases start with
  | empty => exact RuleTable.records_empty
  | standard => exact RuleTable.records_standard

/-- At the start the table holds what the registry holds. -/
theorem Start.represents (start : Start) : start.table.Represents start.registry := by
  cases start with
  | empty => exact RuleTable.represents_empty
  | standard => exact RuleTable.represents_standard

/-- A registry of provided rules is one still when names are given provided rules. -/
theorem isProvided_of_mem_defineAll {r : Registry} {definitions : List (String × Rule)}
    (hr : ∀ entry ∈ r.rules, entry.2.IsProvided) (h : ∀ entry ∈ definitions, entry.2.IsProvided) :
    ∀ entry ∈ (r.defineAll definitions).rules, entry.2.IsProvided := by
  induction definitions generalizing r with
  | nil => exact hr
  | cons first definitions ih =>
    rw [List.forall_mem_cons] at h
    exact ih (isProvided_of_mem_define hr h.1 first.1) h.2

/-- Whatever names are given provided rules, in whatever order, the registry fits, and the lexers
that are made from it are disciplined. -/
theorem disciplined_of_isProvided (start : Start) {definitions : List (String × Rule)}
    (h : ∀ entry ∈ definitions, entry.2.IsProvided) :
    (start.registry.defineAll definitions).Fits ∧
      ∀ steps, ∀ l ∈ (start.registry.defineAll definitions).session steps, l.Disciplined := by
  have hstart : ∀ entry ∈ start.registry.rules, entry.2.IsProvided := by
    cases start with
    | empty => exact List.forall_mem_nil _
    | standard => exact fun _ => .builtIn
  have hfits := fits_of_isProvided (isProvided_of_mem_defineAll hstart h)
  exact ⟨hfits, fun steps l hl => (hfits.standsFor hl).disciplined hfits⟩

end Registry

/-- After any definitions, in whatever order and however often names are repeated, the list and the
table hold exactly the names that were given, in the order in which they were first given, each with
its last rule; the registry of a lexer holds the same; and so all names are matched without fail,
which finds the first match among the last rules of the names in their order. -/
theorem Lexer.defineAll_matchAt (start : Registry.Start) (definitions : List (String × Rule))
    (l : Lexer) (offset : Nat) :
    (start.table.defineAll definitions).Records (start.history ++ definitions) ∧
      (start.table.defineAll definitions).Represents
        (l.defining start definitions).registry ∧
      ∃ found, (l.defining start definitions).matchAt offset none = .ok found ∧
        (start.table.defineAll definitions).matchAll (l.defining start definitions).scope
          (.atOffset l.text offset) = .ok found ∧
        (l.defining start definitions).FirstMatch (start.history ++ definitions) offset found := by
  have hrecords := start.records.defineAll definitions
  have hrepresents : (start.table.defineAll definitions).Represents
      (l.defining start definitions).registry := by
    rw [defining, defineAll_eq]
    exact start.represents.defineAll definitions
  have hlatest : ∀ name rule, (l.defining start definitions).registry.get? name = some rule ↔
      IsLatest (start.history ++ definitions) name rule := by
    intro name rule
    rw [← hrepresents.get?, hrecords.get?]
  have htext : (l.defining start definitions).text = l.text := by
    rw [defining, defineAll_eq]
  have hmatchAll := hrepresents.matchAll (l.defining start definitions).scope
    (.atOffset (l.defining start definitions).text offset)
  rw [htext] at hmatchAll
  exact ⟨hrecords, hrepresents, _, matchAt_none _ offset, by rwa [htext],
    firstMatch_of_latest hlatest offset⟩

end TemplateReader
