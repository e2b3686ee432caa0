import TemplateReader.Proofs.Grammar.Matching

/-!
# Orders of alternatives

What a built-in rule finds begins with a character of one kind: a letter, a quote,
a digit or a minus sign, a brace or a bracket. So two rules compete only where
their kinds agree, and there are four such pairs. An order of names matters in so
far as it decides these pairs; whatever else it does, the same is matched.
-/

namespace TemplateReader

/-- The kinds of characters that values begin with. -/
inductive Initial where
  /-- The letter of `null`. -/
  | null
  /-- The letters of `true` and `false`. -/
  | truth
  /-- Any other character that begins a word. -/
  | word
  /-- A quote. -/
  | quote
  /-- A digit or a minus sign. -/
  | number
  /-- An opening brace. -/
  | brace
  /-- An opening bracket. -/
  | bracket
deriving DecidableEq

/-- The kind of a character with which a value may begin. -/
def initial? (c : Char) : Option Initial :=
  if c = 'n' then some .null
  else if c = 't' || c = 'f' then some .truth
  else if isWordStart c then some .word
  else if isTagQuote c then some .quote
  else if c = '-' || c.isDigit then some .number
  else if c = '{' then some .brace
  else if c = '[' then some .bracket
  else none

/-- The built-in names with the kinds of characters that what they stand for may begin with. -/
def initials : List (String × Initial) :=
  [("Null", .null), ("Boolean", .truth), ("String", .quote), ("Float", .number),
    ("Integer", .number), ("Identifier", .null), ("Identifier", .truth), ("Identifier", .word),
    ("ObjectExpression", .brace), ("ArrayExpression", .bracket), ("ProgramExpression", .brace)]

/-- The pairs of names whose rules may both find something at one place. The name in front is the
one to be tried first. -/
def competitors : List (String × String) :=
  [("Float", "Integer"), ("Null", "Identifier"), ("Boolean", "Identifier"),
    ("ObjectExpression", "ProgramExpression")]

/-- An order of names is settled when of each competing pair, the name in front comes first. -/
def IsSettled (names : List String) : Prop :=
  ∀ pair ∈ competitors, pair.2 ∈ names → names.idxOf pair.1 < names.idxOf pair.2

instance (names : List String) : Decidable (IsSettled names) :=
  inferInstanceAs (Decidable (∀ pair ∈ competitors, _ → _))

/-- The names of data, in any order and repeated at will, with the name of programs or without it,
such that numbers with a point, reserved words and objects come before what they compete with. -/
structure IsDataOrder (names : List String) : Prop where
  /-- No name of data is left out. -/
  complete : ∀ name ∈ dataNames, name ∈ names
  /-- No other name but that of programs occurs. -/
  known : ∀ name ∈ names, name ∈ dataNames ∨ name = "ProgramExpression"
  /-- The first number with a point is tried before the first number without one. -/
  float : names.idxOf "Float" < names.idxOf "Integer"
  /-- The first `null` is tried before the first name. -/
  null : names.idxOf "Null" < names.idxOf "Identifier"
  /-- The first truth value is tried before the first name. -/
  boolean : names.idxOf "Boolean" < names.idxOf "Identifier"
  /-- The first object is tried before the first program. -/
  object : "ProgramExpression" ∈ names →
    names.idxOf "ObjectExpression" < names.idxOf "ProgramExpression"

/-- An order of the names of data puts every name in front of what it competes with. -/
theorem IsDataOrder.isSettled {names : List String} (h : IsDataOrder names) : IsSettled names := by
  intro pair hpair hmem
  simp only [competitors, List.mem_cons, List.not_mem_nil, or_false] at hpair
  rcases hpair with rfl | rfl | rfl | rfl
  · exact h.float
  · exact h.null
  · exact h.boolean
  · exact h.object hmem

/-- Where a name that comes first is tried, every earlier one has been. -/
theorem mem_of_idxOf_lt {before after : List String} {first second : String}
    (h : (before ++ second :: after).idxOf first < (before ++ second :: after).idxOf second) :
    first ∈ before := by
  by_contra hfirst
  rw [List.idxOf_append, if_neg hfirst, List.idxOf_append] at h
  split at h
  · next hsecond =>
    have hlt := List.idxOf_lt_length_of_mem hsecond
    omega
  · rw [List.idxOf_cons_self] at h
    omega

section

variable {β : Type} {found : String → Option β} {names names' : List String} {b : β}

/-- In a settled order the choice falls on the one name that gives way to no other. -/
theorem findSome?_eq_some_iff_of_isSettled
    (hfound : ∀ n m, (found n).isSome = true → (found m).isSome = true →
      n = m ∨ (n, m) ∈ competitors ∨ (m, n) ∈ competitors)
    (hnames : IsSettled names) :
    names.findSome? found = some b ↔ ∃ n ∈ names, found n = some b ∧
      ∀ m ∈ names, (found m).isSome = true → n = m ∨ (n, m) ∈ competitors := by
  have hchosen {b : β} (h : names.findSome? found = some b) : ∃ n ∈ names, found n = some b ∧
      ∀ m ∈ names, (found m).isSome = true → n = m ∨ (n, m) ∈ competitors := by
    obtain ⟨before, n, after, rfl, hn, hbefore⟩ := List.findSome?_eq_some_iff.mp h
    have hmem : n ∈ before ++ n :: after := List.mem_append_right _ List.mem_cons_self
    refine ⟨n, hmem, hn, fun m hm hsome => ?_⟩
    rcases hfound n m (Option.isSome_of_eq_some hn) hsome with h | h | h
    · exact Or.inl h
    · exact Or.inr h
    · have hnone := hbefore m (mem_of_idxOf_lt (hnames (m, n) h hmem))
      rw [hnone] at hsome
      cases hsome
  constructor
  · exact hchosen
  · rintro ⟨n, hn, hb, hfirst⟩
    cases hchoice : names.findSome? found with
    | none =>
      rw [List.findSome?_eq_none_iff.mp hchoice n hn] at hb
      cases hb
    | some b' =>
      obtain ⟨n', hn', hb', hfirst'⟩ := hchosen hchoice
      -- No pair of competitors is one in both orders.
      have hasymm : ∀ pair ∈ competitors, (pair.2, pair.1) ∉ competitors := by decide
      have hsame : n = n' := by
        rcases hfirst n' hn' (Option.isSome_of_eq_some hb') with h | h
        · exact h
        · rcases hfirst' n hn (Option.isSome_of_eq_some hb) with h' | h'
          · exact h'.symm
          · exact absurd h' (hasymm _ h)
      rw [hsame] at hb
      exact hb'.symm.trans hb

/-- Two settled orders of the same names come to the same choice. -/
theorem findSome?_congr_of_isSettled
    (hfound : ∀ n m, (found n).isSome = true → (found m).isSome = true →
      n = m ∨ (n, m) ∈ competitors ∨ (m, n) ∈ competitors)
    (hnames : IsSettled names) (hnames' : IsSettled names')
    (hsame : ∀ name, name ∈ names ↔ name ∈ names') :
    names.findSome? found = names'.findSome? found := by
  ext b
  rw [findSome?_eq_some_iff_of_isSettled hfound hnames,
    findSome?_eq_some_iff_of_isSettled hfound hnames']
  simp only [hsame]

end

section

variable {s : Scope} {c : Cursor} {t : Token} {n m : String}

/-- What a rule of a registry finds at a cursor, unless it is empty. -/
def Registry.found (r : Registry) (s : Scope) (c : Cursor) (name : String) : Option Token :=
  (r.get? name).bind fun rule => (rule s c).filter fun t => !t.isEmpty

/-- The first match of some names is found under the first name that finds anything. -/
theorem Registry.firstMatch_eq_findSome? {r : Registry} {names : List String} {rules : List Rule}
    (h : r.resolve names = .ok rules) (s : Scope) (c : Cursor) :
    firstMatch rules s c = names.findSome? (r.found s c) := by
  induction names generalizing rules with
  | nil =>
    obtain rfl : [] = rules := Except.ok.inj h
    rfl
  | cons name names ih =>
    obtain ⟨rule, others, hrule, hothers, rfl⟩ := exists_of_resolve_cons h
    rw [List.findSome?_cons, ← ih hothers, found, hrule]
    rfl

private theorem initial_of_number {ch : Char} (h : ch = '-' ∨ ch.isDigit = true) :
    initial? ch = some .number := by
  have hword : ¬isWordStart ch = true := fun hstart => notNumberStart_of_isWordStart hstart h
  have hnull : ¬ch = 'n' := by
    rintro rfl
    exact hword rfl
  have htruth : ¬(ch = 't' || ch = 'f') = true := by
    intro htruth
    rcases (by simpa using htruth : ch = 't' ∨ ch = 'f') with rfl | rfl <;> exact hword rfl
  have hquote : ¬isTagQuote ch = true := by
    intro hquote
    rcases isTagQuote_iff.mp hquote with rfl | rfl
    all_goals rcases h with h | h <;> cases h
  rw [initial?, if_neg hnull, if_neg htruth, if_neg hword, if_neg hquote, if_pos (by simpa using h)]

private theorem initial_of_word {ch : Char} (h : isWordStart ch = true) :
    ∃ kind, ("Identifier", kind) ∈ initials ∧ initial? ch = some kind := by
  by_cases hnull : ch = 'n'
  · exact ⟨.null, by decide, if_pos hnull⟩
  by_cases htruth : (ch = 't' || ch = 'f') = true
  · exact ⟨.truth, by decide, (if_neg hnull).trans (if_pos htruth)⟩
  · exact ⟨.word, by decide, (if_neg hnull).trans ((if_neg htruth).trans (if_pos h))⟩

/-- What a built-in rule finds begins with a character of a kind of the rule's. -/
theorem exists_initial_of_rule {name : String} {rule : Rule} (hrule : (name, rule) ∈ Rule.builtIn)
    (h : rule s c = some t) :
    BeginsWith (fun ch => ∃ kind, (name, kind) ∈ initials ∧ initial? ch = some kind) c.rest := by
  have begins {p : Char → Prop} (hhead : BeginsWith p c.rest)
      (hp : ∀ ch, p ch → ∃ kind, (name, kind) ∈ initials ∧ initial? ch = some kind) :
      BeginsWith (fun ch => ∃ kind, (name, kind) ∈ initials ∧ initial? ch = some kind) c.rest := by
    obtain ⟨ch, hch, hkind⟩ := hhead
    exact ⟨ch, hch, hp ch hkind⟩
  simp only [Rule.builtIn, List.mem_cons, List.not_mem_nil, or_false, Prod.mk.injEq] at hrule
  rcases hrule with ⟨rfl, rfl⟩ | ⟨rfl, rfl⟩ | ⟨rfl, rfl⟩ | ⟨rfl, rfl⟩ | ⟨rfl, rfl⟩ | ⟨rfl, rfl⟩ |
    ⟨rfl, rfl⟩ | ⟨rfl, rfl⟩ | ⟨rfl, rfl⟩
  · exact begins (head_of_null h) (by rintro ch rfl; exact ⟨.null, by decide, rfl⟩)
  · refine begins (head_of_boolean h) ?_
    rintro ch (rfl | rfl) <;> exact ⟨.truth, by decide, rfl⟩
  · refine begins (head_of_string h) fun ch hquote => ⟨.quote, by decide, ?_⟩
    rcases isTagQuote_iff.mp hquote with rfl | rfl <;> rfl
  · exact begins (head_of_float h) fun ch hch => ⟨.number, by decide, initial_of_number hch⟩
  · exact begins (head_of_integer h) fun ch hch => ⟨.number, by decide, initial_of_number hch⟩
  · exact begins (head_of_identifier h) fun ch => initial_of_word
  · exact begins (head_of_object h) (by rintro ch rfl; exact ⟨.brace, by decide, rfl⟩)
  · exact begins (head_of_array h) (by rintro ch rfl; exact ⟨.bracket, by decide, rfl⟩)
  · exact begins (head_of_program h) (by rintro ch rfl; exact ⟨.brace, by decide, rfl⟩)

/-- Only competitors find something at the same place. -/
theorem competitors_of_found (hn : (Registry.standard.found s c n).isSome = true)
    (hm : (Registry.standard.found s c m).isSome = true) :
    n = m ∨ (n, m) ∈ competitors ∨ (m, n) ∈ competitors := by
  have begins {name : String} (h : (Registry.standard.found s c name).isSome = true) :
      BeginsWith (fun ch => ∃ kind, (name, kind) ∈ initials ∧ initial? ch = some kind) c.rest := by
    obtain ⟨t, ht⟩ := Option.isSome_iff_exists.mp h
    obtain ⟨rule, hget, ht⟩ := Option.bind_eq_some_iff.mp ht
    exact exists_initial_of_rule (Registry.mem_of_get? hget) (Option.filter_eq_some_iff.mp ht).1
  have hshared : ∀ a ∈ initials, ∀ b ∈ initials, a.2 = b.2 →
      a.1 = b.1 ∨ (a.1, b.1) ∈ competitors ∨ (b.1, a.1) ∈ competitors := by
    decide
  obtain ⟨ch, hch, kind, hkind, hinitial⟩ := begins hn
  obtain ⟨ch', hch', kind', hkind', hinitial'⟩ := begins hm
  obtain rfl := Option.some.inj (hch.symm.trans hch')
  exact hshared (n, kind) hkind (m, kind') hkind' (Option.some.inj (hinitial.symm.trans hinitial'))

/-- At one offset of a text, each name finds something or nothing, and only competitors find something
both. Matching takes the first name that finds something. -/
theorem Lexer.exists_found {l : Lexer} (hl : l.registry = .standard) (offset : Nat) :
    ∃ found : String → Option Token,
      (∀ n m, (found n).isSome = true → (found m).isSome = true →
        n = m ∨ (n, m) ∈ competitors ∨ (m, n) ∈ competitors) ∧
      ∀ names : List String, (∀ name ∈ names, Registry.standard.has name = true) →
        l.matchAt offset (some names) = .ok (names.findSome? found) := by
  obtain ⟨s, hs⟩ := l.exists_matchCursor_eq
  refine ⟨Registry.standard.found s (.atOffset l.text offset), fun n m => competitors_of_found, ?_⟩
  intro names hnames
  obtain ⟨rules, hrules⟩ := Registry.exists_resolve hnames
  have hmatch := hs (.atOffset l.text offset) names
  rw [hl, hrules] at hmatch
  rw [matchAt, Option.getD_some, hmatch]
  exact congrArg Except.ok (Registry.firstMatch_eq_findSome? hrules s _)

end

/-- The names in an order of data have rules in the standard registry. -/
theorem IsDataOrder.has {names : List String} (h : IsDataOrder names) :
    ∀ name ∈ names, Registry.standard.has name = true := by
  have hdata : ∀ name ∈ dataNames, Registry.standard.has name = true := by decide
  intro name hname
  rcases h.known name hname with hmem | rfl
  · exact hdata name hmem
  · decide

/-- Such an order has the names of data, and with them the name of programs or no other. -/
theorem IsDataOrder.mem_iff {names : List String} (h : IsDataOrder names) (name : String) :
    name ∈ names ↔
      name ∈ dataNames ++ if "ProgramExpression" ∈ names then ["ProgramExpression"] else [] := by
  constructor
  · intro hname
    rcases h.known name hname with hmem | rfl
    · exact List.mem_append_left _ hmem
    · rw [if_pos hname]
      exact List.mem_append_right _ List.mem_cons_self
  · intro hname
    rcases List.mem_append.mp hname with hmem | hmem
    · exact h.complete name hmem
    · split at hmem
      · next hprogram => rwa [List.mem_singleton.mp hmem]
      · cases hmem

/-- The order in which the rules are registered is one of these. -/
theorem isDataOrder_standard : IsDataOrder Registry.standard.names where
  complete := by decide
  known := by decide
  float := by decide
  null := by decide
  boolean := by decide
  object := by decide

/-- The order of alternatives matters only between competitors. Under every order of the names of
data, with the name of programs or without, that decides these as the grammar does, a lexer for data
literals matches what it matches as data and, where that is nothing, the program there if programs are
named. Without names, so that all rules are tried as they are registered, it matches data or else a
program. -/
theorem Lexer.matchAt_ordered {l : Lexer} (hl : l.registry = .standard) (offset : Nat)
    {names : List String} (h : IsDataOrder names) :
    ∃ value program : Option Token,
      l.matchAt offset (some dataNames) = .ok value ∧
      l.matchAt offset (some ["ProgramExpression"]) = .ok program ∧
      l.matchAt offset (some names) =
        .ok (value.or (if "ProgramExpression" ∈ names then program else none)) ∧
      l.matchAt offset none = .ok (value.or program) := by
  obtain ⟨found, hfound, hmatch⟩ := exists_found hl offset
  -- Every order comes to the same choice as the names of data with the fallback behind them.
  have hchoice {order : List String} (horder : IsDataOrder order) :
      l.matchAt offset (some order) = .ok ((dataNames.findSome? found).or
        (if "ProgramExpression" ∈ order then ["ProgramExpression"].findSome? found else none)) := by
    rw [hmatch order horder.has, findSome?_congr_of_isSettled hfound horder.isSettled
      (by split <;> decide) horder.mem_iff, List.findSome?_append]
    split <;> rfl
  have hregistered : l.matchAt offset none = l.matchAt offset (some Registry.standard.names) := by
    rw [matchAt, matchAt, hl]
    rfl
  refine ⟨dataNames.findSome? found, ["ProgramExpression"].findSome? found, hmatch _ (by decide),
    hmatch _ (by decide), hchoice h, ?_⟩
  have hprogram : "ProgramExpression" ∈ Registry.standard.names := by decide
  rw [hregistered, hchoice isDataOrder_standard, if_pos hprogram]

private def looseBraces : Lexer := Lexer.standard.load "\x7ba b\x7d, 1.5".toList

private def shuffledNames : List String :=
  ["ArrayExpression", "Float", "ObjectExpression", "Null", "ProgramExpression", "Boolean",
    "Identifier", "Integer", "String", "Float"]

/-- Braces around two words are no object and no data at all, but they are a program, wherever
programs are tried behind objects. -/
theorem Lexer.matchAt_ordered_looseBraces :
    IsDataOrder shuffledNames ∧ looseBraces.matchAt 0 (some dataNames) = .ok none ∧
      ∃ t, t.span = ⟨0, 5⟩ ∧ looseBraces.matchAt 0 (some shuffledNames) = .ok (some t) := by
  have hshuffled : IsDataOrder shuffledNames :=
    ⟨by decide, by decide, by decide, by decide, by decide, by decide⟩
  obtain ⟨value, program, hvalue, hprogram, hnames, -⟩ :=
    Lexer.matchAt_ordered (l := looseBraces) rfl 0 hshuffled
  have hread : ((looseBraces.matchAt 0 (some ["ProgramExpression"])).toOption.any fun matched =>
      matched.any fun t => decide (t.span = ⟨0, 5⟩)) = true := by
    decide +kernel
  have hnone : ((looseBraces.matchAt 0 (some dataNames)).toOption.any Option.isNone) = true := by
    decide +kernel
  obtain ⟨t, hmatch, ht⟩ := exists_of_any hread
  rw [hvalue] at hnone
  obtain rfl : value = none := Option.isNone_iff_eq_none.mp hnone
  obtain rfl : program = some t := Except.ok.inj (hprogram.symm.trans hmatch)
  exact ⟨hshuffled, hvalue, t, of_decide_eq_true ht, hnames⟩

end TemplateReader
