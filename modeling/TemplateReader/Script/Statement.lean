import TemplateReader.Delimiter.Tag
import TemplateReader.Text.Ascii
import TemplateReader.Token.Basic

/-!
# Import statements

The grammar of a static import after its keyword: a module alone, or a clause
of names, the word `from` and a module. The words `type`, `as` and `from` are
also names; one word of lookahead tells which is meant.
-/

namespace TemplateReader

/-- The text without leading ASCII whitespace. -/
def skipSpace (text : List Char) : List Char :=
  text.dropWhile isSpace

/-- Reads a word behind any whitespace. -/
def word? (text : List Char) : Option (List Char × List Char) :=
  match skipSpace text with
  | [] => none
  | c :: text =>
    if isWordStart c then some (c :: text.takeWhile isWordChar, text.dropWhile isWordChar)
    else none

/-- Reads one character behind any whitespace. -/
def eat? (wanted : Char) (text : List Char) : Option (List Char) :=
  match skipSpace text with
  | [] => none
  | c :: text => if c = wanted then some text else none

/-- Reads a given word behind any whitespace. -/
def keyword? (wanted : String) (text : List Char) : Option (List Char) :=
  match word? text with
  | some (word, rest) => if word = wanted.toList then some rest else none
  | none => none

/-- Reads a quoted module behind any whitespace. -/
def module? (text : List Char) : Option (String × List Char) :=
  match skipSpace text with
  | [] => none
  | c :: text =>
    if isTagQuote c then
      (splitQuote c text).map fun (inner, rest) => (String.ofList inner, rest)
    else none

/-- Skipping whitespace never lengthens a text. -/
theorem length_skipSpace_le (text : List Char) : (skipSpace text).length ≤ text.length :=
  (List.dropWhile_suffix isSpace).length_le

/-- A word takes up at least its first character. -/
theorem length_lt_of_word? {text word rest : List Char} (h : word? text = some (word, rest)) :
    rest.length < text.length := by
  have hs := length_skipSpace_le text
  unfold word? at h
  split at h
  · simp at h
  · next c tail hc =>
    split at h
    · simp only [Option.some.injEq, Prod.mk.injEq] at h
      have := (List.dropWhile_suffix (l := tail) isWordChar).length_le
      simp only [hc, List.length_cons] at hs
      rw [← h.2]
      omega
    · simp at h

/-- A character that is read takes up text. -/
theorem length_lt_of_eat? {wanted : Char} {text rest : List Char} (h : eat? wanted text = some rest) :
    rest.length < text.length := by
  have hs := length_skipSpace_le text
  unfold eat? at h
  split at h
  · simp at h
  · next c tail hc =>
    split at h
    · simp only [Option.some.injEq] at h
      simp only [hc, List.length_cons] at hs
      rw [← h]
      omega
    · simp at h

/-- A keyword takes up text. -/
theorem length_lt_of_keyword? {wanted : String} {text rest : List Char}
    (h : keyword? wanted text = some rest) : rest.length < text.length := by
  unfold keyword? at h
  split at h
  · next word tail hw =>
    split at h
    · simp only [Option.some.injEq] at h
      exact h ▸ length_lt_of_word? hw
    · simp at h
  · simp at h

/-- A module takes up at least its quotes. -/
theorem length_lt_of_module? {text rest : List Char} {source : String}
    (h : module? text = some (source, rest)) : rest.length < text.length := by
  have hs := length_skipSpace_le text
  unfold module? at h
  split at h
  · simp at h
  · next c tail hc =>
    split at h
    · simp only [Option.map_eq_some_iff, Prod.exists, Prod.mk.injEq] at h
      obtain ⟨inner, r, hq, _, rfl⟩ := h
      have := length_lt_of_splitQuote hq
      simp only [hc, List.length_cons] at hs
      omega
    · simp at h

/-- The name that an imported name is bound to: its own unless `as` gives another. -/
def binding? (imported : List Char) (text : List Char) : Option (List Char × List Char) :=
  match keyword? "as" text with
  | some rest => word? rest
  | none => some (imported, text)

/-- Reads one entry of a braced list. The word `type` marks a type unless `as` follows it. -/
def specifier? (text : List Char) : Option (Specifier × List Char) := do
  let (first, rest) ← word? text
  let (imported, typeOnly, rest) : List Char × Bool × List Char :=
    match word? rest with
    | some (second, after) =>
      if first = "type".toList && second != "as".toList then (second, true, after)
      else (first, false, rest)
    | none => (first, false, rest)
  let (binding, rest) ← binding? imported rest
  some (⟨String.ofList imported, String.ofList binding, typeOnly⟩, rest)

/-- A binding never lengthens what remains. -/
theorem length_le_of_binding? {imported text name rest : List Char}
    (h : binding? imported text = some (name, rest)) : rest.length ≤ text.length := by
  unfold binding? at h
  split at h
  · next hk =>
    exact Nat.le_of_lt (Nat.lt_trans (length_lt_of_word? h) (length_lt_of_keyword? hk))
  · simp only [Option.some.injEq, Prod.mk.injEq] at h
    simp [← h.2]

/-- An entry takes up text. -/
theorem length_lt_of_specifier? {text rest : List Char} {s : Specifier}
    (h : specifier? text = some (s, rest)) : rest.length < text.length := by
  simp only [specifier?, Option.bind_eq_bind, Option.bind_eq_some_iff, Prod.exists,
    Option.some.injEq, Prod.mk.injEq] at h
  obtain ⟨first, r, hw, binding, r', hb, _, rfl⟩ := h
  have h₁ := length_lt_of_word? hw
  have h₂ := length_le_of_binding? hb
  split at h₂
  · next second after hs =>
    have h₃ := length_lt_of_word? hs
    split at h₂ <;> simp only at h₂ <;> omega
  · simp only at h₂
    omega

/-- Reads a braced list behind its opening brace, a comma after the last entry allowed. -/
def specifiers? (text : List Char) : Option (List Specifier × List Char) :=
  match eat? '}' text with
  | some rest => some ([], rest)
  | none =>
    match hs : specifier? text with
    | none => none
    | some (specifier, after) =>
      match hc : eat? ',' after with
      | some rest =>
        have := length_lt_of_specifier? hs
        have := length_lt_of_eat? hc
        (specifiers? rest).map fun (specifiers, rest) => (specifier :: specifiers, rest)
      | none =>
        match eat? '}' after with
        | some rest => some ([specifier], rest)
        | none => none
termination_by text.length

/-- The names that an import statement binds. -/
structure ImportClause where
  /-- The name bound to the default export. -/
  defaultName : Option String
  /-- The name bound to the whole module. -/
  moduleName : Option String
  /-- The names of the braced list. -/
  specifiers : List Specifier
deriving DecidableEq, Repr

/-- Reads what may stand alone or behind a default name: the whole module or a braced list. -/
def namedClause? (defaultName : Option String) (text : List Char) :
    Option (ImportClause × List Char) :=
  match eat? '*' text with
  | some rest => do
    let rest ← keyword? "as" rest
    let (name, rest) ← word? rest
    some (⟨defaultName, some (String.ofList name), []⟩, rest)
  | none => do
    let rest ← eat? '{' text
    let (specifiers, rest) ← specifiers? rest
    some (⟨defaultName, none, specifiers⟩, rest)

/-- Reads the names of an import statement. -/
def clause? (text : List Char) : Option (ImportClause × List Char) :=
  match word? text with
  | some (name, rest) =>
    let defaultName := some (String.ofList name)
    match eat? ',' rest with
    | some rest => namedClause? defaultName rest
    | none => some (⟨defaultName, none, []⟩, rest)
  | none => namedClause? none text

/-- Whether a clause begins behind any whitespace: a list, the whole module, or a name that is not
the word `from`. -/
def clauseFollows (text : List Char) : Bool :=
  match skipSpace text with
  | '{' :: _ => true
  | '*' :: _ => true
  | _ =>
    match word? text with
    | some (word, _) => word != "from".toList
    | none => false

/-- Takes off the word `type` when it marks the statement: when a clause follows it, and not when it
is itself the default name. -/
def takeTypeMark (text : List Char) : Bool × List Char :=
  match keyword? "type" text with
  | none => (false, text)
  | some rest => if clauseFollows rest then (true, rest) else (false, text)

/-- Whether a character right after the keyword begins a static import. -/
def opensImport (c : Char) : Bool :=
  isSpace c || c = '{' || c = '*' || isTagQuote c

/-- What an import statement says, apart from where it stands. -/
structure ImportStatement where
  /-- Whether only types are imported. -/
  typeOnly : Bool
  /-- The names that are bound. -/
  clause : ImportClause
  /-- The module. -/
  source : String
deriving DecidableEq, Repr

/-- Reads the part of an import statement from its names to its module. -/
def fromStatement? (text : List Char) : Option (ImportStatement × List Char) := do
  let (clause, rest) ← clause? (takeTypeMark text).2
  let rest ← keyword? "from" rest
  let (source, rest) ← module? rest
  some (⟨(takeTypeMark text).1, clause, source⟩, rest)

/-- Reads a static import behind its keyword, up to its semicolon if it has one. -/
def importStatement? (text : List Char) : Option (ImportStatement × List Char) :=
  if text.head?.any opensImport then
    let found : Option (ImportStatement × List Char) :=
      match module? text with
      | some (source, rest) => some (⟨false, ⟨none, none, []⟩, source⟩, rest)
      | none => fromStatement? text
    found.map fun (statement, rest) => (statement, (eat? ';' rest).getD rest)
  else none

/-- A list of names takes up text. -/
theorem length_lt_of_specifiers? {text rest : List Char} {ss : List Specifier}
    (h : specifiers? text = some (ss, rest)) : rest.length < text.length := by
  fun_induction specifiers? text generalizing ss rest with
  | case1 text r he =>
    simp only [Option.some.injEq, Prod.mk.injEq] at h
    exact h.2 ▸ length_lt_of_eat? he
  | case2 => simp at h
  | case3 text _ s after hs r hc _ _ ih =>
    simp only [Option.map_eq_some_iff, Prod.exists, Prod.mk.injEq] at h
    obtain ⟨_, _, hr, _, rfl⟩ := h
    have := ih hr
    omega
  | case4 text _ s after hs _ r he =>
    simp only [Option.some.injEq, Prod.mk.injEq] at h
    have h₁ := length_lt_of_specifier? hs
    have h₂ := length_lt_of_eat? he
    rw [← h.2]
    omega
  | case5 => simp at h

/-- A clause behind a default name, or alone, takes up text. -/
theorem length_lt_of_namedClause? {defaultName : Option String} {text rest : List Char}
    {clause : ImportClause} (h : namedClause? defaultName text = some (clause, rest)) :
    rest.length < text.length := by
  unfold namedClause? at h
  split at h
  · next r he =>
    simp only [Option.bind_eq_bind, Option.bind_eq_some_iff, Prod.exists, Option.some.injEq,
      Prod.mk.injEq] at h
    obtain ⟨r₁, hk, name, r₂, hw, _, rfl⟩ := h
    have h₁ := length_lt_of_eat? he
    have h₂ := length_lt_of_keyword? hk
    have h₃ := length_lt_of_word? hw
    omega
  · simp only [Option.bind_eq_bind, Option.bind_eq_some_iff, Prod.exists, Option.some.injEq,
      Prod.mk.injEq] at h
    obtain ⟨r₁, he, ss, r₂, hs, _, rfl⟩ := h
    have h₁ := length_lt_of_eat? he
    have h₂ := length_lt_of_specifiers? hs
    omega

/-- The names of a statement take up text. -/
theorem length_lt_of_clause? {text rest : List Char} {clause : ImportClause}
    (h : clause? text = some (clause, rest)) : rest.length < text.length := by
  unfold clause? at h
  split at h
  · next name r hw =>
    have h₁ := length_lt_of_word? hw
    simp only at h
    split at h
    · next r' he =>
      have h₂ := length_lt_of_eat? he
      have h₃ := length_lt_of_namedClause? h
      omega
    · simp only [Option.some.injEq, Prod.mk.injEq] at h
      rw [← h.2]
      exact h₁
  · exact length_lt_of_namedClause? h

/-- Taking off the mark of a type import never lengthens the text. -/
theorem length_takeTypeMark_le (text : List Char) :
    (takeTypeMark text).2.length ≤ text.length := by
  unfold takeTypeMark
  split
  · exact Nat.le_refl _
  · next rest hk =>
    have := length_lt_of_keyword? hk
    split
    · exact Nat.le_of_lt this
    · exact Nat.le_refl _

/-- A statement takes up text. -/
theorem length_lt_of_importStatement? {text rest : List Char} {statement : ImportStatement}
    (h : importStatement? text = some (statement, rest)) : rest.length < text.length := by
  unfold importStatement? at h
  split at h
  · simp only [Option.map_eq_some_iff, Prod.exists, Prod.mk.injEq] at h
    obtain ⟨st, r, hf, rfl, hr⟩ := h
    have hlt : r.length < text.length := by
      split at hf
      · next source r' hm =>
        simp only [Option.some.injEq, Prod.mk.injEq] at hf
        exact hf.2 ▸ length_lt_of_module? hm
      · simp only [fromStatement?, Option.bind_eq_bind, Option.bind_eq_some_iff, Prod.exists,
          Option.some.injEq, Prod.mk.injEq] at hf
        obtain ⟨clause, r₁, hc, r₂, hk, source, r₃, hm, _, rfl⟩ := hf
        have h₀ := length_takeTypeMark_le text
        have h₁ := length_lt_of_clause? hc
        have h₂ := length_lt_of_keyword? hk
        have h₃ := length_lt_of_module? hm
        omega
    cases he : eat? ';' r with
    | none => simp only [he, Option.getD_none] at hr; exact hr ▸ hlt
    | some r' =>
      have := length_lt_of_eat? he
      simp only [he, Option.getD_some] at hr
      rw [← hr]
      omega
  · simp at h

end TemplateReader
