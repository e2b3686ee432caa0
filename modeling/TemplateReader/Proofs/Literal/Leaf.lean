import Mathlib.Data.List.TakeWhile
import TemplateReader.Grammar.Container
import TemplateReader.Proofs.Literal.Quoted
import TemplateReader.Proofs.Template.Stretch

/-!
# Values without members

The reserved words, strings, numbers and names of data literals, each as a
predicate on its text alone. The rules of the grammar find exactly these texts:
what follows one only has to end it, by being no word character and no point.
The rules are tried in an order, but no two of them compete except a reserved word
with a name and a number with a point with one without.
-/

namespace TemplateReader

/-- A value ends here: no word and no number goes on. -/
def EndsValue (rest : List Char) : Prop :=
  ∀ c ∈ rest.head?, isWordChar c = false ∧ c ≠ '.'

/-- At the end of the text a value ends. -/
theorem EndsValue.nil : EndsValue [] := nofun

/-- A word: a letter, an underscore or a dollar sign, and word characters behind it. -/
def IsWord (text : List Char) : Prop :=
  (∃ c ∈ text.head?, isWordStart c = true) ∧ ∀ c ∈ text, isWordChar c = true

/-- A word starts with a character that may start one and goes on with word characters. -/
theorem isWord_iff {text : List Char} :
    IsWord text ↔ (text.head?.any isWordStart && text.all isWordChar) = true := by
  rw [IsWord, Bool.and_eq_true, Option.any_eq_true, List.all_eq_true]
  rfl

instance (text : List Char) : Decidable (IsWord text) := decidable_of_iff _ isWord_iff.symm

/-- The words that are no names. -/
def reservedWords : List (List Char) := ["null".toList, "true".toList, "false".toList]

/-- Digits with a minus sign or without. -/
def IsWhole (text : List Char) : Prop :=
  ∃ sign digits, text = sign ++ digits ∧ (sign = [] ∨ sign = ['-']) ∧ digits ≠ [] ∧
    ∀ c ∈ digits, c.isDigit = true

/-- How the scalars are written, and whether they hold an escape. -/
inductive SpellsScalar : List Char → Scalar → Bool → Prop
  | null : SpellsScalar "null".toList .null false
  | true : SpellsScalar "true".toList (.boolean true) false
  | false : SpellsScalar "false".toList (.boolean false) false
  | string {quote : Char} {body value : List Char} {escape : Bool}
    (hquote : isTagQuote quote = true) (h : SpellsString quote body value escape) :
    SpellsScalar (quote :: (body ++ [quote])) (.string (String.ofList value)) escape
  | float {whole fraction : List Char} {x : Binary64} (hwhole : IsWhole whole)
    (hne : fraction ≠ []) (hfraction : ∀ c ∈ fraction, c.isDigit = true)
    (hvalue : Binary64.ofDecimal (signedDigits (whole ++ fraction)).1
      (signedDigits (whole ++ fraction)).2 (-(fraction.length : Int)) = some x) :
    SpellsScalar (whole ++ '.' :: fraction) (.float x) false
  | integer {digits : List Char} {value : Scalar} (hdigits : IsWhole digits)
    (hvalue : wholeNumber? (signedDigits digits).1 (signedDigits digits).2 = some value) :
    SpellsScalar digits value false

/-- The values without members, with the tokens to which they are read at offset `k`. -/
inductive LeafText (k : Nat) : List Char → Token → Prop
  | scalar {x : List Char} {value : Scalar} {escape : Bool} (h : SpellsScalar x value escape) :
    LeafText k x (.literal ⟨value, String.ofList x, escape, ⟨k, k + byteSize x⟩⟩)
  | name {x : List Char} (hword : IsWord x) (hname : x ∉ reservedWords) :
    LeafText k x (.identifier ⟨String.ofList x, ⟨k, k + byteSize x⟩⟩)

/-- A word is not empty. -/
theorem IsWord.ne_nil {text : List Char} (h : IsWord text) : text ≠ [] := by
  rintro rfl
  obtain ⟨c, hc, -⟩ := h.1
  cases hc

/-- A reserved word is found where it stands and does not go on. -/
theorem beginsWithWord_iff {word text : List Char} :
    beginsWithWord word text = true ↔
      ∃ rest, text = word ++ rest ∧ ∀ c ∈ rest.head?, isWordChar c = false := by
  unfold beginsWithWord
  constructor
  · intro h
    split at h
    · cases h
    · next hdrop =>
      exact ⟨[], dropWord?_eq_some_iff.mp hdrop, nofun⟩
    · next next rest hdrop =>
      refine ⟨next :: rest, dropWord?_eq_some_iff.mp hdrop, ?_⟩
      rintro c ⟨⟩
      simpa using h
  · rintro ⟨rest, rfl, hrest⟩
    rw [dropWord?_eq_some_iff.mpr rfl]
    cases rest with
    | nil => rfl
    | cons c rest =>
      have hc := hrest c rfl
      simp only [hc, Bool.not_false]

/-- Of two runs of word characters that end, one cannot go on where the other stops. -/
theorem eq_of_append_eq_append {word word' rest rest' : List Char}
    (hword : ∀ c ∈ word, isWordChar c = true) (hword' : ∀ c ∈ word', isWordChar c = true)
    (hrest : ∀ c ∈ rest.head?, isWordChar c = false)
    (hrest' : ∀ c ∈ rest'.head?, isWordChar c = false) (h : word ++ rest = word' ++ rest') :
    word = word' := by
  have htake := (takeWhile_append_of_ends hword hrest).1
  rw [h, (takeWhile_append_of_ends hword' hrest').1] at htake
  exact htake.symm

/-- A name is read where a word begins, up to the end of that word. -/
theorem identifier?_eq_some_iff {c : Cursor} {i : Identifier} :
    identifier? c = some i ↔
      ∃ x rest, c.rest = x ++ rest ∧ IsWord x ∧ (∀ d ∈ rest.head?, isWordChar d = false) ∧
        i = ⟨String.ofList x, ⟨c.offset, c.offset + byteSize x⟩⟩ := by
  unfold identifier?
  constructor
  · intro h
    split at h
    · cases h
    · next first text hc =>
      split at h
      · next hstart =>
        obtain rfl := Option.some.inj h
        have hchar := isWordChar_of_isWordStart hstart
        refine ⟨c.rest.takeWhile isWordChar, c.rest.dropWhile isWordChar,
          List.takeWhile_append_dropWhile.symm, ⟨⟨first, ?_, hstart⟩, ?_⟩,
          head?_dropWhile_eq_false _ _, rfl⟩
        · rw [hc, List.takeWhile_cons, hchar]
          rfl
        · exact fun d hd => List.all_eq_true.mp List.all_takeWhile d hd
      · cases h
  · rintro ⟨x, rest, hc, hword, hrest, rfl⟩
    obtain ⟨first, hfirst, hstart⟩ := hword.1
    cases x with
    | nil => cases hfirst
    | cons a x =>
      obtain rfl := Option.some.inj hfirst
      have htake := (takeWhile_append_of_ends hword.2 hrest).1
      rw [hc, htake, List.cons_append]
      exact if_pos hstart

/-- A whole number has digits. -/
theorem IsWhole.ne_nil {text : List Char} (h : IsWhole text) : text ≠ [] := by
  obtain ⟨sign, digits, rfl, -, hne, -⟩ := h
  exact List.append_ne_nil_of_right_ne_nil sign hne

/-- Splits the digits from the front of a text that stands behind a sign. -/
def splitUnsigned? (sign text : List Char) : Option (List Char × List Char) :=
  match text.takeWhile Char.isDigit with
  | [] => none
  | digits => some (sign ++ digits, text.dropWhile Char.isDigit)

private theorem splitUnsigned?_eq_some_iff {sign text digits rest : List Char} :
    splitUnsigned? sign text = some (digits, rest) ↔
      ∃ ds, digits = sign ++ ds ∧ text = ds ++ rest ∧ ds ≠ [] ∧ (∀ c ∈ ds, c.isDigit = true) ∧
        ∀ c ∈ rest.head?, c.isDigit = false := by
  constructor
  · intro h
    unfold splitUnsigned? at h
    split at h
    · cases h
    · next hne =>
      simp only [Option.some.injEq, Prod.mk.injEq] at h
      obtain ⟨rfl, rfl⟩ := h
      exact ⟨_, rfl, List.takeWhile_append_dropWhile.symm, hne,
        fun c hc => List.all_eq_true.mp List.all_takeWhile c hc, head?_dropWhile_eq_false _ _⟩
  · rintro ⟨ds, rfl, rfl, hne, hds, hrest⟩
    obtain ⟨htake, hdrop⟩ := takeWhile_append_of_ends hds hrest
    rw [splitUnsigned?, htake, hdrop]
    cases ds with
    | nil => exact absurd rfl hne
    | cons d ds => rfl

/-- Behind a minus sign digits are split off as without it. -/
theorem splitDigits?_minus (text : List Char) :
    splitDigits? ('-' :: text) = splitUnsigned? ['-'] text := rfl

/-- Without a minus sign, all that is split off is digits. -/
theorem splitDigits?_of_ne {text : List Char} (h : ¬∃ tail, text = '-' :: tail) :
    splitDigits? text = splitUnsigned? [] text := by
  unfold splitDigits?
  split
  next sign text' heq =>
  split at heq
  · next tail => exact absurd ⟨tail, rfl⟩ h
  · obtain ⟨rfl, rfl⟩ := Prod.mk.inj heq
    rfl

/-- Digits are split off from the front of a text as far as they go. -/
theorem splitDigits?_eq_some_iff {text digits rest : List Char} :
    splitDigits? text = some (digits, rest) ↔
      text = digits ++ rest ∧ IsWhole digits ∧ ∀ c ∈ rest.head?, c.isDigit = false := by
  by_cases hminus : ∃ tail, text = '-' :: tail
  · obtain ⟨tail, rfl⟩ := hminus
    rw [splitDigits?_minus, splitUnsigned?_eq_some_iff]
    constructor
    · rintro ⟨ds, rfl, rfl, hne, hds, hrest⟩
      exact ⟨rfl, ⟨['-'], ds, rfl, Or.inr rfl, hne, hds⟩, hrest⟩
    · rintro ⟨htext, ⟨sign, ds, rfl, hsign, hne, hds⟩, hrest⟩
      rcases hsign with rfl | rfl
      · cases ds with
        | nil => exact absurd rfl hne
        | cons d ds =>
          obtain ⟨rfl, -⟩ := List.cons.inj htext
          cases hds '-' List.mem_cons_self
      · exact ⟨ds, rfl, (List.cons.inj htext).2, hne, hds, hrest⟩
  · rw [splitDigits?_of_ne hminus, splitUnsigned?_eq_some_iff]
    constructor
    · rintro ⟨ds, rfl, rfl, hne, hds, hrest⟩
      exact ⟨rfl, ⟨[], digits, rfl, Or.inl rfl, hne, hds⟩, hrest⟩
    · rintro ⟨htext, ⟨sign, ds, rfl, hsign, hne, hds⟩, hrest⟩
      rcases hsign with rfl | rfl
      · exact ⟨ds, rfl, htext, hne, hds, hrest⟩
      · exact absurd ⟨ds ++ rest, htext⟩ hminus

section

variable {s : Scope} {c : Cursor} {t : Token}

/-- What a rule reads begins with a character of its own. -/
def BeginsWith (p : Char → Prop) (text : List Char) : Prop :=
  ∃ c ∈ text.head?, p c

/-- What is found as null begins with its letter. -/
theorem head_of_null (h : Rule.null s c = some t) : BeginsWith (· = 'n') c.rest := by
  unfold Rule.null at h
  split at h
  · next hword =>
    obtain ⟨rest, hc, -⟩ := beginsWithWord_iff.mp hword
    rw [hc]
    exact ⟨'n', rfl, rfl⟩
  · cases h

/-- What is found as a boolean begins with the letter of one. -/
theorem head_of_boolean (h : Rule.boolean s c = some t) :
    BeginsWith (fun ch => ch = 't' ∨ ch = 'f') c.rest := by
  unfold Rule.boolean at h
  split at h
  · next hword =>
    obtain ⟨rest, hc, -⟩ := beginsWithWord_iff.mp hword
    rw [hc]
    exact ⟨'t', rfl, Or.inl rfl⟩
  · split at h
    · next hword =>
      obtain ⟨rest, hc, -⟩ := beginsWithWord_iff.mp hword
      rw [hc]
      exact ⟨'f', rfl, Or.inr rfl⟩
    · cases h

/-- What is found as a string begins with a quote. -/
theorem head_of_string (h : Rule.string s c = some t) :
    BeginsWith (fun ch => isTagQuote ch = true) c.rest := by
  unfold Rule.string at h
  split at h
  · cases h
  · next quote text hc =>
    split at h
    · next hquote =>
      rw [hc]
      exact ⟨quote, rfl, isTagQuote_iff.mpr (by simpa using hquote)⟩
    · cases h

/-- A whole number begins with a minus sign or a digit. -/
theorem IsWhole.head {digits : List Char} (h : IsWhole digits) :
    BeginsWith (fun ch => ch = '-' ∨ ch.isDigit = true) digits := by
  obtain ⟨sign, ds, rfl, hsign, hne, hds⟩ := h
  rcases hsign with rfl | rfl
  · cases ds with
    | nil => exact absurd rfl hne
    | cons d ds => exact ⟨d, rfl, Or.inr (hds d List.mem_cons_self)⟩
  · exact ⟨'-', rfl, Or.inl rfl⟩

/-- A text begins with what its first part begins with. -/
theorem BeginsWith.append {p : Char → Prop} {text : List Char} (h : BeginsWith p text)
    (rest : List Char) : BeginsWith p (text ++ rest) := by
  obtain ⟨c, hc, hp⟩ := h
  refine ⟨c, ?_, hp⟩
  rw [List.head?_append, hc, Option.some_or]
  rfl

/-- Where digits are split off, the text begins with a minus sign or a digit. -/
theorem head_of_splitDigits? {text digits rest : List Char}
    (h : splitDigits? text = some (digits, rest)) :
    BeginsWith (fun ch => ch = '-' ∨ ch.isDigit = true) text := by
  obtain ⟨rfl, hwhole, -⟩ := splitDigits?_eq_some_iff.mp h
  exact hwhole.head.append rest

/-- What is found as a float begins with a minus sign or a digit. -/
theorem head_of_float (h : Rule.float s c = some t) :
    BeginsWith (fun ch => ch = '-' ∨ ch.isDigit = true) c.rest := by
  simp only [Rule.float, Option.bind_eq_bind, Option.bind_eq_some_iff, Prod.exists] at h
  obtain ⟨whole, rest, hsplit, -⟩ := h
  exact head_of_splitDigits? hsplit

/-- What is found as an integer begins with a minus sign or a digit. -/
theorem head_of_integer (h : Rule.integer s c = some t) :
    BeginsWith (fun ch => ch = '-' ∨ ch.isDigit = true) c.rest := by
  simp only [Rule.integer, Option.bind_eq_bind, Option.bind_eq_some_iff, Prod.exists] at h
  obtain ⟨whole, rest, hsplit, -⟩ := h
  exact head_of_splitDigits? hsplit

/-- What is found as an identifier begins as a word. -/
theorem head_of_identifier (h : Rule.identifier s c = some t) :
    BeginsWith (fun ch => isWordStart ch = true) c.rest := by
  obtain ⟨i, hi, -⟩ := Option.map_eq_some_iff.mp h
  obtain ⟨x, rest, hc, hword, -⟩ := identifier?_eq_some_iff.mp hi
  rw [hc]
  exact BeginsWith.append hword.1 rest

/-- What is found as an object begins with a brace. -/
theorem head_of_object (h : Rule.object s c = some t) : BeginsWith (· = '{') c.rest := by
  unfold Rule.object at h
  split at h
  · next text hc =>
    rw [hc]
    exact ⟨'{', rfl, rfl⟩
  · cases h

/-- What is found as an array begins with a bracket. -/
theorem head_of_array (h : Rule.array s c = some t) : BeginsWith (· = '[') c.rest := by
  unfold Rule.array at h
  split at h
  · next text hc =>
    rw [hc]
    exact ⟨'[', rfl, rfl⟩
  · cases h

/-- What is found as a program begins with a brace. -/
theorem head_of_program (h : Rule.program s c = some t) : BeginsWith (· = '{') c.rest := by
  unfold Rule.program at h
  split at h
  · next text hc =>
    rw [hc]
    exact ⟨'{', rfl, rfl⟩
  · cases h

/-- A rule finds nothing where the text begins with a character of another rule. -/
theorem eq_none_of_head {p q : Char → Prop} {r : Rule}
    (hr : ∀ {t}, r s c = some t → BeginsWith p c.rest) (hc : BeginsWith q c.rest)
    (hpq : ∀ ch, q ch → ¬p ch) : r s c = none := by
  rw [Option.eq_none_iff_forall_ne_some]
  intro t ht
  obtain ⟨a, ha, hp⟩ := hr ht
  obtain ⟨b, hb, hq⟩ := hc
  obtain rfl := Option.some.inj (ha.symm.trans hb)
  exact hpq a hq hp

/-- A string is read where it is spelled between two quotes. -/
theorem string_eq_some_iff :
    Rule.string s c = some t ↔
      ∃ quote body value escape rest, isTagQuote quote = true ∧
        SpellsString quote body value escape ∧ c.rest = quote :: (body ++ [quote]) ++ rest ∧
        t = scalarToken c (quote :: (body ++ [quote])) (.string (String.ofList value)) escape := by
  unfold Rule.string
  constructor
  · intro h
    split at h
    · cases h
    · next quote text hc =>
      split at h
      · next hq =>
        have hquote : isTagQuote quote = true := isTagQuote_iff.mpr (by simpa using hq)
        obtain ⟨reading, hread, rfl⟩ := Option.map_eq_some_iff.mp h
        obtain ⟨body, rfl, htaken, hspells⟩ := (readString?_eq_some_iff hquote).mp hread
        refine ⟨quote, body, reading.value, reading.escape, reading.rest, hquote, hspells, ?_, ?_⟩
        · rw [hc]
          simp only [List.cons_append, List.append_assoc, List.nil_append]
        · rw [htaken]
      · cases h
  · rintro ⟨quote, body, value, escape, rest, hquote, hspells, hc, rfl⟩
    have hq : (quote = '"' || quote = '\'') = true := by
      simpa using isTagQuote_iff.mp hquote
    have hread := hspells.readString? hquote rest
    rw [List.cons_append, List.append_assoc, List.singleton_append] at hc
    simp only [hc, hq, if_true, hread, Option.map_some]

/-- A scalar is read from a text that spells it. -/
theorem exists_of_scalarRule {r : Rule}
    (hr : r ∈ [Rule.null, Rule.boolean, Rule.string, Rule.float, Rule.integer])
    (h : r s c = some t) :
    ∃ x rest value escape, c.rest = x ++ rest ∧ SpellsScalar x value escape ∧
      t = scalarToken c x value escape := by
  simp only [List.mem_cons, List.not_mem_nil, or_false] at hr
  rcases hr with rfl | rfl | rfl | rfl | rfl
  · unfold Rule.null at h
    split at h
    · next hword =>
      obtain ⟨rest, hc, -⟩ := beginsWithWord_iff.mp hword
      exact ⟨_, rest, _, _, hc, .null, (Option.some.inj h).symm⟩
    · cases h
  · unfold Rule.boolean at h
    split at h
    · next hword =>
      obtain ⟨rest, hc, -⟩ := beginsWithWord_iff.mp hword
      exact ⟨_, rest, _, _, hc, .true, (Option.some.inj h).symm⟩
    · split at h
      · next hword =>
        obtain ⟨rest, hc, -⟩ := beginsWithWord_iff.mp hword
        exact ⟨_, rest, _, _, hc, .false, (Option.some.inj h).symm⟩
      · cases h
  · obtain ⟨quote, body, value, escape, rest, hquote, hspells, hc, ht⟩ := string_eq_some_iff.mp h
    exact ⟨_, rest, _, _, hc, .string hquote hspells, ht⟩
  · simp only [Rule.float, Option.bind_eq_bind, Option.bind_eq_some_iff, Prod.exists] at h
    obtain ⟨whole, rest, hsplit, h⟩ := h
    obtain ⟨hc, hwhole, -⟩ := splitDigits?_eq_some_iff.mp hsplit
    split at h
    · next tail =>
      split at h
      · cases h
      · next hne =>
        obtain ⟨x, hx, h⟩ := Option.bind_eq_some_iff.mp h
        have hfraction : ∀ d ∈ tail.takeWhile Char.isDigit, d.isDigit = true :=
          fun d hd => List.all_eq_true.mp List.all_takeWhile d hd
        refine ⟨_, tail.dropWhile Char.isDigit, _, _, ?_, .float hwhole hne hfraction hx,
          (Option.some.inj h).symm⟩
        rw [hc, List.append_assoc, List.cons_append, List.takeWhile_append_dropWhile]
    · cases h
  · simp only [Rule.integer, Option.bind_eq_bind, Option.bind_eq_some_iff, Prod.exists] at h
    obtain ⟨digits, rest, hsplit, value, hvalue, h⟩ := h
    obtain ⟨hc, hwhole, -⟩ := splitDigits?_eq_some_iff.mp hsplit
    exact ⟨digits, rest, _, _, hc, .integer hwhole hvalue, (Option.some.inj h).symm⟩

/-- The rules of values in the order in which they are tried. -/
def valueRules : List Rule :=
  [Rule.null, Rule.boolean, Rule.string, Rule.float, Rule.integer, Rule.object, Rule.array,
    Rule.identifier]

/-- The value at a cursor. -/
def valueAt (s : Scope) (c : Cursor) : Option Token := Registry.firstMatch valueRules s c

/-- The first rule that finds something at a cursor decides the value there. -/
theorem valueAt_of_rule (before : List Rule) {after : List Rule} {r : Rule}
    (hsplit : valueRules = before ++ r :: after) (hbefore : ∀ r' ∈ before, r' s c = none)
    (h : r s c = some t) (hne : t.isEmpty = false) :
    valueAt s c = some t := by
  have hnone : before.findSome? (fun r' => (r' s c).filter fun t => !t.isEmpty) = none := by
    rw [List.findSome?_eq_none_iff]
    intro r' hr'
    rw [hbefore r' hr']
    rfl
  rw [valueAt, Registry.firstMatch, hsplit, List.findSome?_append, hnone, Option.none_or,
    List.findSome?_cons, h, Option.filter_some, hne]
  rfl

/-- The text of a scalar is not empty. -/
theorem SpellsScalar.ne_nil {x : List Char} {value : Scalar} {escape : Bool}
    (h : SpellsScalar x value escape) : x ≠ [] := by
  cases h with
  | null | true | false => simp
  | string => exact List.cons_ne_nil _ _
  | float hwhole => exact List.append_ne_nil_of_left_ne_nil hwhole.ne_nil _
  | integer hdigits => exact hdigits.ne_nil

/-- The text of a value without parts is not empty. -/
theorem LeafText.ne_nil {k : Nat} {x : List Char} (h : LeafText k x t) : x ≠ [] := by
  cases h with
  | scalar h => exact h.ne_nil
  | name hword => exact hword.ne_nil

/-- The span of a value without parts is that of its text. -/
theorem LeafText.span_eq {k : Nat} {x : List Char} (h : LeafText k x t) :
    t.span = ⟨k, k + byteSize x⟩ := by
  cases h with
  | scalar => rfl
  | name => rfl

/-- The token of a value without parts is not empty. -/
theorem LeafText.isEmpty_eq_false {k : Nat} {x : List Char} (h : LeafText k x t) :
    t.isEmpty = false := by
  have hpos := byteSize_pos h.ne_nil
  rw [Token.isEmpty, h.span_eq, Span.isEmpty, decide_eq_false_iff_not]
  dsimp only
  omega

private theorem isEmpty_scalarToken {x : List Char} {value : Scalar} {escape : Bool}
    (h : SpellsScalar x value escape) (c : Cursor) :
    (scalarToken c x value escape).isEmpty = false :=
  (LeafText.scalar h : LeafText c.offset x (scalarToken c x value escape)).isEmpty_eq_false

private theorem notMem_reservedWords {x rest : List Char} (hc : c.rest = x ++ rest)
    (hrest : ∀ d ∈ rest.head?, isWordChar d = false)
    (hnull : (Rule.null s c).filter (fun t => !t.isEmpty) = none)
    (hboolean : (Rule.boolean s c).filter (fun t => !t.isEmpty) = none) :
    x ∉ reservedWords := by
  have hword (word : List Char) (hx : x = word) : beginsWithWord word c.rest = true := by
    rw [hc, hx]
    exact beginsWithWord_iff.mpr ⟨rest, rfl, hrest⟩
  intro hx
  simp only [reservedWords, List.mem_cons, List.not_mem_nil, or_false] at hx
  rcases hx with hx | hx | hx
  · rw [Rule.null, if_pos (hword _ hx), Option.filter_some, isEmpty_scalarToken .null] at hnull
    cases hnull
  · rw [Rule.boolean, if_pos (hword _ hx), Option.filter_some, isEmpty_scalarToken .true] at hboolean
    cases hboolean
  · have htrue : ¬beginsWithWord "true".toList c.rest = true := by
      intro hbegins
      obtain ⟨rest', hrest', -⟩ := beginsWithWord_iff.mp hbegins
      rw [hc, hx] at hrest'
      cases hrest'
    rw [Rule.boolean, if_neg htrue, if_pos (hword _ hx), Option.filter_some,
      isEmpty_scalarToken .false] at hboolean
    cases hboolean

private theorem of_firstMatch_cons {r : Rule} {rules : List Rule}
    (h : Registry.firstMatch (r :: rules) s c = some t) :
    r s c = some t ∨
      (r s c).filter (fun t => !t.isEmpty) = none ∧ Registry.firstMatch rules s c = some t := by
  rw [Registry.firstMatch, List.findSome?_cons] at h
  split at h
  · next hr =>
    obtain rfl := Option.some.inj h
    exact Or.inl (Option.filter_eq_some_iff.mp hr).1
  · next hr => exact Or.inr ⟨hr, h⟩

/-- A value is a leaf, an object or an array. -/
theorem leafText_of_valueAt (h : valueAt s c = some t) :
    (∃ x rest, c.rest = x ++ rest ∧ LeafText c.offset x t) ∨
      Rule.object s c = some t ∨ Rule.array s c = some t := by
  have scalar {r : Rule} (hmem : r ∈ [Rule.null, Rule.boolean, Rule.string, Rule.float, Rule.integer])
      (hr : r s c = some t) : ∃ x rest, c.rest = x ++ rest ∧ LeafText c.offset x t := by
    obtain ⟨x, rest, value, escape, hc, hspells, rfl⟩ := exists_of_scalarRule hmem hr
    exact ⟨x, rest, hc, .scalar hspells⟩
  rw [valueAt, valueRules] at h
  rcases of_firstMatch_cons h with hr | ⟨hnull, h⟩
  · exact Or.inl (scalar (by simp) hr)
  rcases of_firstMatch_cons h with hr | ⟨hboolean, h⟩
  · exact Or.inl (scalar (by simp) hr)
  rcases of_firstMatch_cons h with hr | ⟨-, h⟩
  · exact Or.inl (scalar (by simp) hr)
  rcases of_firstMatch_cons h with hr | ⟨-, h⟩
  · exact Or.inl (scalar (by simp) hr)
  rcases of_firstMatch_cons h with hr | ⟨-, h⟩
  · exact Or.inl (scalar (by simp) hr)
  rcases of_firstMatch_cons h with hr | ⟨-, h⟩
  · exact Or.inr (Or.inl hr)
  rcases of_firstMatch_cons h with hr | ⟨-, h⟩
  · exact Or.inr (Or.inr hr)
  rcases of_firstMatch_cons h with hr | ⟨-, h⟩
  · obtain ⟨i, hi, rfl⟩ := Option.map_eq_some_iff.mp hr
    obtain ⟨x, rest, hc, hword, hrest, rfl⟩ := identifier?_eq_some_iff.mp hi
    exact Or.inl ⟨x, rest, hc, .name hword (notMem_reservedWords hc hrest hnull hboolean)⟩
  · cases h

/-- A digit is a word character. -/
theorem isWordChar_of_isDigit {c : Char} (h : c.isDigit = true) : isWordChar c = true := by
  rw [isWordChar, Char.isAlphanum, h, Bool.or_true]
  rfl

private theorem isDigit_eq_false_of_isWordChar {c : Char} (h : isWordChar c = false) :
    c.isDigit = false := by
  rw [Bool.eq_false_iff]
  intro hdigit
  rw [isWordChar_of_isDigit hdigit] at h
  cases h

private theorem splitDigits?_of_isWhole {digits rest : List Char} (hdigits : IsWhole digits)
    (hc : c.rest = digits ++ rest) (hrest : ∀ d ∈ rest.head?, d.isDigit = false) :
    splitDigits? c.rest = some (digits, rest) :=
  splitDigits?_eq_some_iff.mpr ⟨hc, hdigits, hrest⟩

private theorem eq_none_of_isWhole {digits rest : List Char} (hdigits : IsWhole digits)
    (hc : c.rest = digits ++ rest) :
    Rule.null s c = none ∧ Rule.boolean s c = none ∧ Rule.string s c = none := by
  have hhead : BeginsWith (fun ch => ch = '-' ∨ ch.isDigit = true) c.rest := by
    rw [hc]
    exact hdigits.head.append rest
  refine ⟨eq_none_of_head head_of_null hhead ?_, eq_none_of_head head_of_boolean hhead ?_,
    eq_none_of_head head_of_string hhead ?_⟩
  · rintro ch hdigit rfl
    rcases hdigit with h | h <;> cases h
  · rintro ch hdigit (rfl | rfl)
    all_goals rcases hdigit with h | h <;> cases h
  · intro ch hdigit hquote
    rcases isTagQuote_iff.mp hquote with rfl | rfl
    all_goals rcases hdigit with h | h <;> cases h

private theorem valueAt_of_null {rest : List Char} (hc : c.rest = "null".toList ++ rest)
    (hrest : EndsValue rest) :
    valueAt s c = some (scalarToken c "null".toList .null false) := by
  have hword : beginsWithWord "null".toList c.rest = true :=
    beginsWithWord_iff.mpr ⟨rest, hc, fun d hd => (hrest d hd).1⟩
  exact valueAt_of_rule [] rfl nofun (if_pos hword) (isEmpty_scalarToken .null c)

private theorem valueAt_of_boolean {rest : List Char} (b : Bool)
    (hc : c.rest = (if b then "true".toList else "false".toList) ++ rest) (hrest : EndsValue rest) :
    valueAt s c =
      some (scalarToken c (if b then "true".toList else "false".toList) (.boolean b) false) := by
  have hnull : Rule.null s c = none := by
    refine eq_none_of_head head_of_null (q := fun ch => ch = 't' ∨ ch = 'f') ?_ ?_
    · rw [hc]
      cases b
      · exact ⟨'f', rfl, Or.inr rfl⟩
      · exact ⟨'t', rfl, Or.inl rfl⟩
    · rintro ch (rfl | rfl) h <;> cases h
  have hword : beginsWithWord (if b then "true".toList else "false".toList) c.rest = true :=
    beginsWithWord_iff.mpr ⟨rest, hc, fun d hd => (hrest d hd).1⟩
  have hboolean : Rule.boolean s c =
      some (scalarToken c (if b then "true".toList else "false".toList) (.boolean b) false) := by
    cases b with
    | true => exact if_pos hword
    | false =>
      have htrue : ¬beginsWithWord "true".toList c.rest = true := by
        intro hbegins
        obtain ⟨rest', hrest', -⟩ := beginsWithWord_iff.mp hbegins
        rw [hc] at hrest'
        cases hrest'
      exact (if_neg htrue).trans (if_pos hword)
  refine valueAt_of_rule [Rule.null] rfl ?_ hboolean ?_
  · simp only [List.mem_singleton, forall_eq, hnull]
  · cases b
    · exact isEmpty_scalarToken .false c
    · exact isEmpty_scalarToken .true c

private theorem valueAt_of_string {quote : Char} {body value rest : List Char} {escape : Bool}
    (hquote : isTagQuote quote = true) (h : SpellsString quote body value escape)
    (hc : c.rest = quote :: (body ++ [quote]) ++ rest) :
    valueAt s c =
      some (scalarToken c (quote :: (body ++ [quote])) (.string (String.ofList value)) escape) := by
  have hhead : BeginsWith (fun ch => isTagQuote ch = true) c.rest := by
    rw [hc]
    exact ⟨quote, rfl, hquote⟩
  have hnull : Rule.null s c = none := by
    refine eq_none_of_head head_of_null hhead ?_
    rintro ch hch rfl
    cases hch
  have hboolean : Rule.boolean s c = none := by
    refine eq_none_of_head head_of_boolean hhead ?_
    rintro ch hch (rfl | rfl) <;> cases hch
  have hstring := string_eq_some_iff (s := s).mpr
    ⟨quote, body, value, escape, rest, hquote, h, hc, rfl⟩
  refine valueAt_of_rule [Rule.null, Rule.boolean] rfl ?_ hstring
    (isEmpty_scalarToken (.string hquote h) c)
  simp only [List.forall_mem_cons, hnull, hboolean, true_and]
  exact nofun

private theorem valueAt_of_float {whole fraction rest : List Char} {x : Binary64}
    (hwhole : IsWhole whole) (hne : fraction ≠ []) (hfraction : ∀ d ∈ fraction, d.isDigit = true)
    (hvalue : Binary64.ofDecimal (signedDigits (whole ++ fraction)).1
      (signedDigits (whole ++ fraction)).2 (-(fraction.length : Int)) = some x)
    (hc : c.rest = whole ++ '.' :: fraction ++ rest) (hrest : EndsValue rest) :
    valueAt s c = some (scalarToken c (whole ++ '.' :: fraction) (.float x) false) := by
  have hwhole' : c.rest = whole ++ '.' :: (fraction ++ rest) := by
    rw [hc, List.append_assoc, List.cons_append]
  obtain ⟨hnull, hboolean, hstring⟩ := eq_none_of_isWhole (s := s) hwhole hwhole'
  have hsplit := splitDigits?_of_isWhole hwhole hwhole' (by rintro d ⟨⟩; rfl)
  have htake := (takeWhile_append_of_ends hfraction
    fun d hd => isDigit_eq_false_of_isWordChar (hrest d hd).1).1
  have hfloat : Rule.float s c =
      some (scalarToken c (whole ++ '.' :: fraction) (.float x) false) := by
    simp only [Rule.float, hsplit, Option.bind_eq_bind, Option.bind_some, htake]
    cases fraction with
    | nil => exact absurd rfl hne
    | cons d fraction =>
      rw [hvalue]
      rfl
  refine valueAt_of_rule [Rule.null, Rule.boolean, Rule.string] rfl ?_ hfloat
    (isEmpty_scalarToken (.float hwhole hne hfraction hvalue) c)
  simp only [List.forall_mem_cons, hnull, hboolean, hstring, true_and]
  exact nofun

private theorem valueAt_of_integer {digits rest : List Char} {value : Scalar}
    (hdigits : IsWhole digits)
    (hvalue : wholeNumber? (signedDigits digits).1 (signedDigits digits).2 = some value)
    (hc : c.rest = digits ++ rest) (hrest : EndsValue rest) :
    valueAt s c = some (scalarToken c digits value false) := by
  obtain ⟨hnull, hboolean, hstring⟩ := eq_none_of_isWhole (s := s) hdigits hc
  have hsplit := splitDigits?_of_isWhole hdigits hc
    fun d hd => isDigit_eq_false_of_isWordChar (hrest d hd).1
  have hfloat : Rule.float s c = none := by
    simp only [Rule.float, hsplit, Option.bind_eq_bind, Option.bind_some]
    split
    · next tail => exact absurd rfl (hrest '.' rfl).2
    · rfl
  have hinteger : Rule.integer s c = some (scalarToken c digits value false) := by
    simp only [Rule.integer, hsplit, Option.bind_eq_bind, Option.bind_some, hvalue]
  refine valueAt_of_rule [Rule.null, Rule.boolean, Rule.string, Rule.float] rfl ?_
    hinteger (isEmpty_scalarToken (.integer hdigits hvalue) c)
  simp only [List.forall_mem_cons, hnull, hboolean, hstring, hfloat, true_and]
  exact nofun

/-- No character begins both a word and a number. -/
theorem notNumberStart_of_isWordStart {c : Char} (h : isWordStart c = true) :
    ¬(c = '-' ∨ c.isDigit = true) := by
  rintro (rfl | hdigit)
  · cases h
  · simp only [isWordStart, isAlpha_iff, Bool.or_eq_true, decide_eq_true_eq] at h
    rcases h with (h | rfl) | rfl
    · rw [Char.isDigit_iff_toNat] at hdigit
      simp only [Char.reduceToNat] at hdigit
      omega
    · exact absurd hdigit (by decide)
    · exact absurd hdigit (by decide)

private theorem valueAt_of_name {x rest : List Char} (hword : IsWord x) (hname : x ∉ reservedWords)
    (hc : c.rest = x ++ rest) (hrest : EndsValue rest) :
    valueAt s c =
      some (.identifier ⟨String.ofList x, ⟨c.offset, c.offset + byteSize x⟩⟩) := by
  have hends : ∀ d ∈ rest.head?, isWordChar d = false := fun d hd => (hrest d hd).1
  have hreserved {word : List Char} (hmem : word ∈ reservedWords)
      (hword' : word.all isWordChar = true) : ¬beginsWithWord word c.rest = true := by
    have hchars := List.all_eq_true.mp hword'
    intro hbegins
    obtain ⟨rest', hrest', hends'⟩ := beginsWithWord_iff.mp hbegins
    rw [hc] at hrest'
    rw [eq_of_append_eq_append hword.2 hchars hends hends' hrest'] at hname
    exact hname hmem
  have hnull : Rule.null s c = none := if_neg (hreserved (by decide) (by decide))
  have hboolean : Rule.boolean s c = none :=
    (if_neg (hreserved (by decide) (by decide))).trans
      (if_neg (hreserved (by decide) (by decide)))
  have hhead : BeginsWith (fun ch => isWordStart ch = true) c.rest := by
    rw [hc]
    exact BeginsWith.append hword.1 rest
  have hstring : Rule.string s c = none := by
    refine eq_none_of_head head_of_string hhead ?_
    intro ch hstart hquote
    rcases isTagQuote_iff.mp hquote with rfl | rfl <;> cases hstart
  have hfloat : Rule.float s c = none :=
    eq_none_of_head head_of_float hhead fun ch => notNumberStart_of_isWordStart
  have hinteger : Rule.integer s c = none :=
    eq_none_of_head head_of_integer hhead fun ch => notNumberStart_of_isWordStart
  have hobject : Rule.object s c = none := by
    refine eq_none_of_head head_of_object hhead ?_
    rintro ch hstart rfl
    cases hstart
  have harray : Rule.array s c = none := by
    refine eq_none_of_head head_of_array hhead ?_
    rintro ch hstart rfl
    cases hstart
  have hidentifier : Rule.identifier s c =
      some (.identifier ⟨String.ofList x, ⟨c.offset, c.offset + byteSize x⟩⟩) := by
    rw [Rule.identifier, identifier?_eq_some_iff.mpr ⟨x, rest, hc, hword, hends, rfl⟩]
    rfl
  refine valueAt_of_rule [Rule.null, Rule.boolean, Rule.string, Rule.float,
    Rule.integer, Rule.object, Rule.array] rfl ?_ hidentifier
    (LeafText.name hword hname).isEmpty_eq_false
  simp only [List.forall_mem_cons, hnull, hboolean, hstring, hfloat, hinteger, hobject, harray,
    true_and]
  exact nofun

/-- A leaf is read from its text, whatever ends it. -/
theorem LeafText.valueAt {x rest : List Char} (h : LeafText c.offset x t)
    (hc : c.rest = x ++ rest) (hrest : EndsValue rest) :
    TemplateReader.valueAt s c = some t := by
  cases h with
  | scalar h =>
    cases h with
    | null => exact valueAt_of_null hc hrest
    | true => exact valueAt_of_boolean true hc hrest
    | false => exact valueAt_of_boolean false hc hrest
    | string hquote h => exact valueAt_of_string hquote h hc
    | float hwhole hne hfraction hvalue =>
      exact valueAt_of_float hwhole hne hfraction hvalue hc hrest
    | integer hdigits hvalue => exact valueAt_of_integer hdigits hvalue hc hrest
  | name hword hname => exact valueAt_of_name hword hname hc hrest

end

end TemplateReader
