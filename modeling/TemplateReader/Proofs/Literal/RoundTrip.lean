import Mathlib.Data.List.Induction
import TemplateReader.Proofs.Literal.Printing

/-!
# Printed data is read back

The printed form of a datum is read as the token of the datum, in whichever layout
it is printed, as long as containers nest no deeper than the limit. The token then
evaluates to what the datum means. Each part of a datum is shown to be written as
the grammar describes, and the reader of the grammar is complete.
-/

namespace TemplateReader

/-- The decimal notation of an integer is the text of a whole number. -/
theorem isWhole_integerText (n : Int) : IsWhole (integerText n) := by
  cases n with
  | ofNat n =>
    exact ⟨[], digitsOf n, rfl, Or.inl rfl, digitsOf_ne_nil n, fun _ => isDigit_of_mem_digitsOf⟩
  | negSucc n =>
    exact ⟨['-'], digitsOf (n + 1), rfl, Or.inr rfl, digitsOf_ne_nil _,
      fun _ => isDigit_of_mem_digitsOf⟩

/-- The sign and the magnitude of a whole number are read back from its digits. -/
theorem signedDigits_integerText (n : Int) :
    signedDigits (integerText n) = (decide (n < 0), n.natAbs) := by
  cases n with
  | ofNat n =>
    have hhead : ∀ digits, integerText (.ofNat n) ≠ '-' :: digits := by
      intro digits h
      have hminus : '-' ∈ digitsOf n := by
        change '-' ∈ integerText (.ofNat n)
        rw [h]
        exact List.mem_cons_self
      cases isDigit_of_mem_digitsOf hminus
    unfold signedDigits
    split
    · next digits h => exact absurd h (hhead digits)
    · change (false, natOfDigits (digitsOf n)) = _
      rw [natOfDigits_digitsOf]
      simp
  | negSucc n =>
    change (true, natOfDigits (digitsOf (n + 1))) = _
    rw [natOfDigits_digitsOf]
    simp

/-- A whole number of 64 bits is read back from its digits. -/
theorem wholeNumber?_integerText (n : Whole) :
    wholeNumber? (signedDigits (integerText n)).1 (signedDigits (integerText n)).2 =
      some (.integer n) := by
  obtain ⟨n, hlow, hhigh⟩ := n
  rw [signedDigits_integerText]
  have hpow : Nat.pow 2 63 = 9223372036854775808 := rfl
  have hrange : n.natAbs < Nat.pow 2 63 ∨ (n < 0 ∧ n.natAbs = Nat.pow 2 63) := by
    rw [hpow] at hlow hhigh ⊢
    omega
  unfold wholeNumber?
  rw [if_pos (by simpa using hrange)]
  by_cases hn : n < 0
  · rw [if_pos (decide_eq_true hn)]
    congr 2
    dsimp only
    omega
  · rw [if_neg (by simpa using hn)]
    congr 2
    dsimp only
    omega

/-- A string in print spells its text. -/
theorem QuotedText.spellsString (s : QuotedText) :
    SpellsString s.quote (s.value.flatMap fun c => if s.needsEscape c then ['\\', c] else [c])
      s.value (s.value.any s.needsEscape) := by
  obtain ⟨⟨quote, hquote⟩, value⟩ := s
  induction value with
  | nil => exact .nil
  | cons c value ih =>
    rw [List.flatMap_cons, List.any_cons]
    cases hc : QuotedText.needsEscape ⟨⟨quote, hquote⟩, c :: value⟩ c with
    | true =>
      have hdecode (text : List Char) : decodeEscape c text = (c, 0) := by
        simp only [needsEscape, Bool.or_eq_true, decide_eq_true_eq] at hc
        rcases hc with rfl | rfl
        · rcases isTagQuote_iff.mp hquote with rfl | rfl <;> rfl
        · rfl
      have hnil : ([] : List Char) = [] ∨ IsUnits [] := Or.inl rfl
      exact .escape hnil (hdecode _) ih
    | false =>
      simp only [needsEscape, Bool.or_eq_false_iff, decide_eq_false_iff_not] at hc
      exact .plain hc.1 hc.2 ih

/-- What is written for a key is the text of its name. -/
theorem Key.keyText (key : Key) : KeyText key.print key.name := by
  cases key with
  | word w => exact .word w.2
  | string s => exact .string s.quote.2 s.spellsString

/-- What spells a scalar is the text of its literal. -/
theorem literalAt_leafText {k : Nat} {text : List Char} {value : Scalar} {escape : Bool}
    (h : SpellsScalar text value escape) : LeafText k text (literalAt k text value escape) :=
  .scalar h

mutual

/-- A printed datum is what the grammar describes, at any depth that its nesting does not exceed. -/
theorem Datum.datumText (d : Datum) {depth : Nat} (k : Nat) (h : d.nesting ≤ depth) :
    DatumText depth k d.print (d.token k) := by
  cases d with
  | null => exact .of_leaf (literalAt_leafText .null)
  | boolean b =>
    cases b with
    | true => exact .of_leaf (literalAt_leafText .true)
    | false => exact .of_leaf (literalAt_leafText .false)
  | integer n =>
    exact .of_leaf (literalAt_leafText
      (.integer (isWhole_integerText n) (wholeNumber?_integerText n)))
  | string s => exact .of_leaf (literalAt_leafText (.string s.quote.2 s.spellsString))
  | name n => exact .of_leaf (.name n.2.1 n.2.2)
  | array gap elements =>
    obtain ⟨depth, rfl⟩ : ∃ d, depth = d + 1 := ⟨depth - 1, by rw [Datum.nesting] at h; omega⟩
    exact Or.inr (.array gap.2 (elements.membersText _ (Nat.le_of_succ_le_succ h)))
  | object gap properties =>
    obtain ⟨depth, rfl⟩ : ∃ d, depth = d + 1 := ⟨depth - 1, by rw [Datum.nesting] at h; omega⟩
    exact Or.inr (.object gap.2 (properties.membersText _ (Nat.le_of_succ_le_succ h)))

/-- What is written for elements is the text of their tokens. -/
theorem Elements.membersText (es : Elements) {depth : Nat} (k : Nat) (h : es.nesting ≤ depth) :
    MembersText ']' (DatumText depth) k es.print (es.tokens k) := by
  cases es with
  | none => exact .close
  | last value gap => exact .last (value.datumText k h) gap.2
  | more value gap start others =>
    obtain ⟨hvalue, hothers⟩ := Nat.max_le.mp h
    exact .more (value.datumText k hvalue) gap.2 start.2 (others.membersText _ hothers)

/-- What is written for an entry is the text of its property. -/
theorem Entry.propertyText (e : Entry) {depth : Nat} (k : Nat) (h : e.nesting ≤ depth) :
    PropertyText (DatumText depth) k e.print (e.property k) := by
  cases e with
  | mk key gap start value => exact .mk key.keyText gap.2 start.2 (value.datumText _ h)

/-- What is written for properties is the text of their tokens. -/
theorem Properties.membersText (ps : Properties) {depth : Nat} (k : Nat)
    (h : ps.nesting ≤ depth) :
    MembersText '}' (PropertyText (DatumText depth)) k ps.print (ps.tokens k) := by
  cases ps with
  | none => exact .close
  | last entry gap => exact .last (entry.propertyText k h) gap.2
  | more entry gap start others =>
    obtain ⟨hentry, hothers⟩ := Nat.max_le.mp h
    exact .more (entry.propertyText k hentry) gap.2 start.2 (others.membersText _ hothers)

end

/-- A key at the end is new among the keys, or is there already. -/
theorem eraseDups_append_singleton (keys : List String) (key : String) :
    (keys ++ [key]).eraseDups = if key ∈ keys then keys.eraseDups else keys.eraseDups ++ [key] := by
  rw [List.eraseDups_append]
  by_cases h : key ∈ keys
  · simp [List.removeAll, h]
  · simp [List.removeAll, h, List.eraseDups_cons]

/-- Among keys without repetitions each occurs once. -/
theorem nodup_eraseDups (keys : List String) : keys.eraseDups.Nodup := by
  induction keys using List.reverseRecOn with
  | nil => exact List.nodup_nil
  | append_singleton keys key ih =>
    rw [eraseDups_append_singleton]
    split
    · exact ih
    · next h =>
      rw [List.nodup_append]
      refine ⟨ih, by simp, ?_⟩
      intro a ha b hb
      obtain rfl := List.mem_singleton.mp hb
      rintro rfl
      exact h (List.mem_eraseDups.mp ha)

/-- Giving a key a value changes the field of that key alone. -/
theorem Fields.insert_map {keys : List String} (hkeys : keys.Nodup) (key : String) (value : Value)
    (values : String → Value) :
    Fields.insert key value (keys.map fun k => (k, values k)) =
      (if key ∈ keys then keys else keys ++ [key]).map
        fun k => (k, if k = key then value else values k) := by
  induction keys with
  | nil => simp [Fields.insert]
  | cons k keys ih =>
    obtain ⟨hk, hkeys⟩ := List.nodup_cons.mp hkeys
    by_cases hkey : k = key
    · subst hkey
      have hothers : ∀ k' ∈ keys, (k', values k') = (k', if k' = k then value else values k') := by
        intro k' hk'
        rw [if_neg (by rintro rfl; exact hk hk')]
      rw [if_pos List.mem_cons_self, List.map_cons, List.map_cons, Fields.insert, if_pos rfl,
        if_pos rfl, List.map_congr_left hothers]
    · have hmem : key ∈ k :: keys ↔ key ∈ keys := by simp [Ne.symm hkey]
      rw [List.map_cons, Fields.insert, if_neg hkey, ih hkeys]
      by_cases hin : key ∈ keys
      · rw [if_pos hin, if_pos (hmem.mpr hin), List.map_cons, if_neg hkey]
      · rw [if_neg hin, if_neg (mt hmem.mp hin), List.cons_append, List.map_cons, if_neg hkey]

/-- The fields of an object hold each key at its first position with its last value. -/
theorem Fields.ofList_eq_lastValues (pairs : List (String × Value)) :
    Fields.ofList pairs = Fields.lastValues pairs := by
  induction pairs using List.reverseRecOn with
  | nil => rfl
  | append_singleton pairs pair ih =>
    obtain ⟨key, value⟩ := pair
    have hlast (k : String) : Fields.get? (pairs ++ [(key, value)]).reverse k =
        if k = key then some value else Fields.get? pairs.reverse k := by
      rw [List.reverse_append, List.reverse_singleton, List.singleton_append, Fields.get?,
        List.find?_cons]
      by_cases hk : k = key
      · simp [hk]
      · simp [hk, Ne.symm hk, Fields.get?]
    have hstep : Fields.ofList (pairs ++ [(key, value)]) =
        Fields.insert key value (Fields.ofList pairs) := by
      rw [Fields.ofList, List.foldl_append]
      rfl
    rw [hstep, ih, Fields.lastValues, Fields.insert_map (nodup_eraseDups _), Fields.lastValues,
      List.map_append, List.map_singleton, eraseDups_append_singleton]
    simp only [List.mem_eraseDups, hlast]
    refine List.map_congr_left fun k _ => ?_
    by_cases hk : k = key <;> simp [hk]

mutual

/-- The names in the token of a datum are the names of the datum. -/
theorem Datum.references_token (d : Datum) (k : Nat) :
    (d.token k).references.map Identifier.name = d.names := by
  cases d with
  | null | boolean | integer | string | name => rfl
  | array gap elements => exact elements.references_tokens _
  | object gap properties => exact properties.references_tokens _

/-- The names in the tokens of elements are those in the elements. -/
theorem Elements.references_tokens (es : Elements) (k : Nat) :
    (tokenReferences (es.tokens k)).map Identifier.name = es.names := by
  cases es with
  | none => rfl
  | last value gap =>
    rw [Elements.tokens, tokenReferences, tokenReferences, List.append_nil,
      value.references_token k, Elements.names]
  | more value gap start others =>
    rw [Elements.tokens, tokenReferences, List.map_append, value.references_token k,
      others.references_tokens, Elements.names]

/-- The names in the property of an entry are those in the entry. -/
theorem Entry.references_property (e : Entry) (k : Nat) :
    (e.property k).references.map Identifier.name = e.names := by
  cases e with
  | mk key gap start value => exact value.references_token _

/-- The names in the tokens of properties are those in the properties. -/
theorem Properties.references_tokens (ps : Properties) (k : Nat) :
    (propertyReferences (ps.tokens k)).map Identifier.name = ps.names := by
  cases ps with
  | none => rfl
  | last entry gap =>
    rw [Properties.tokens, propertyReferences, propertyReferences, List.append_nil,
      entry.references_property k, Properties.names]
  | more entry gap start others =>
    rw [Properties.tokens, propertyReferences, List.map_append, entry.references_property k,
      others.references_tokens, Properties.names]

end

mutual

/-- The value of the token of a datum is the value of the datum. -/
theorem Datum.value_token (d : Datum) (references : Option Fields) (k : Nat) :
    (d.token k).value references = d.value references := by
  cases d with
  | null | boolean | integer | string | name => rfl
  | array gap elements =>
    rw [Datum.token, Token.value, elements.valuesOf_tokens references, Datum.value]
  | object gap properties =>
    rw [Datum.token, Token.value, Object.value, properties.pairsOf_tokens references,
      Fields.ofList_eq_lastValues, Datum.value]

/-- The values of the tokens of elements are those of the elements. -/
theorem Elements.valuesOf_tokens (es : Elements) (references : Option Fields) (k : Nat) :
    valuesOf references (es.tokens k) = es.values references := by
  cases es with
  | none => rfl
  | last value gap => rw [Elements.tokens, valuesOf, value.value_token references k]; rfl
  | more value gap start others =>
    rw [Elements.tokens, valuesOf, value.value_token references k,
      others.valuesOf_tokens references, Elements.values]

/-- The value of the property of an entry is that of the entry. -/
theorem Entry.pair_property (e : Entry) (references : Option Fields) (k : Nat) :
    (e.property k).pair references = e.value references := by
  cases e with
  | mk key gap start value =>
    rw [Entry.value, ← value.value_token references]
    rfl

/-- The values of the tokens of properties are those of the properties. -/
theorem Properties.pairsOf_tokens (ps : Properties) (references : Option Fields) (k : Nat) :
    pairsOf references (ps.tokens k) = ps.values references := by
  cases ps with
  | none => rfl
  | last entry gap => rw [Properties.tokens, pairsOf, entry.pair_property references k]; rfl
  | more entry gap start others =>
    rw [Properties.tokens, pairsOf, entry.pair_property references k,
      others.pairsOf_tokens references, Properties.values]

end

/-- The token of a datum evaluates to what the datum means. -/
theorem Datum.evaluate_token (d : Datum) (references : Option Fields) (k : Nat) :
    (d.token k).evaluate references = d.meaning references := by
  have hdata := ((d.datumText k (Nat.le_refl _)).isSound).isData
  have hlacks : (fun name => references.any fun table => (table.get? name).isNone) ∘
      Identifier.name = lacksName references := rfl
  rw [Token.evaluate_eq references _ hdata, d.value_token references k, checkNames, Datum.meaning,
    ← d.references_token k, List.find?_map, hlacks]
  cases (d.token k).references.find? (lacksName references) <;> rfl

/-- The printed form of a datum is read as the token of the datum, and means what the datum means. -/
theorem Datum.reads_print (d : Datum) (references : Option Fields)
    (h : d.nesting ≤ Lexer.nestingLimit) :
    (Lexer.standard.load d.print).expect dataNames =
        .ok (d.token 0, { Lexer.standard.load d.print with index := byteSize d.print }) ∧
      evaluateText d.print references = (d.meaning references).mapError .data := by
  have hdatum : IsDatum d.print (d.token 0) := d.datumText 0 h
  constructor
  · have hexpect := hdatum.expect EndsValue.nil
    rwa [List.append_nil] at hexpect
  · have hliteral : literalToken d.print = .ok (d.token 0) :=
      literalToken_eq_ok_iff.mpr ⟨[], d.print, [], (List.append_nil _).symm, rfl, rfl, hdatum⟩
    rw [evaluateText, hliteral, ← d.evaluate_token references 0]

/-- An object that gives a key twice, with an array in which a comma follows the last element. -/
def sampleDatum : Datum :=
  .object ⟨[' '], by decide⟩
    (.more ⟨.word ⟨"null".toList, by decide⟩, Gap.none, ⟨['\n'], by decide⟩, .boolean false⟩
        ⟨[' '], by decide⟩ Gap.none
      (.more ⟨.string ⟨⟨'\'', rfl⟩, ['é', '\'', '\\', '"']⟩, ⟨['\t'], by decide⟩, Gap.none,
          .array Gap.none
            (.more (.integer ⟨-12, by decide⟩) Gap.none Gap.none
              (.more (.name ⟨['n', 'u'], by decide⟩) ⟨['\r'], by decide⟩ ⟨[' '], by decide⟩
                .none))⟩
          Gap.none Gap.none
        (.last ⟨.word ⟨"null".toList, by decide⟩, Gap.none, Gap.none, .null⟩ Gap.none)))

/-- A datum with a repeated key, escapes and a name is written and read back. -/
theorem Datum.reads_print_sample :
    String.ofList sampleDatum.print =
        "\x7b null:\nfalse ,'é\\'\\\\\"'\t:[-12,nu\r, ],null:null\x7d" ∧
      (Lexer.standard.load sampleDatum.print).expect dataNames =
        .ok (sampleDatum.token 0,
          { Lexer.standard.load sampleDatum.print with index := byteSize sampleDatum.print }) ∧
      evaluateText sampleDatum.print (some []) = .error (.data (.unknownReference "nu")) := by
  have hread := sampleDatum.reads_print (some []) (by decide)
  exact ⟨by decide +kernel, hread.1, hread.2⟩

end TemplateReader
