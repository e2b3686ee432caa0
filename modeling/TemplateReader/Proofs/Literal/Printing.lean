import TemplateReader.Proofs.Literal.Failure

/-!
# Data values and their printed forms

A datum is a data value together with the layout in which it is printed: the
whitespace between the parts of its containers, the quotes of its strings, and
whether a comma follows the last member of a container. For every datum there are
the token that its printed form should be read to, with all spans, and what it
means with and without a table of references. The meaning looks at no layout.
-/

namespace TemplateReader

/-- Some whitespace of ASCII between two parts. -/
abbrev Gap := { text : List Char // IsGap text }

/-- No whitespace. -/
def Gap.none : Gap := ⟨[], nofun⟩

/-- A whole number of 64 bits. -/
abbrev Whole := { n : Int // -(Nat.pow 2 63 : Int) ≤ n ∧ n < Nat.pow 2 63 }

/-- A name, which is none of the reserved words. -/
abbrev Name := { word : List Char // IsWord word ∧ word ∉ reservedWords }

/-- A text between two quotes of one kind. -/
structure QuotedText where
  /-- The quote. -/
  quote : { c : Char // isTagQuote c = true }
  /-- The text. -/
  value : List Char

/-- A key of an object. -/
inductive Key where
  /-- A word, which may be a reserved one. -/
  | word (word : { word : List Char // IsWord word })
  /-- A string. -/
  | string (text : QuotedText)

mutual

/-- A data value with its layout. -/
inductive Datum where
  /-- The absent value. -/
  | null
  /-- A truth value. -/
  | boolean (value : Bool)
  /-- A whole number. -/
  | integer (value : Whole)
  /-- A string. -/
  | string (text : QuotedText)
  /-- A name. -/
  | name (name : Name)
  /-- Values in brackets, behind a gap. -/
  | array (gap : Gap) (elements : Elements)
  /-- Properties in braces, behind a gap. -/
  | object (gap : Gap) (properties : Properties)

/-- The elements of an array up to its bracket. -/
inductive Elements where
  /-- No elements are left, behind the opening bracket or behind a comma. -/
  | none
  /-- A last element without a comma. -/
  | last (value : Datum) (gap : Gap)
  /-- An element with a comma, and gaps before and behind the comma. -/
  | more (value : Datum) (gap start : Gap) (others : Elements)

/-- A key and a value, with gaps before and behind the colon. -/
inductive Entry where
  /-- The entry of its parts. -/
  | mk (key : Key) (gap start : Gap) (value : Datum)

/-- The properties of an object up to its brace. -/
inductive Properties where
  /-- No properties are left, behind the opening brace or behind a comma. -/
  | none
  /-- A last property without a comma. -/
  | last (entry : Entry) (gap : Gap)
  /-- A property with a comma, and gaps before and behind the comma. -/
  | more (entry : Entry) (gap start : Gap) (others : Properties)

end

namespace QuotedText

/-- Only backslashes and quotes of the kind around the text are escaped. -/
def needsEscape (s : QuotedText) (c : Char) : Bool := c = s.quote || c = '\\'

/-- A string in print. -/
def print (s : QuotedText) : List Char :=
  s.quote.1 :: ((s.value.flatMap fun c => if s.needsEscape c then ['\\', c] else [c]) ++ [s.quote.1])

end QuotedText

namespace Key

/-- A key in print. -/
def print : Key → List Char
  | word w => w
  | string s => s.print

/-- The name that a key stands for. -/
def name : Key → String
  | word w => String.ofList w
  | string s => String.ofList s.value

end Key

mutual

/-- A datum in print. -/
def Datum.print : Datum → List Char
  | .null => "null".toList
  | .boolean b => if b then "true".toList else "false".toList
  | .integer n => integerText n
  | .string s => s.print
  | .name n => n
  | .array gap elements => '[' :: gap ++ elements.print
  | .object gap properties => '{' :: gap ++ properties.print

/-- Elements in print, with the bracket behind them. -/
def Elements.print : Elements → List Char
  | .none => [']']
  | .last value gap => value.print ++ gap ++ [']']
  | .more value gap start others => value.print ++ gap ++ ',' :: start ++ others.print

/-- A key, a colon and a value in print. -/
def Entry.print : Entry → List Char
  | ⟨key, gap, start, value⟩ => key.print ++ gap ++ ':' :: start ++ value.print

/-- Properties in print, with the brace behind them. -/
def Properties.print : Properties → List Char
  | .none => ['}']
  | .last entry gap => entry.print ++ gap ++ ['}']
  | .more entry gap start others => entry.print ++ gap ++ ',' :: start ++ others.print

end

mutual

/-- How deep arrays and objects are nested in a datum. -/
def Datum.nesting : Datum → Nat
  | .array _ elements => elements.nesting + 1
  | .object _ properties => properties.nesting + 1
  | _ => 0

/-- How deep arrays and objects are nested in some elements. -/
def Elements.nesting : Elements → Nat
  | .none => 0
  | .last value _ => value.nesting
  | .more value _ _ others => max value.nesting others.nesting

/-- How deep arrays and objects are nested in a value with a key. -/
def Entry.nesting : Entry → Nat
  | ⟨_, _, _, value⟩ => value.nesting

/-- How deep arrays and objects are nested in some properties. -/
def Properties.nesting : Properties → Nat
  | .none => 0
  | .last entry _ => entry.nesting
  | .more entry _ _ others => max entry.nesting others.nesting

end

/-- The literal of a scalar that is printed as a text at an offset. -/
def literalAt (k : Nat) (text : List Char) (value : Scalar) (escape : Bool) : Token :=
  .literal ⟨value, String.ofList text, escape, ⟨k, k + byteSize text⟩⟩

mutual

/-- The token of a datum that is printed at an offset. -/
def Datum.token (k : Nat) : Datum → Token
  | .null => literalAt k "null".toList .null false
  | .boolean b => literalAt k (if b then "true".toList else "false".toList) (.boolean b) false
  | .integer n => literalAt k (integerText n) (.integer n) false
  | .string s => literalAt k s.print (.string (String.ofList s.value)) (s.value.any s.needsEscape)
  | .name n => .identifier ⟨String.ofList n, ⟨k, k + byteSize n⟩⟩
  | .array gap elements =>
    .array (elements.tokens (k + byteSize ('[' :: gap)))
      ⟨k, k + byteSize ('[' :: gap ++ elements.print)⟩
  | .object gap properties =>
    .object ⟨properties.tokens (k + byteSize ('{' :: gap)),
      ⟨k, k + byteSize ('{' :: gap ++ properties.print)⟩⟩

/-- The tokens of elements that are printed from an offset on. -/
def Elements.tokens (k : Nat) : Elements → List Token
  | .none => []
  | .last value _ => [value.token k]
  | .more value gap start others =>
    value.token k :: others.tokens (k + byteSize (value.print ++ gap ++ ',' :: start))

/-- The property of an entry that is printed at an offset. -/
def Entry.property (k : Nat) : Entry → Property
  | ⟨key, gap, start, value⟩ =>
    .plain ⟨key.name, ⟨k, k + byteSize key.print⟩⟩
      (value.token (k + byteSize (key.print ++ gap ++ ':' :: start)))

/-- The properties of entries that are printed from an offset on. -/
def Properties.tokens (k : Nat) : Properties → List Property
  | .none => []
  | .last entry _ => [entry.property k]
  | .more entry gap start others =>
    entry.property k :: others.tokens (k + byteSize (entry.print ++ gap ++ ',' :: start))

end

/-- Each key at its first position, with its last value. -/
def Fields.lastValues (pairs : List (String × Value)) : Fields :=
  (pairs.map Prod.fst).eraseDups.map fun key =>
    (key, (Fields.get? pairs.reverse key).getD .null)

mutual

/-- The names that stand for values in a datum, in order. -/
def Datum.names : Datum → List String
  | .name n => [String.ofList n]
  | .array _ elements => elements.names
  | .object _ properties => properties.names
  | _ => []

/-- The names in some elements. -/
def Elements.names : Elements → List String
  | .none => []
  | .last value _ => value.names
  | .more value _ _ others => value.names ++ others.names

/-- The names in a value with a key; the key is none. -/
def Entry.names : Entry → List String
  | ⟨_, _, _, value⟩ => value.names

/-- The names in the values of some properties. -/
def Properties.names : Properties → List String
  | .none => []
  | .last entry _ => entry.names
  | .more entry _ _ others => entry.names ++ others.names

end

mutual

/-- The value of a datum whose names can all be looked up. -/
def Datum.value (references : Option Fields) : Datum → Value
  | .null => .null
  | .boolean b => .boolean b
  | .integer n => .integer n
  | .string s => .string (String.ofList s.value)
  | .name n => nameValue references (String.ofList n)
  | .array _ elements => .array (elements.values references)
  | .object _ properties => .object (Fields.lastValues (properties.values references))

/-- The values of some elements. -/
def Elements.values (references : Option Fields) : Elements → List Value
  | .none => []
  | .last value _ => [value.value references]
  | .more value _ _ others => value.value references :: others.values references

/-- The key and the value of an entry. -/
def Entry.value (references : Option Fields) : Entry → String × Value
  | ⟨key, _, _, value⟩ => (key.name, value.value references)

/-- The keys with the values of some properties. -/
def Properties.values (references : Option Fields) : Properties → List (String × Value)
  | .none => []
  | .last entry _ => [entry.value references]
  | .more entry _ _ others => entry.value references :: others.values references

end

/-- What a datum means: its value, unless a table is given that lacks a name. The first such name
is what evaluation fails with. -/
def Datum.meaning (references : Option Fields) (d : Datum) : Except DataError Value :=
  match d.names.find? fun name => references.any fun table => (table.get? name).isNone with
  | some missing => .error (.unknownReference missing)
  | none => .ok (d.value references)

end TemplateReader
