import TemplateReader.Proofs.Template.Construct

/-!
# Markup trees and their printed form

A markup tree is what an author has in mind before it is written down: texts,
comments, expressions, and elements with their attributes. It has one printed
form, in which each attribute follows a single blank. For every tree there are
the tokens that its printed form should be read to, spelled out with the bytes
that each part takes up; a tree is well formed when its parts cannot be mistaken
for anything else in print.
-/

namespace TemplateReader.Markup

/-- An attribute in one of the ways in which it can be written. -/
inductive Attribute where
  /-- A name alone. -/
  | flag (name : List Char)
  /-- A value between two quotes of one kind, double or single. -/
  | quoted (name : List Char) (quote : Char) (value : List Char)
  /-- A value without quotes. -/
  | bare (name value : List Char)
  /-- An expression as the value. -/
  | braced (name expression : List Char)
  /-- An expression that is its own name. -/
  | computed (expression : List Char)
  /-- An expression whose properties are all taken over. -/
  | spread (expression : List Char)

/-- A node of a markup tree. -/
inductive Node where
  /-- A run of text. -/
  | text (text : List Char)
  /-- A comment. -/
  | comment (inner : List Char)
  /-- An expression. -/
  | program (expression : List Char)
  /-- An element whose tag closes itself. -/
  | selfClosing (name : List Char) (attributes : List Attribute)
  /-- An element that never has content. -/
  | void (name : List Char) (attributes : List Attribute)
  /-- A script or a style with its content. -/
  | rawText (name : List Char) (attributes : List Attribute) (content : List Char)
  /-- Any other element with its children. -/
  | element (name : List Char) (attributes : List Attribute) (children : List Node)

/-- An attribute in print. -/
def Attribute.print : Attribute → List Char
  | flag name => name
  | quoted name quote value => name ++ '=' :: (quote :: value ++ [quote])
  | bare name value => name ++ '=' :: value
  | braced name expression => name ++ '=' :: ('{' :: expression ++ ['}'])
  | computed expression => '{' :: expression ++ ['}']
  | spread expression => '{' :: '.' :: '.' :: '.' :: expression ++ ['}']

/-- Attributes in print, each behind a blank. -/
def printAttributes : List Attribute → List Char
  | [] => []
  | a :: rest => ' ' :: a.print ++ printAttributes rest

mutual

/-- A node in print. -/
def Node.print : Node → List Char
  | .text text => text
  | .comment inner => commentOpening ++ inner ++ commentClosing
  | .program expression => '{' :: expression ++ ['}']
  | .selfClosing name attributes => tagText (name ++ printAttributes attributes ++ [' ', '/'])
  | .void name attributes => tagText (name ++ printAttributes attributes)
  | .rawText name attributes content =>
    tagText (name ++ printAttributes attributes) ++ (content ++ tagText ('/' :: name))
  | .element name attributes children =>
    tagText (name ++ printAttributes attributes) ++
      (printNodes children ++ tagText ('/' :: name))

/-- Nodes in print, one behind the other. -/
def printNodes : List Node → List Char
  | [] => []
  | node :: rest => node.print ++ printNodes rest

end

/-- The key and the value of an attribute that is printed at an offset. -/
def Attribute.property (start : Nat) : Attribute → Property
  | flag name =>
    let span : Span := ⟨start, start + byteSize name⟩
    ⟨some ⟨String.ofList name, span⟩,
      .literal ⟨.boolean true, String.ofList name, false, span⟩, .plain, span⟩
  | quoted name quote value =>
    let nameEnd := start + byteSize name
    let stop := nameEnd + 1 + (byteSize value + 2)
    ⟨some ⟨String.ofList name, ⟨start, nameEnd⟩⟩,
      .literal ⟨.string (String.ofList value), String.ofList (quote :: value ++ [quote]), false,
        ⟨nameEnd + 1, stop⟩⟩, .plain, ⟨start, stop⟩⟩
  | bare name value =>
    let nameEnd := start + byteSize name
    let stop := nameEnd + 1 + byteSize value
    ⟨some ⟨String.ofList name, ⟨start, nameEnd⟩⟩,
      .literal ⟨.string (String.ofList value), String.ofList value, false, ⟨nameEnd + 1, stop⟩⟩,
      .plain, ⟨start, stop⟩⟩
  | braced name expression =>
    let nameEnd := start + byteSize name
    let stop := nameEnd + 1 + (byteSize expression + 2)
    ⟨some ⟨String.ofList name, ⟨start, nameEnd⟩⟩,
      .program ⟨String.ofList (trim expression), ⟨nameEnd + 1, stop⟩⟩, .plain, ⟨start, stop⟩⟩
  | computed expression =>
    let source := String.ofList (trim expression)
    let keyStart := start + 1 + (byteSize expression - byteSize (trimStart expression))
    let span : Span := ⟨start, start + (byteSize expression + 2)⟩
    ⟨some ⟨source, ⟨keyStart, keyStart + byteSize (trim expression)⟩⟩, .program ⟨source, span⟩,
      .computed, span⟩
  | spread expression =>
    let span : Span := ⟨start, start + (byteSize expression + 5)⟩
    ⟨none, .program ⟨String.ofList (trim expression), span⟩, .spread, span⟩

/-- The properties of attributes that are printed at an offset. -/
def propertiesAt (start : Nat) : List Attribute → List Property
  | [] => []
  | a :: rest =>
    a.property (start + 1) :: propertiesAt (start + 1 + byteSize a.print) rest

/-- The object of attributes that are printed at an offset: it spans them all, from the first name
on, and without attributes nothing. -/
def objectAt (start : Nat) (attributes : List Attribute) : Object :=
  ⟨propertiesAt start attributes,
    if attributes.isEmpty then ⟨start, start⟩
    else ⟨start + 1, start + byteSize (printAttributes attributes)⟩⟩

mutual

/-- The token of a node that is printed at an offset. -/
def Node.token (start : Nat) : Node → Token
  | .text text => .literal (.ofText start text)
  | .comment inner => .literal (.ofText start (commentOpening ++ inner ++ commentClosing))
  | .program expression =>
    .program ⟨String.ofList (trim expression), ⟨start, start + (byteSize expression + 2)⟩⟩
  | .selfClosing name attributes =>
    .element ⟨String.ofList name, objectAt (start + 1 + byteSize name) attributes, [],
      ⟨start, start + byteSize (Node.selfClosing name attributes).print⟩⟩
  | .void name attributes =>
    .element ⟨String.ofList name, objectAt (start + 1 + byteSize name) attributes, [],
      ⟨start, start + byteSize (Node.void name attributes).print⟩⟩
  | .rawText name attributes content =>
    .element ⟨String.ofList name, objectAt (start + 1 + byteSize name) attributes,
      if content.isEmpty then []
      else [.literal (.ofText
        (start + byteSize (tagText (name ++ printAttributes attributes))) content)],
      ⟨start, start + byteSize (Node.rawText name attributes content).print⟩⟩
  | .element name attributes children =>
    .element ⟨String.ofList name, objectAt (start + 1 + byteSize name) attributes,
      tokensAt (start + byteSize (tagText (name ++ printAttributes attributes))) children,
      ⟨start, start + byteSize (Node.element name attributes children).print⟩⟩

/-- The tokens of nodes that are printed at an offset. -/
def tokensAt (start : Nat) : List Node → List Token
  | [] => []
  | node :: rest => node.token start :: tokensAt (start + byteSize node.print) rest

end

/-- A letter with further tag-name characters behind it. -/
def IsElementName (name : List Char) : Prop :=
  ∃ c rest, name = c :: rest ∧ c.isAlpha = true ∧ ∀ d ∈ rest, isTagNameChar d = true

/-- At least one attribute-name character, and none of another kind. -/
def IsAttributeName (name : List Char) : Prop :=
  name ≠ [] ∧ ∀ c ∈ name, isAttributeNameChar c = true

/-- What is between the delimiters of an attribute does not close them. A bare value has no blanks,
begins with no other value's delimiter and would not end a tag; a computed one begins with no dots. -/
def Attribute.WellFormed : Attribute → Prop
  | flag name => IsAttributeName name
  | quoted name quote value =>
    IsAttributeName name ∧ isTagQuote quote = true ∧ FillsQuote quote value
  | bare name value =>
    IsAttributeName name ∧ (∀ c ∈ value, isSpace c = false) ∧ FillsTag value ∧
      ∃ c rest, value = c :: rest ∧ isTagQuote c = false ∧ c ≠ '{'
  | braced name expression => IsAttributeName name ∧ FillsBraces expression
  | computed expression => FillsBraces expression ∧ ¬['.', '.', '.'] <+: trim expression
  | spread expression => FillsBraces expression

/-- Whether a node is text. -/
def Node.isText : Node → Bool
  | text _ => true
  | _ => false

mutual

/-- The texts of a node do not end early, and its name is of its kind. -/
def Node.WellFormed : Node → Prop
  | .text text =>
    (∃ c ∈ text, isBlankChar c = false) ∧ '<' ∉ text ∧ '{' ∉ text
  | .comment inner => ¬commentClosing <:+: inner
  | .program expression => FillsBraces expression
  | .selfClosing name attributes =>
    IsElementName name ∧ ∀ a ∈ attributes, a.WellFormed
  | .void name attributes =>
    IsElementName name ∧ isVoidElement name = true ∧ ∀ a ∈ attributes, a.WellFormed
  | .rawText name attributes content =>
    IsElementName name ∧ isRawTextElement name = true ∧ (∀ a ∈ attributes, a.WellFormed) ∧
      ∀ closing, IsCloseTag name closing → ¬closing <:+: content
  | .element name attributes children =>
    IsElementName name ∧ isVoidElement name = false ∧ isRawTextElement name = false ∧
      (∀ a ∈ attributes, a.WellFormed) ∧ WellFormedNodes children

/-- Each node is well formed, and no two texts stand side by side. -/
def WellFormedNodes : List Node → Prop
  | [] => True
  | node :: rest =>
    node.WellFormed ∧ (node.isText = true → ∀ next ∈ rest.head?, next.isText = false) ∧
      WellFormedNodes rest

end

mutual

/-- How many elements with close tags of their own stand inside each other. -/
def Node.nesting : Node → Nat
  | .element _ _ children => nestingOf children + 1
  | _ => 0

/-- The greatest nesting of any of the nodes. -/
def nestingOf : List Node → Nat
  | [] => 0
  | node :: rest => max node.nesting (nestingOf rest)

end

end TemplateReader.Markup
