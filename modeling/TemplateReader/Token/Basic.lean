import TemplateReader.Text.Cursor
import TemplateReader.Number.Binary64

/-!
# Tokens

What is read from a template, a script or a data literal is a tree of tokens.
Every token spans the stretch of text that it was read from. An attribute list
is an object whose properties may also be spread or computed.
-/

namespace TemplateReader

/-- A value written without structure. -/
inductive Scalar where
  /-- A whole number in the signed 64-bit range. -/
  | integer (value : Int)
  /-- A number with a fraction, or one beyond the integers. -/
  | float (value : Binary64)
  /-- A text. -/
  | string (value : String)
  /-- A truth value. -/
  | boolean (value : Bool)
  /-- The absent value. -/
  | null
deriving DecidableEq, Repr, Inhabited

/-- A scalar as written, or a run of markup text. -/
structure Literal where
  /-- What the literal means. -/
  value : Scalar
  /-- The characters it was written with. -/
  raw : String
  /-- Whether `raw` holds escapes that were decoded into `value`. -/
  escape : Bool
  /-- Where it stands. -/
  span : Span
deriving DecidableEq, Repr, Inhabited

/-- A bare name. -/
structure Identifier where
  /-- The name. -/
  name : String
  /-- Where it stands. -/
  span : Span
deriving DecidableEq, Repr, Inhabited

/-- An embedded expression, kept as text. -/
structure Program where
  /-- The text between the braces, without surrounding blanks. -/
  source : String
  /-- Where it stands, braces included. -/
  span : Span
deriving DecidableEq, Repr, Inhabited

/-- One name of an import's list. -/
structure Specifier where
  /-- The name exported by the module. -/
  imported : String
  /-- The name it is bound to. -/
  binding : String
  /-- Whether only a type is imported. -/
  typeOnly : Bool
deriving DecidableEq, Repr, Inhabited

/-- A static import statement of a script. -/
structure Import where
  /-- Whether the whole statement imports types only. -/
  typeOnly : Bool
  /-- The name bound to the default export. -/
  defaultName : Option String
  /-- The name bound to the whole module. -/
  moduleName : Option String
  /-- The names of the braced list. -/
  specifiers : List Specifier
  /-- The module that is imported from. -/
  source : String
  /-- Where the statement stands, its semicolon included. -/
  span : Span
deriving DecidableEq, Repr, Inhabited

/-- How a property was written. -/
inductive PropertyForm where
  /-- A key with a value of its own. -/
  | plain
  /-- A braced expression after three dots, which has no key. -/
  | spread
  /-- A braced expression that is its own key. -/
  | computed
deriving DecidableEq, Repr, Inhabited

mutual

/-- A node of the tree that reading yields. -/
inductive Token where
  /-- A scalar or a run of text. -/
  | literal (literal : Literal)
  /-- A bare name. -/
  | identifier (identifier : Identifier)
  /-- Properties in braces, or the attributes of a tag. -/
  | object (object : Object)
  /-- One property on its own. -/
  | property (property : Property)
  /-- Values in brackets. -/
  | array (elements : List Token) (span : Span)
  /-- An embedded expression. -/
  | program (program : Program)
  /-- A markup element. -/
  | element (element : Element)
  /-- An import statement. -/
  | importDeclaration (declaration : Import)

/-- One entry of an object. -/
structure Property where
  /-- The key, absent exactly for spread properties. -/
  key : Option Identifier
  /-- The value. -/
  value : Token
  /-- How the property was written. -/
  form : PropertyForm
  /-- Where it stands, from its key to the end of its value. -/
  span : Span

/-- A list of properties. -/
structure Object where
  /-- The properties in source order, keys possibly repeated. -/
  properties : List Property
  /-- Where the list stands. -/
  span : Span

/-- A markup element with its attributes and children. -/
structure Element where
  /-- The tag name as written. -/
  name : String
  /-- The attributes of the opening tag. -/
  attributes : Object
  /-- The nodes between the opening and the close tag. -/
  children : List Token
  /-- Where the element stands, tags included. -/
  span : Span

end

/-- The text literal of a run of characters that begins at an offset. -/
def Literal.ofText (start : Nat) (text : List Char) : Literal where
  value := .string (String.ofList text)
  raw := String.ofList text
  escape := false
  span := ⟨start, start + byteSize text⟩

namespace Object

/-- The first property whose key has the given name. -/
def get? (o : Object) (name : String) : Option Property :=
  o.properties.find? fun p => p.key.any fun key => key.name = name

/-- The text of the first property of a name, when its value is a string literal. -/
def string? (o : Object) (name : String) : Option String :=
  match (o.get? name).map Property.value with
  | some (.literal ⟨.string text, _, _, _⟩) => some text
  | _ => none

end Object

namespace Token

/-- Where a token stands. -/
def span : Token → Span
  | literal l => l.span
  | identifier i => i.span
  | object o => o.span
  | property p => p.span
  | array _ s => s
  | program p => p.span
  | element e => e.span
  | importDeclaration i => i.span

/-- A token that spans no text matches nothing. -/
def isEmpty (t : Token) : Bool := t.span.isEmpty

/-- The name of a token's kind in output. -/
def kind : Token → String
  | literal _ => "Literal"
  | identifier _ => "Identifier"
  | object _ => "ObjectExpression"
  | property _ => "Property"
  | array .. => "ArrayExpression"
  | program _ => "ProgramExpression"
  | element _ => "MarkupExpression"
  | importDeclaration _ => "ImportDeclaration"

/-- The literal that a token is, if it is one. -/
def literal? : Token → Option Literal
  | literal l => some l
  | _ => none

/-- The program that a token is, if it is one. -/
def program? : Token → Option Program
  | program p => some p
  | _ => none

/-- The element that a token is, if it is one. -/
def element? : Token → Option Element
  | element e => some e
  | _ => none

end Token

/-- The property of a key and its value, spanning both. -/
def Property.plain (key : Identifier) (value : Token) : Property :=
  ⟨key, value, .plain, ⟨key.span.start, value.span.stop⟩⟩

end TemplateReader
