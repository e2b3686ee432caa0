import TemplateReader.Data.Value
import TemplateReader.Token.Basic
import TemplateReader.Token.Record

/-!
# Evaluation of data tokens

Literals, names, arrays and objects have a value; programs, markup, imports
and properties on their own have none. Names are looked up in a table of
references. Without a table a name stands for a reference that is resolved
later, written as a string.
-/

namespace TemplateReader

/-- Why a token has no value. -/
inductive DataError where
  /-- The table lacks a name. -/
  | unknownReference (name : String)
  /-- The token is of a kind that has no value. -/
  | invalidToken
  /-- A property has no key. -/
  | malformedProperty
  /-- An object was required. -/
  | malformedObject
  /-- An array was required. -/
  | malformedArray
deriving DecidableEq, Repr

namespace DataError

/-- The wording of an error. -/
def message : DataError → String
  | unknownReference name => "Unknown reference " ++ name
  | invalidToken => "Invalid data token type"
  | malformedProperty => "Malformed property"
  | malformedObject => "Malformed object"
  | malformedArray => "Malformed array"

end DataError

/-- The string of a reference that is resolved later. -/
def deferredReference (name : String) : String := "$\x7b" ++ name ++ "\x7d"

/-- The value of a name. -/
def resolveName (references : Option Fields) (name : String) : Except DataError Value :=
  match references with
  | none => .ok (.string (deferredReference name))
  | some table =>
    match table.get? name with
    | some value => .ok value
    | none => .error (.unknownReference name)

mutual

/-- The value of a token. -/
def Token.evaluate (references : Option Fields) : Token → Except DataError Value
  | .literal l => .ok l.value.toValue
  | .identifier i => resolveName references i.name
  | .object o => (o.evaluate references).map Value.object
  | .array elements _ => (evaluateTokens references elements).map Value.array
  | _ => .error .invalidToken

/-- The fields of an object: its keys with their values, of which the last counts. -/
def Object.evaluate (references : Option Fields) : Object → Except DataError Fields
  | ⟨properties, _⟩ => (evaluateProperties references properties).map Fields.ofList

/-- The key and the value of a property; a missing key is found first. -/
def Property.evaluate (references : Option Fields) : Property → Except DataError (String × Value)
  | ⟨none, _, _, _⟩ => .error .malformedProperty
  | ⟨some key, value, _, _⟩ => (value.evaluate references).map fun value => (key.name, value)

/-- The values of several tokens, up to the first error. -/
def evaluateTokens (references : Option Fields) : List Token → Except DataError (List Value)
  | [] => .ok []
  | t :: ts =>
    match t.evaluate references with
    | .error e => .error e
    | .ok value => (evaluateTokens references ts).map (value :: ·)

/-- The keys and values of several properties, up to the first error. -/
def evaluateProperties (references : Option Fields) :
    List Property → Except DataError (List (String × Value))
  | [] => .ok []
  | p :: ps =>
    match p.evaluate references with
    | .error e => .error e
    | .ok pair => (evaluateProperties references ps).map (pair :: ·)

end

/-- The fields of a token that must be an object. -/
def Token.evaluateObject (references : Option Fields) : Token → Except DataError Fields
  | .object o => o.evaluate references
  | _ => .error .malformedObject

/-- The elements of a token that must be an array. -/
def Token.evaluateArray (references : Option Fields) : Token → Except DataError (List Value)
  | .array elements _ => evaluateTokens references elements
  | _ => .error .malformedArray

end TemplateReader
