import Mathlib.Data.List.Nodup
import TemplateReader.Grammar.Container

/-!
# Registries as a list and a table

A registry can also be kept in two parts, a list of its names and a hash table
of their rules. Giving a name a rule changes the table, and the list only if the
name is not in the table yet. Nothing but this keeps the two parts in step.
-/

namespace TemplateReader

/-- A list of names and a table of rules. -/
structure RuleTable where
  /-- The names in the order in which they were first given. -/
  order : List String
  /-- The rules by their names. -/
  table : Std.HashMap String Rule

namespace RuleTable

/-- No rules. -/
def empty : RuleTable := ⟨[], ∅⟩

/-- Gives a name a rule. -/
def define (t : RuleTable) (name : String) (rule : Rule) : RuleTable where
  order := if t.table.contains name then t.order else t.order ++ [name]
  table := t.table.insert name rule

/-- Gives names rules one after the other. -/
def defineAll (t : RuleTable) (definitions : List (String × Rule)) : RuleTable :=
  definitions.foldl (fun t (name, rule) => t.define name rule) t

/-- The grammar of data literals. -/
def standard : RuleTable := empty.defineAll Rule.builtIn

/-- The rule of a name. -/
def get? (t : RuleTable) (name : String) : Option Rule := t.table[name]?

/-- Whether a name has a rule. -/
def has (t : RuleTable) (name : String) : Bool := t.table.contains name

/-- The names in order. -/
def names (t : RuleTable) : List String := t.order

/-- Number of names. -/
def size (t : RuleTable) : Nat := t.order.length

/-- The rules of some names, unless one of the names has none. -/
def resolve (t : RuleTable) : List String → Except LexError (List Rule)
  | [] => .ok []
  | name :: names =>
    match t.get? name with
    | none => .error (.unknownDefinition name)
    | some rule => (t.resolve names).map (rule :: ·)

/-- Matches the first of all names at a cursor. All names are looked up first. -/
def matchAll (t : RuleTable) (s : Scope) (c : Cursor) : Except LexError (Option Token) :=
  (t.resolve t.names).map fun rules => Registry.firstMatch rules s c

end RuleTable

end TemplateReader
