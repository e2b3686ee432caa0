import TemplateReader.Number.Binary64

/-!
# Data values

A data value is a scalar, a list of values, or an object. An object keeps its
keys distinct and in the order in which they were first given; giving a key
again replaces its value in place.
-/

namespace TemplateReader

/-- A data value. -/
inductive Value where
  /-- The absent value. -/
  | null
  /-- A truth value. -/
  | boolean (value : Bool)
  /-- A whole number. -/
  | integer (value : Int)
  /-- A number of the 64-bit binary format. -/
  | float (value : Binary64)
  /-- A text. -/
  | string (value : String)
  /-- A list. -/
  | array (elements : List Value)
  /-- Keys with their values, in order. -/
  | object (fields : List (String × Value))

/-- Keys with their values, in the order in which the keys were first given. -/
abbrev Fields := List (String × Value)

namespace Fields

/-- Gives a key a value: in place if the key is there, at the end otherwise. -/
def insert (key : String) (value : Value) : Fields → Fields
  | [] => [(key, value)]
  | (k, v) :: fields =>
    if k = key then (k, value) :: fields else (k, v) :: insert key value fields

/-- The value of a key. -/
def get? (fields : Fields) (key : String) : Option Value :=
  (fields.find? fun field => field.1 = key).map Prod.snd

/-- Gives the keys of a list their values, one after another. -/
def ofList (pairs : List (String × Value)) : Fields :=
  pairs.foldl (fun fields (key, value) => insert key value fields) []

/-- A key that was just given a value has it. -/
theorem get?_insert_self (fields : Fields) (key : String) (value : Value) :
    get? (insert key value fields) key = some value := by
  induction fields with
  | nil => simp [insert, get?]
  | cons field fields ih =>
    obtain ⟨k, v⟩ := field
    by_cases hk : k = key
    · simp [insert, get?, hk]
    · simpa [insert, get?, hk] using ih

/-- Giving one key a value leaves the others as they were. -/
theorem get?_insert_of_ne (fields : Fields) {key other : String} (value : Value)
    (h : other ≠ key) : get? (insert key value fields) other = get? fields other := by
  induction fields with
  | nil => simp [insert, get?, Ne.symm h]
  | cons field fields ih =>
    obtain ⟨k, v⟩ := field
    by_cases hk : k = key
    · subst hk
      simp [insert, get?, Ne.symm h]
    · by_cases ho : k = other
      · subst ho
        simp [insert, get?, hk]
      · simpa [insert, get?, hk, ho] using ih

end Fields

end TemplateReader
