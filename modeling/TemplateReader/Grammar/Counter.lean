import TemplateReader.Grammar.Container

/-!
# Counting levels of nesting

A lexer keeps one counter of the nested matches under way, and every match shares
it: going one level deeper raises the counter, runs the inner match and puts the
counter back. Here data values are read with such a counter, under a limit or under
none. Each level of nesting takes at least a bracket, so fuel for every character
that remains is enough without a limit as well.
-/

namespace TemplateReader

/-- A computation that shares the counter of nested matches. -/
abbrev Counting := StateM Nat

/-- A scope that matches no parts. The rules of values without members use nothing of their scope. -/
def Scope.bare : Scope := ⟨[], 0, 0, 0, fun _ _ _ => none⟩

namespace Counting

/-- Goes one level deeper and puts the counter back; refused when the counter is at a limit. -/
def nested {α : Type} (limit : Option Nat) (f : Counting (Option α)) : Counting (Option α) := do
  let depth ← get
  if limit.any fun limit => limit ≤ depth then return none
  else
    set (depth + 1)
    let result ← f
    set depth
    return result

/-- Reads the members of a container up to its closing bracket, from behind any whitespace. -/
def readMembers {α : Type} (closing : Char)
    (member : (c : Cursor) → Counting (Option (α × LaterCursor c))) (c : Cursor) :
    Counting (Option (List α × Cursor)) :=
  match c.rest with
  | [] => return none
  | ch :: text =>
    if ch = closing then return some ([], c.advance [ch] text)
    else do
      match ← member c with
      | none => return none
      | some (first, ⟨after, hlt⟩) =>
        let next := after.skipWhile isSpace
        match hn : next.rest with
        | [] => return none
        | ch :: text =>
          if ch = ',' then
            have : ((next.advance [ch] text).skipWhile isSpace).rest.length < c.rest.length := by
              have h₁ := after.length_skipWhile_le isSpace
              have h₂ := (next.advance [ch] text).length_skipWhile_le isSpace
              have h₃ : next.rest.length = text.length + 1 := by simp [hn]
              have h₄ : (next.advance [ch] text).rest.length = text.length := rfl
              have h₅ : next = after.skipWhile isSpace := rfl
              rw [h₅] at h₃ h₂ h₄ ⊢
              omega
            return (← readMembers closing member ((next.advance [ch] text).skipWhile isSpace)).map
              fun (others, last) => (first :: others, last)
          else if ch = closing then return some ([first], next.advance [ch] text)
          else return none
termination_by c.rest.length

/-- Reads a value at a cursor. -/
def element? (value : Cursor → Counting (Option Token)) (c : Cursor) :
    Counting (Option (Token × LaterCursor c)) := do
  let found ← value c
  return TemplateReader.element? (fun _ => found) c

/-- The cursor behind a key, a colon and any whitespace. -/
def valueCursor? (c : Cursor) : Option Cursor := do
  let key ← key? .bare c
  let afterKey ← c.jump? key.span.stop
  match (afterKey.skipWhile isSpace).rest with
  | ':' :: text => some (((afterKey.skipWhile isSpace).advance [':'] text).skipWhile isSpace)
  | _ => none

/-- Reads a key, a colon and a value at a cursor. -/
def member? (value : Cursor → Counting (Option Token)) (c : Cursor) :
    Counting (Option (Property × LaterCursor c)) := do
  match valueCursor? c with
  | none => return none
  | some start =>
    let found ← value start
    return TemplateReader.member? .bare (fun _ => found) c

/-- Properties in braces. -/
def object (limit : Option Nat) (value : Cursor → Counting (Option Token)) (c : Cursor) :
    Counting (Option Token) :=
  match c.rest with
  | '{' :: text =>
    nested limit do
      let start := (c.advance ['{'] text).skipWhile isSpace
      return (← readMembers '}' (member? value) start).map fun (properties, after) =>
        .object ⟨properties, c.spanTo after⟩
  | _ => return none

/-- Values in brackets. -/
def array (limit : Option Nat) (value : Cursor → Counting (Option Token)) (c : Cursor) :
    Counting (Option Token) :=
  match c.rest with
  | '[' :: text =>
    nested limit do
      let start := (c.advance ['['] text).skipWhile isSpace
      return (← readMembers ']' (element? value) start).map fun (elements, after) =>
        .array elements (c.spanTo after)
  | _ => return none

/-- A rule that leaves the counter alone. -/
def leaf (rule : Rule) (c : Cursor) : Counting (Option Token) := return rule .bare c

/-- The rules of values in the order in which they are tried. -/
def valueRules (limit : Option Nat) (value : Cursor → Counting (Option Token)) :
    List (Cursor → Counting (Option Token)) :=
  [leaf Rule.null, leaf Rule.boolean, leaf Rule.string, leaf Rule.float, leaf Rule.integer,
    object limit value, array limit value, leaf Rule.identifier]

/-- The first match among some rules that is not empty. -/
def firstMatch (c : Cursor) :
    List (Cursor → Counting (Option Token)) → Counting (Option Token)
  | [] => return none
  | rule :: rules => do
    match (← rule c).filter fun t => !t.isEmpty with
    | some t => return some t
    | none => firstMatch c rules

/-- Matches a value at a cursor under a limit of nesting, or under none. -/
def valueWith (limit : Option Nat) : (fuel : Nat) → Cursor → Counting (Option Token)
  | 0, _ => return none
  | fuel + 1, c => firstMatch c (valueRules limit (valueWith limit fuel))

/-- The value at a cursor, with fuel for every character that remains. -/
def value (limit : Option Nat) (c : Cursor) : Counting (Option Token) :=
  valueWith limit (c.rest.length + 1) c

end Counting

end TemplateReader
