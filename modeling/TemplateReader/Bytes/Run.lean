import TemplateReader.Template.Error
import TemplateReader.Text.Cursor

/-!
# Runs over bytes

A text can also be read byte by byte, at offsets that are computed and slices
that are cut out between them. Such a run can go wrong where reading by
characters cannot: at an index out of range, at a slice that cuts through a
character, at a subtraction below zero and in a loop that does not advance.
Here each of these stops the run with a fault of its own, so that a run without
a fault is one in which none of them happens.
-/

namespace TemplateReader

/-- What may go wrong in a run over the bytes of a text. -/
inductive Fault where
  /-- A byte is taken at an index out of range. -/
  | index
  /-- A slice ends before it begins, past the end of the text or inside a character. -/
  | slice
  /-- A number is taken from a smaller one. -/
  | underflow
  /-- A loop or a recursion goes on without having advanced. -/
  | stuck
deriving DecidableEq, Repr

/-- How a run ends without a result. -/
inductive Halt where
  /-- The text is no template, which is an answer like any other. -/
  | refused (error : TemplateError)
  /-- The run went wrong. -/
  | fault (fault : Fault)
deriving DecidableEq, Repr

/-- A run over bytes: its result, or how it ends without one. -/
abbrev Run := Except Halt

namespace Run

instance instDecidableEq {α : Type} [DecidableEq α] : DecidableEq (Run α)
  | .ok a, .ok b => decidable_of_iff (a = b) ⟨congrArg Except.ok, Except.ok.inj⟩
  | .error h, .error h' => decidable_of_iff (h = h') ⟨congrArg Except.error, Except.error.inj⟩
  | .ok _, .error _ => .isFalse (by intro h; cases h)
  | .error _, .ok _ => .isFalse (by intro h; cases h)

/-- The run that ends with an error of the template. -/
def refuse {α : Type} (e : TemplateError) : Run α := .error (.refused e)

/-- The run that goes wrong. -/
def fail {α : Type} (f : Fault) : Run α := .error (.fault f)

/-- What a reading by characters comes to, as the end of a run. -/
def ofReading {α : Type} (e : Except TemplateError α) : Run α := e.mapError Halt.refused

end Run

namespace Bytes

/-- The UTF-8 form of a text. -/
def utf8 (s : List Char) : List UInt8 := s.flatMap String.utf8EncodeChar

/-- The byte at an index, as the character of its number; nothing out of range. -/
def byteIn? (bytes : List UInt8) (i : Nat) : Option Char :=
  bytes[i]?.map fun b => Char.ofNat b.toNat

/-- The byte at an index that has to be in range. -/
def byteIn (bytes : List UInt8) (i : Nat) : Run Char :=
  match byteIn? bytes i with
  | some b => .ok b
  | none => .fail .index

/-- The byte of a text at an index; nothing out of range. -/
def byte? (s : List Char) (i : Nat) : Option Char := byteIn? (utf8 s) i

/-- The byte of a text at an index that has to be in range. -/
def byteAt (s : List Char) (i : Nat) : Run Char :=
  match byte? s i with
  | some b => .ok b
  | none => .fail .index

/-- The text between two offsets; nothing unless both are boundaries of characters, in order. -/
def slice? (s : List Char) (a b : Nat) : Option (List Char) := do
  let (_, rest) ← splitBytes? a s
  if a ≤ b then (splitBytes? (b - a) rest).map Prod.fst else none

/-- The text between two offsets that have to be boundaries of characters, in order. -/
def sliceAt (s : List Char) (a b : Nat) : Run (List Char) :=
  match slice? s a b with
  | some text => .ok text
  | none => .fail .slice

/-- The difference of two numbers, the second of which has to be the smaller. -/
def minus (a b : Nat) : Run Nat :=
  if b ≤ a then .ok (a - b) else .fail .underflow

/-- What one turn of a loop comes to. -/
inductive Turn (σ α : Type) where
  /-- The loop ends with a result. -/
  | done (result : α)
  /-- The loop goes on at an offset in a state. -/
  | next (offset : Nat) (state : σ)

/-- Takes turns from an offset of a text of `size` bytes until one ends the loop. A loop goes on
only forward, and only from inside the text. -/
def loop {σ α : Type} (size : Nat) (turn : Nat → σ → Run (Turn σ α)) (i : Nat) (state : σ) :
    Run α :=
  match turn i state with
  | .error halt => .error halt
  | .ok (.done result) => .ok result
  | .ok (.next j state) =>
    if i < j ∧ i < size then loop size turn j state else .fail .stuck
termination_by size - i

/-- One turn of the search for the end of a run of bytes of one class. -/
def runTurn (s : List Char) (p : Char → Bool) (stop i : Nat) (_ : Unit) : Run (Turn Unit Nat) :=
  if i < stop then do
    let b ← byteAt s i
    return if p b then .next (i + 1) () else .done i
  else return .done i

/-- The end of the run of bytes of a class that begins at an offset, at `stop` at the latest. -/
def runEnd (s : List Char) (p : Char → Bool) (stop i : Nat) : Run Nat :=
  loop (byteSize s) (runTurn s p stop) i ()

end Bytes

end TemplateReader
