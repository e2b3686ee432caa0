import TemplateReader.Bytes.Run
import TemplateReader.Text.Position

/-!
# Positions over bytes

The line of an offset is counted over the bytes before it, its column over the
characters of the line that begin before it.
-/

namespace TemplateReader.Bytes

/-- One turn of the count of line feeds before an offset. The state is their number and the offset
behind the last of them. -/
def lineTurn (s : List Char) (stop i : Nat) (state : Nat × Nat) :
    Run (Turn (Nat × Nat) (Nat × Nat)) :=
  if i < stop then do
    let b ← byteAt s i
    return .next (i + 1) (if b = '\n' then (state.1 + 1, i + 1) else state)
  else return .done state

/-- The offsets at which the characters of a text begin, if the text begins at an offset. -/
def charOffsets (i : Nat) : List Char → List Nat
  | [] => []
  | c :: text => i :: charOffsets (i + c.utf8Size) text

/-- The position of an offset; an offset past the end has the position of the end. -/
def positionAt (s : List Char) (offset : Nat) : Run Position := do
  let stop := min offset (byteSize s)
  let (line, start) ← loop (byteSize s) (lineTurn s stop) 0 (0, 0)
  let rest ← sliceAt s start (byteSize s)
  return ⟨line, ((charOffsets 0 rest).takeWhile fun i => start + i < stop).length⟩

end TemplateReader.Bytes
