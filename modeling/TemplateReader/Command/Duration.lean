import TemplateReader.Number.Notation

/-!
# Written durations

A duration is told in microseconds below a millisecond, in milliseconds with
one decimal below a second, and in seconds with two decimals from there on.
-/

namespace TemplateReader

/-- A number of `10 ^ (-places)` parts as a decimal with that many places. -/
def fixedPlaces (places parts : Nat) : List Char :=
  let digits := digitsOf parts
  let padded := List.replicate (places + 1 - digits.length) '0' ++ digits
  padded.take (padded.length - places) ++ '.' :: padded.drop (padded.length - places)

/-- The text of a number of microseconds. -/
def durationText (micros : Nat) : String :=
  if micros < 1000 then String.ofList (digitsOf micros) ++ "μs"
  else if micros < 1000000 then String.ofList (fixedPlaces 1 (divNearest micros 100)) ++ "ms"
  else String.ofList (fixedPlaces 2 (divNearest micros 10000)) ++ "s"

end TemplateReader
