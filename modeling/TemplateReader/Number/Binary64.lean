/-!
# Finite binary64 numbers

Every finite number of the 64-bit binary format is a whole multiple of
`2 ^ (-1074)`, its least positive one, so a sign and that multiple describe it
exactly and equality of numbers is equality of these fields. No operation
reaches an infinity: where one would, it answers nothing.
-/

namespace TemplateReader

/-- Division rounded to the nearest whole number, a half going to the even neighbour. -/
def divNearest (num den : Nat) : Nat :=
  let q := num / den
  let r := num % den
  if 2 * r < den then q
  else if den < 2 * r then q + 1
  else if q % 2 = 0 then q else q + 1

/-- A number of the 64-bit binary format, finite if its magnitude is in the range of the format. -/
structure Binary64 where
  /-- Whether the sign is negative; zero has both signs. -/
  negative : Bool
  /-- The magnitude as a multiple of `2 ^ (-1074)`. -/
  units : Nat
deriving DecidableEq, Repr, Inhabited

namespace Binary64

/-- Number of units in one. -/
def one : Nat := Nat.pow 2 1074

/-- The first power of two beyond the finite numbers, in units. -/
def overflow : Nat := Nat.pow 2 2098

/-- Whether the magnitude lies below the first power of two beyond the finite numbers. -/
def isFinite (x : Binary64) : Bool := x.units < overflow

/-- The exponent of the gap between neighbouring numbers at this magnitude, in units: numbers have
fifty-three significant bits, and no gap is smaller than a unit. -/
def gap (units : Nat) : Nat :=
  units.log2 - 52

/-- The nearest number to a quotient, ties going to the even significand; none past the largest. -/
def ofRatio (negative : Bool) (num den : Nat) : Option Binary64 :=
  let step := Nat.pow 2 (gap (num * one / den))
  let units := divNearest (num * one) (den * step) * step
  if units < overflow then some ⟨negative, units⟩ else none

/-- The nearest number to `significand * 10 ^ exponent`. -/
def ofDecimal (negative : Bool) (significand : Nat) (exponent : Int) : Option Binary64 :=
  match exponent with
  | .ofNat e => ofRatio negative (significand * Nat.pow 10 e) 1
  | .negSucc e => ofRatio negative significand (Nat.pow 10 (e + 1))

/-- Whether the number is zero, of either sign. -/
def isZero (x : Binary64) : Bool := x.units = 0

/-- The number of opposite sign. -/
def neg (x : Binary64) : Binary64 := ⟨!x.negative, x.units⟩

/-- The rounded product. -/
def mul (x y : Binary64) : Option Binary64 :=
  ofRatio (x.negative != y.negative) (x.units * y.units) (one * one)

/-- The rounded quotient; none for a zero divisor. -/
def div (x y : Binary64) : Option Binary64 :=
  if y.isZero then none else ofRatio (x.negative != y.negative) x.units y.units

end Binary64

end TemplateReader
