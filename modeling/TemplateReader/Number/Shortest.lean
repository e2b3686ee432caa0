import TemplateReader.Number.Binary64

/-!
# Shortest decimal digits

The decimal form of a number is a point of the coarsest grid of powers of ten
that has a point which rounds to that number. Coarser grids mean fewer digits,
so no shorter decimal reads back as the same number. Of two such points on the
grid the nearer is taken, and the even one when both are equally near.
-/

namespace TemplateReader

/-- A whole number times a power of ten. -/
structure Decimal where
  /-- The digits, read as a whole number. -/
  significand : Nat
  /-- The power of ten that the last digit counts. -/
  exponent : Int
deriving DecidableEq, Repr

namespace Binary64

/-- The point of the grid of multiples of `10 ^ exponent` that stands for a magnitude: the better of
its two neighbours among those that round to it, if either does. -/
def onGrid? (units : Nat) (exponent : Int) : Option Nat :=
  let quarterGap := Nat.pow 2 (gap units)
  let above := 4 * units + 2 * quarterGap
  let below :=
    if units = Nat.pow 2 units.log2 && 0 < gap units then 4 * units - quarterGap
    else 4 * units - 2 * quarterGap
  let closed := (units / quarterGap) % 2 = 0
  -- in quarter units: a grid step is `step / scale`
  let (step, scale) : Nat × Nat :=
    match exponent with
    | .ofNat e => (4 * one * Nat.pow 10 e, 1)
    | .negSucc e => (4 * one, Nat.pow 10 (e + 1))
  let target := 4 * units * scale
  let rounds (point : Nat) : Bool :=
    if closed then below * scale ≤ point * step && point * step ≤ above * scale
    else below * scale < point * step && point * step < above * scale
  let lower := target / step
  let upper := lower + 1
  match rounds lower, rounds upper with
  | true, false => some lower
  | false, true => some upper
  | false, false => none
  | true, true =>
    let down := target - lower * step
    let up := upper * step - target
    if down < up then some lower
    else if up < down then some upper
    else if lower % 2 = 0 then some lower else some upper

/-- The first grid with a point for this magnitude among `steps` grids, from the given one to finer. -/
def coarsest (units : Nat) : (steps : Nat) → (exponent : Int) → Decimal
  | 0, exponent => ⟨(onGrid? units exponent).getD 0, exponent⟩
  | steps + 1, exponent =>
    match onGrid? units exponent with
    | some significand => ⟨significand, exponent⟩
    | none => coarsest units steps (exponent - 1)

/-- The shortest decimal that rounds to the magnitude of a number. -/
def shortest (x : Binary64) : Decimal :=
  if x.isZero then ⟨0, 0⟩
  else
    -- the power of ten is within two of this estimate, and seventeen digits always suffice
    let magnitude := ((x.units.log2 : Int) - 1074) * 30103 / 100000
    coarsest x.units 22 (magnitude + 2)

end Binary64

end TemplateReader
