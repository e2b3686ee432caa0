import TemplateReader.Number.Shortest

/-!
# Written numbers

The written form of a binary64 number: positional with a point when the
scientific exponent lies from −5 to 15, scientific with a signed exponent
otherwise. The reader accepts both forms.
-/

namespace TemplateReader

/-- The decimal digits of a natural number. -/
def digitsOf (n : Nat) : List Char :=
  (Nat.toDigits 10 n)

/-- The decimal form of an integer. -/
def integerText (n : Int) : List Char :=
  match n with
  | .ofNat n => digitsOf n
  | .negSucc n => '-' :: digitsOf (n + 1)

/-- The natural number that a run of decimal digits writes. -/
def natOfDigits (digits : List Char) : Nat :=
  digits.foldl (fun n c => 10 * n + (c.toNat - '0'.toNat)) 0

/-- A number is read back from its decimal digits. -/
theorem natOfDigits_digitsOf (n : Nat) : natOfDigits (digitsOf n) = n :=
  Nat.ofDigitChars_ten_toDigits

/-- The characters of a number in decimal notation are digits. -/
theorem isDigit_of_mem_digitsOf {n : Nat} {c : Char} (h : c ∈ digitsOf n) : c.isDigit = true :=
  Nat.isDigit_of_mem_toDigits (by decide) (by decide) h

/-- A number in decimal notation has at least one digit. -/
theorem digitsOf_ne_nil (n : Nat) : digitsOf n ≠ [] := Nat.toDigits_ne_nil

/-- A smaller number has no more digits. -/
theorem length_digitsOf_le {m n : Nat} (h : m ≤ n) :
    (digitsOf m).length ≤ (digitsOf n).length := by
  have hn : n < 10 ^ (digitsOf n).length :=
    (Nat.length_toDigits_le_iff (by decide) Nat.length_toDigits_pos).mp (Nat.le_refl _)
  exact (Nat.length_toDigits_le_iff (by decide) Nat.length_toDigits_pos).mpr
    (Nat.lt_of_le_of_lt h hn)

namespace Decimal

/-- Positional notation, with at least one digit on each side of the point. -/
def positional (d : Decimal) : List Char :=
  let digits := digitsOf d.significand
  match d.exponent with
  | .ofNat e => digits ++ List.replicate e '0' ++ ['.', '0']
  | .negSucc e =>
    let places := e + 1
    if places < digits.length then
      digits.take (digits.length - places) ++ '.' :: digits.drop (digits.length - places)
    else ['0', '.'] ++ List.replicate (places - digits.length) '0' ++ digits

/-- Scientific notation, with the sign of the exponent always written. -/
def scientific (d : Decimal) : List Char :=
  let digits := digitsOf d.significand
  let exponent := d.exponent + (digits.length - 1 : Nat)
  let point := if digits.length = 1 then digits else digits.take 1 ++ '.' :: digits.drop 1
  point ++ 'e' :: (if exponent < 0 then '-' else '+') :: digitsOf exponent.natAbs

/-- Positional notation for scientific exponents from −5 to 15, scientific beyond. -/
def text (d : Decimal) : List Char :=
  let exponent := d.exponent + ((digitsOf d.significand).length - 1 : Nat)
  if -5 ≤ exponent && exponent ≤ 15 then d.positional else d.scientific

end Decimal

namespace Binary64

/-- The written form of a number; zero keeps its sign. -/
def text (x : Binary64) : List Char :=
  (if x.negative then ['-'] else []) ++ x.shortest.text

/-- Reads the exponent part of a number: `e`, an optional sign and digits; nothing reads as zero. -/
def readExponent? : List Char → Option Int
  | [] => some 0
  | e :: text =>
    if e != 'e' && e != 'E' then none
    else
      let (negative, digits) : Bool × List Char :=
        match text with
        | '-' :: digits => (true, digits)
        | '+' :: digits => (false, digits)
        | digits => (false, digits)
      if digits.isEmpty || !digits.all Char.isDigit then none
      else if negative then some (-(natOfDigits digits : Int))
      else some (natOfDigits digits)

/-- Reads a number: an optional minus sign, digits, optionally a point with digits, optionally an
exponent. Numbers too large for the format have no value. -/
def ofText? (text : List Char) : Option Binary64 :=
  let (negative, text) : Bool × List Char :=
    match text with
    | '-' :: text => (true, text)
    | text => (false, text)
  let whole := text.takeWhile Char.isDigit
  let (fraction, tail) : List Char × List Char :=
    match text.dropWhile Char.isDigit with
    | '.' :: text => (text.takeWhile Char.isDigit, text.dropWhile Char.isDigit)
    | text => ([], text)
  if whole.isEmpty then none
  else do
    let exponent ← readExponent? tail
    ofDecimal negative (natOfDigits (whole ++ fraction)) (exponent - fraction.length)

end Binary64

end TemplateReader
