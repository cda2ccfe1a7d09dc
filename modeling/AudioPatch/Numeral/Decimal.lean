import AudioPatch.Numeral.Binary
import AudioPatch.Numeral.Digits

/-!
# Decimal numerals

Reading a decimal rounds it to the nearest number of a format. Writing a number takes the
fewest digits that read back, and of these the nearest ones; where two are equally near, the
format of the text decides.
-/

namespace AudioPatch

/-- The number `digits * 10 ^ exponent`. -/
structure Decimal where
  digits : Nat
  exponent : Int
deriving DecidableEq, Repr

/-- The number of the format nearest to a decimal. Exponents that no number of the format
comes near are cut off first. -/
def Binary.ofDecimal {f : Format} (negative : Bool) (d : Decimal) : Binary f :=
  let magnitude := d.exponent + digitCount d.digits
  let limit : Int := Nat.pow 2 f.exponentBits
  if d.digits = 0 ∨ magnitude < -limit then ofPattern negative 0
  else if limit < magnitude then infinite negative
  else ofQuotient negative (d.digits * Nat.pow 10 d.exponent.toNat) (Nat.pow 10 (-d.exponent).toNat)

/-! ### The fewest digits that read back -/

/-- The numbers that round to a given one: all between two bounds, over a common
denominator, the bounds themselves only if they round to it. -/
structure RoundingInterval where
  low : Nat
  value : Nat
  high : Nat
  denominator : Nat
  closed : Bool

/-- The decimals that round to a number of the format. Half the distance to the
neighbours is on either side; below a power of two the neighbour is nearer. -/
def Binary.interval {f : Format} (x : Binary f) (units : Nat) : RoundingInterval :=
  let step := Nat.pow 2 (x.exponent - 1)
  { low := 4 * units - if x.fraction = 0 ∧ 1 < x.exponent then step else 2 * step
    value := 4 * units
    high := 4 * units + 2 * step
    denominator := Nat.pow 2 (f.scale + 2)
    closed := x.fraction % 2 = 0 }

/-- Which of two decimals is taken that are equally near. -/
inductive Tie where
  | larger
  /-- The one whose last digit is even. -/
  | even
deriving DecidableEq, Repr

namespace RoundingInterval

/-- The exponent of the decimal grid on which the value has a number of digits. -/
def gridExponent (i : RoundingInterval) (digits : Nat) : Int :=
  let whole := i.value / i.denominator
  let places : Int :=
    if whole ≠ 0 then digitCount whole
    else 1 - digitCount ((i.denominator + i.value - 1) / i.value - 1)
  places - digits

/-- Whether a decimal lies in the interval. -/
def contains (i : RoundingInterval) (d : Decimal) : Bool :=
  let up := d.digits * Nat.pow 10 d.exponent.toNat * i.denominator
  let down := Nat.pow 10 (-d.exponent).toNat
  if i.closed then i.low * down ≤ up ∧ up ≤ i.high * down
  else i.low * down < up ∧ up < i.high * down

/-- The point of a decimal grid that lies in the interval, of two the nearer one. -/
def onGrid? (i : RoundingInterval) (tie : Tie) (exponent : Int) : Option Decimal :=
  let step := i.denominator * Nat.pow 10 exponent.toNat
  let value := i.value * Nat.pow 10 (-exponent).toNat
  let below : Decimal := ⟨value / step, exponent⟩
  let above : Decimal := ⟨value / step + 1, exponent⟩
  let twice := 2 * (value % step)
  let isBelow := twice < step || (twice = step && tie = .even && below.digits % 2 = 0)
  match i.contains below, i.contains above with
  | true, true => some (if isBelow then below else above)
  | true, false => some below
  | false, true => some above
  | false, false => none

/-- The decimal in the interval with the fewest digits, from a number of digits on and for
a number of tries. -/
def shortestFrom (i : RoundingInterval) (tie : Tie) (digits : Nat) : Nat → Decimal
  | 0 => (i.onGrid? tie (i.gridExponent digits)).getD ⟨0, 0⟩
  | tries + 1 =>
      match i.onGrid? tie (i.gridExponent digits) with
      | some d => d
      | none => i.shortestFrom tie (digits + 1) tries

/-- The decimal in the interval with the fewest digits. -/
def shortest (i : RoundingInterval) (tie : Tie) : Decimal :=
  i.shortestFrom tie 1 16

end RoundingInterval

/-- A text without the zeros at its end. -/
def dropTrailingZeros (cs : List Char) : List Char :=
  (cs.reverse.dropWhile (· = '0')).reverse

/-- The same number without zeros at the end of its digits. -/
def Decimal.trim (d : Decimal) : Decimal :=
  let digits := Nat.toDigits 10 d.digits
  let kept := dropTrailingZeros digits
  ⟨ofDigits 10 kept, d.exponent + (digits.length - kept.length : Nat)⟩

/-- A decimal without exponent, with at least one digit on either side of the point. -/
def Decimal.print (d : Decimal) : String :=
  let digits := Nat.toDigits 10 d.digits ++ List.replicate d.exponent.toNat '0'
  let places := (-d.exponent).toNat
  let digits := List.replicate (places + 1 - digits.length) '0' ++ digits
  let whole := digits.take (digits.length - places)
  let fraction := dropTrailingZeros (digits.drop (digits.length - places))
  String.ofList (whole ++ '.' :: if fraction = [] then ['0'] else fraction)

end AudioPatch
