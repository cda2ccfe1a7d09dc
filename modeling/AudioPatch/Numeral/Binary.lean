/-!
# Binary floating point

Numbers in a binary interchange format, by their bit patterns. Every finite number of a
format is a multiple of its least positive one, so the value of a number is a sign and a
natural number of these units, and all rounding is exact arithmetic on natural numbers.
-/

namespace AudioPatch

/-- A binary format: the width of the fraction and the width of the exponent. -/
structure Format where
  fractionBits : Nat
  exponentBits : Nat
deriving DecidableEq, Repr

namespace Format

/-- The format of 32 bits. -/
def single : Format := ⟨23, 8⟩

/-- The format of 64 bits. -/
def double : Format := ⟨52, 11⟩

/-- The number of bits, with that of the sign. -/
def width (f : Format) : Nat := 1 + f.exponentBits + f.fractionBits

/-- The least positive number of the format is two to the power of minus this. -/
def scale (f : Format) : Nat := Nat.pow 2 (f.exponentBits - 1) - 2 + f.fractionBits

/-- The pattern of infinity without its sign. -/
def infinity (f : Format) : Nat := (Nat.pow 2 f.exponentBits - 1) * Nat.pow 2 f.fractionBits

end Format

/-- A number in a binary format. -/
structure Binary (f : Format) where
  bits : BitVec f.width
deriving DecidableEq

/-- What a bit pattern stands for: finite numbers are counted in units of the format. -/
inductive Reading where
  | finite (negative : Bool) (units : Nat)
  | infinite (negative : Bool)
  | nan
deriving DecidableEq, Repr

/-- The whole number nearest to a quotient; of two the even one. -/
def roundQuotient (n d : Nat) : Nat :=
  let q := n / d
  let twice := 2 * (n % d)
  if twice < d then q else if d < twice then q + 1 else q + q % 2

namespace Binary

variable {f : Format}

/-- Whether the sign bit is set. -/
def negative (x : Binary f) : Bool :=
  x.bits.toNat / Nat.pow 2 (f.exponentBits + f.fractionBits) % 2 = 1

/-- The field of the exponent. -/
def exponent (x : Binary f) : Nat :=
  x.bits.toNat / Nat.pow 2 f.fractionBits % Nat.pow 2 f.exponentBits

/-- The field of the fraction. -/
def fraction (x : Binary f) : Nat := x.bits.toNat % Nat.pow 2 f.fractionBits

/-- The number with a sign and the rest of the pattern. -/
def ofPattern (negative : Bool) (pattern : Nat) : Binary f :=
  ⟨BitVec.ofNat _ ((if negative then Nat.pow 2 (f.exponentBits + f.fractionBits) else 0) + pattern)⟩

/-- What the bit pattern stands for. -/
def read (x : Binary f) : Reading :=
  if x.exponent = Nat.pow 2 f.exponentBits - 1 then
    if x.fraction = 0 then .infinite x.negative else .nan
  else if x.exponent = 0 then .finite x.negative x.fraction
  else .finite x.negative ((Nat.pow 2 f.fractionBits + x.fraction) * Nat.pow 2 (x.exponent - 1))

/-- Whether the pattern stands for no number. -/
def isNaN (x : Binary f) : Bool := x.read = .nan

/-- Whether the number is finite. -/
def isFinite (x : Binary f) : Bool := x.exponent ≠ Nat.pow 2 f.exponentBits - 1

/-- A pattern that stands for no number. -/
def nan : Binary f := ofPattern false (f.infinity + Nat.pow 2 (f.fractionBits - 1))

/-- Infinity with a sign. -/
def infinite (negative : Bool) : Binary f := ofPattern negative f.infinity

/-- The number of the format nearest to `± n / d`, with the even pattern in a tie. What is
too large becomes infinite. -/
def ofQuotient (negative : Bool) (n d : Nat) : Binary f :=
  let n := n * Nat.pow 2 f.scale
  let shift := (n / d).log2 - f.fractionBits
  let pattern := shift * Nat.pow 2 f.fractionBits + roundQuotient n (d * Nat.pow 2 shift)
  ofPattern negative (min pattern f.infinity)

/-- The number nearest to an integer. -/
def ofInt (i : Int) : Binary f := ofQuotient (i < 0) i.natAbs 1

/-- The number of another format nearest to a number. -/
def convert {g : Format} (x : Binary f) : Binary g :=
  match x.read with
  | .finite negative units => ofQuotient negative units (Nat.pow 2 f.scale)
  | .infinite negative => infinite negative
  | .nan => nan

/-- How many units of the format a finite number is, without its sign. -/
def units (x : Binary f) : Nat :=
  match x.read with
  | .finite _ units => units
  | _ => 0

/-- The number nearest to the product of two finite numbers. -/
def mul (x y : Binary f) : Binary f :=
  ofQuotient (x.negative != y.negative) (x.units * y.units) (Nat.pow 2 (2 * f.scale))

/-- The number nearest to the quotient of two finite numbers, the second of which is not
zero. -/
def div (x y : Binary f) : Binary f :=
  ofQuotient (x.negative != y.negative) x.units y.units

/-- Equality of values: the two zeros are equal, and what is no number equals nothing. -/
def sameValue (x y : Binary f) : Bool :=
  match x.read, y.read with
  | .finite s m, .finite t n => m = n && (s = t || m = 0)
  | .infinite s, .infinite t => s = t
  | _, _ => false

/-- The bit pattern in hexadecimal digits. -/
def hex (x : Binary f) : String :=
  let digits := Nat.toDigits 16 x.bits.toNat
  String.ofList (List.replicate ((f.width + 3) / 4 - digits.length) '0' ++ digits)

end Binary

end AudioPatch
