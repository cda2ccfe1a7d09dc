/-!
# Digits

Numbers as lists of digits in a base, the most significant first.
-/

namespace AudioPatch

/-- The value of a digit, where letters stand for ten and more. -/
def digitValue (c : Char) : Nat :=
  if c.isDigit then c.toNat - 48
  else if 'a' ≤ c ∧ c ≤ 'z' then c.toNat - 87
  else c.toNat - 55

/-- Whether a character is a hexadecimal digit. -/
def isHexDigit (c : Char) : Bool :=
  c.isDigit || ('a' ≤ c && c ≤ 'f') || ('A' ≤ c && c ≤ 'F')

/-- The number that digits denote in a base. -/
def ofDigits (base : Nat) (digits : List Char) : Nat :=
  digits.foldl (fun n c => n * base + digitValue c) 0

/-- The number of hexadecimal digits, and of nothing else. -/
def hexNumber? (digits : List Char) : Option Nat :=
  if digits.all isHexDigit then some (ofDigits 16 digits) else none

/-- The number of decimal digits that a number has; zero has none. -/
def digitCount (n : Nat) : Nat :=
  if n = 0 then 0 else (Nat.toDigits 10 n).length

end AudioPatch
