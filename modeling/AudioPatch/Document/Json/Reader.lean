import AudioPatch.Document.Value

/-!
# Reading JSON

A value from JSON text. A numeral with neither point nor exponent is a whole number if 64
bits can hold it. Any other numeral is a floating point number, which is rounded in steps:
the digits, as many as 64 bits can hold, then the power of ten, then their product. So a
numeral of many digits need not be read as the number nearest to it.
-/

namespace AudioPatch.Json

/-- Nothing may follow the fields of a record, and nothing is the content of an alternative
that has none. -/
def layout : Layout where
  spareItems := false
  isBlank
    | .null => true
    | _ => false

/-- Drops blanks and line ends. -/
def skipBlanks (cs : List Char) : List Char :=
  cs.dropWhile fun c => c = ' ' || c = '\t' || c = '\n' || c = '\r'

/-- The character that stands for itself after a backslash, or for a control character. -/
def simpleEscape? (c : Char) : Option Char :=
  if c = '"' || c = '\\' || c = '/' then some c
  else if c = 'b' then some '\x08'
  else if c = 'f' then some '\x0c'
  else if c = 'n' then some '\n'
  else if c = 'r' then some '\r'
  else if c = 't' then some '\t'
  else none

/-- The rest of a text after its opening quote; the characters read so far stand in
reverse. Two halves of a surrogate pair are one character. -/
def readText (acc : List Char) : List Char → Option (String × List Char)
  | '"' :: cs => some (String.ofList acc.reverse, cs)
  | '\\' :: 'u' :: a :: b :: c :: d :: '\\' :: 'u' :: a' :: b' :: c' :: d' :: cs =>
      match hexNumber? [a, b, c, d] with
      | none => none
      | some high =>
          if 0xd800 ≤ high ∧ high < 0xdc00 then
            match hexNumber? [a', b', c', d'] with
            | some low =>
                if 0xdc00 ≤ low ∧ low < 0xe000 then
                  readText (.ofNat (0x10000 + (high - 0xd800) * 1024 + (low - 0xdc00)) :: acc) cs
                else none
            | none => none
          else if 0xdc00 ≤ high ∧ high < 0xe000 then none
          else readText (.ofNat high :: acc) ('\\' :: 'u' :: a' :: b' :: c' :: d' :: cs)
  | '\\' :: 'u' :: a :: b :: c :: d :: cs =>
      match hexNumber? [a, b, c, d] with
      | some n => if 0xd800 ≤ n ∧ n < 0xe000 then none else readText (.ofNat n :: acc) cs
      | none => none
  | '\\' :: c :: cs =>
      match simpleEscape? c with
      | some e => readText (e :: acc) cs
      | none => none
  | c :: cs => if c.toNat < 0x20 then none else readText (c :: acc) cs
  | [] => none

/-! ### Numerals -/

/-- A number with digits put after it as long as 64 bits can hold it, and the digits that
are left. -/
def appendDigits (n : Nat) : List Char → Nat × List Char
  | [] => (n, [])
  | c :: cs =>
      let longer := n * 10 + digitValue c
      if longer < UInt64.size then appendDigits longer cs else (n, c :: cs)

/-- The number nearest to a power of ten. -/
def powerOfTen (exponent : Nat) : Binary .double := .ofDecimal false ⟨1, exponent⟩

/-- A finite number times a power of ten, of which those within the format are known. A
number that becomes too large is refused, and one that becomes small is divided more than
once. -/
def scale? (x : Binary .double) (exponent : Int) : Option (Binary .double) :=
  if x.units = 0 then some x
  else if 308 < exponent then none
  else if 0 ≤ exponent then
    let product := x.mul (powerOfTen exponent.toNat)
    if product.isFinite then some product else none
  else if -308 ≤ exponent then some (x.div (powerOfTen (-exponent).toNat))
  else scale? (x.div (powerOfTen 308)) (exponent + 308)
termination_by (-exponent).toNat
decreasing_by omega

/-- The floating point number of a numeral. Whole digits that do not fit count for the
exponent, and digits of the fraction that do not fit are dropped. -/
def float? (negative : Bool) (whole fraction : List Char) (exponent : Int) :
    Option (Binary .double) :=
  let (n, spareWhole) := appendDigits 0 whole
  let (n, spareFraction) := appendDigits n fraction
  let used : Int := fraction.length - spareFraction.length
  scale? (.ofQuotient negative n 1) (exponent + spareWhole.length - used)

/-- The digits at the start of a text, at least one, and the rest. -/
def readDigits (cs : List Char) : Option (List Char × List Char) :=
  let (digits, rest) := cs.span Char.isDigit
  if digits = [] then none else some (digits, rest)

/-- The fraction of a numeral, if there is one. -/
def readFraction : List Char → Option (List Char × List Char)
  | '.' :: cs => readDigits cs
  | cs => some ([], cs)

/-- The exponent of a numeral, if there is one. -/
def readExponent : List Char → Option (Option Int × List Char)
  | c :: cs =>
      if c = 'e' ∨ c = 'E' then
        match cs with
        | '-' :: cs => (readDigits cs).map fun (ds, cs) => (some (-(ofDigits 10 ds : Int)), cs)
        | '+' :: cs => (readDigits cs).map fun (ds, cs) => (some (ofDigits 10 ds : Int), cs)
        | cs => (readDigits cs).map fun (ds, cs) => (some (ofDigits 10 ds : Int), cs)
      else some (none, c :: cs)
  | [] => some (none, [])

/-- A numeral without its sign. -/
def readUnsigned (negative : Bool) (cs : List Char) : Option (Value × List Char) := do
  let (whole, cs) ← readDigits cs
  guard (whole.length = 1 ∨ whole.head? ≠ some '0')
  let (fraction, cs) ← readFraction cs
  let (exponent, cs) ← readExponent cs
  let digits := ofDigits 10 whole
  let signed : Int := if negative then -digits else digits
  let isWhole := fraction = [] && exponent.isNone && !(negative && digits = 0) &&
    decide (Int64.minValue.toInt ≤ signed ∧ signed < UInt64.size)
  if isWhole then return (.int signed, cs)
  else return (.float (← float? negative whole fraction (exponent.getD 0)), cs)

/-- A numeral. -/
def readNumber : List Char → Option (Value × List Char)
  | '-' :: cs => readUnsigned true cs
  | cs => readUnsigned false cs

/-! ### Values -/

mutual

/-- A value at the start of a text, and the rest. The number bounds the steps. -/
def readValue : Nat → List Char → Option (Value × List Char)
  | 0, _ => none
  | n + 1, cs =>
      match skipBlanks cs with
      | '\x7b' :: cs =>
          match skipBlanks cs with
          | '\x7d' :: cs => some (.table [], cs)
          | cs => readFields n [] cs
      | '[' :: cs =>
          match skipBlanks cs with
          | ']' :: cs => some (.list [], cs)
          | cs => readItems n [] cs
      | '"' :: cs => (readText [] cs).map fun (s, cs) => (.string s, cs)
      | 't' :: 'r' :: 'u' :: 'e' :: cs => some (.bool true, cs)
      | 'f' :: 'a' :: 'l' :: 's' :: 'e' :: cs => some (.bool false, cs)
      | 'n' :: 'u' :: 'l' :: 'l' :: cs => some (.null, cs)
      | cs => readNumber cs

/-- The items of a list up to its bracket; those read so far stand in reverse. -/
def readItems : Nat → List Value → List Char → Option (Value × List Char)
  | 0, _, _ => none
  | n + 1, acc, cs =>
      match readValue n cs with
      | none => none
      | some (v, cs) =>
          match skipBlanks cs with
          | ',' :: cs => readItems n (v :: acc) cs
          | ']' :: cs => some (.list (v :: acc).reverse, cs)
          | _ => none

/-- The fields of a table up to its brace. -/
def readFields : Nat → List (String × Value) → List Char → Option (Value × List Char)
  | 0, _, _ => none
  | n + 1, acc, cs =>
      match skipBlanks cs with
      | '"' :: cs =>
          match readText [] cs with
          | none => none
          | some (name, cs) =>
              match skipBlanks cs with
              | ':' :: cs =>
                  match readValue n cs with
                  | none => none
                  | some (v, cs) =>
                      match skipBlanks cs with
                      | ',' :: cs => readFields n (Value.setField acc name v) cs
                      | '\x7d' :: cs => some (.table (Value.setField acc name v), cs)
                      | _ => none
              | _ => none
      | _ => none

end

/-- The value that a JSON text holds. -/
def read? (text : String) : Option Value :=
  let cs := text.toList
  match readValue (cs.length + 1) cs with
  | some (v, rest) => if skipBlanks rest = [] then some v else none
  | none => none

end AudioPatch.Json
