import AudioPatch.Document.Value

/-!
# Writing JSON

A value as JSON text without blanks. Numbers have the fewest digits that read back if
reading rounds once.
-/

namespace AudioPatch.Json

/-- A character of a text. -/
def printChar (c : Char) : List Char :=
  if c = '"' then ['\\', '"']
  else if c = '\\' then ['\\', '\\']
  else if c = '\x08' then ['\\', 'b']
  else if c = '\t' then ['\\', 't']
  else if c = '\n' then ['\\', 'n']
  else if c = '\x0c' then ['\\', 'f']
  else if c = '\r' then ['\\', 'r']
  else if c.toNat < 0x20 then
    let digits := Nat.toDigits 16 c.toNat
    ['\\', 'u'] ++ List.replicate (4 - digits.length) '0' ++ digits
  else [c]

/-- A text in quotes. -/
def printText (text : String) : String :=
  "\"" ++ String.ofList (text.toList.flatMap printChar) ++ "\""

/-- A decimal without zeros at its end. From seventeen digits before the point, or five zeros
after it, it is written with an exponent. -/
def printDecimal (d : Decimal) : String :=
  let point := d.exponent + digitCount d.digits
  if -5 < point ∧ point ≤ 16 then d.print
  else
    let mantissa :=
      match Nat.toDigits 10 d.digits with
      | first :: second :: rest => first :: '.' :: second :: rest
      | digits => digits
    String.ofList mantissa ++ "e" ++ toString (point - 1)

/-- A number in the fewest digits that read back, the even ones of two that are equally
near. There are no numerals for numbers that are not finite. -/
def printFloat (x : Binary .double) : String :=
  match x.read with
  | .finite negative units =>
      let digits :=
        if units = 0 then "0.0" else printDecimal ((x.interval units).shortest .even).trim
      if negative then "-" ++ digits else digits
  | _ => "null"

mutual

/-- The text of a value. -/
def print : Value → String
  | .null => "null"
  | .bool b => if b then "true" else "false"
  | .int i => toString i
  | .float x => printFloat x
  | .string s => printText s
  | .date => "null"
  | .list items => "[" ++ ",".intercalate (printItems items) ++ "]"
  | .table fields => "\x7b" ++ ",".intercalate (printFields fields) ++ "\x7d"

/-- The texts of the items of a list. -/
def printItems : List Value → List String
  | [] => []
  | v :: rest => print v :: printItems rest

/-- The texts of the fields of a table. -/
def printFields : List (String × Value) → List String
  | [] => []
  | (k, v) :: rest => (printText k ++ ":" ++ print v) :: printFields rest

end

end AudioPatch.Json
