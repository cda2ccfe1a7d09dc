import AudioPatch.Document.Value

/-!
# TOML lexemes

The smallest parts of a TOML text: texts in their four forms, numerals, and dates. Each
reader takes the characters from a place on and answers with what it read and the rest.
-/

namespace AudioPatch.Toml

/-- A blank inside a line. -/
def isBlank (c : Char) : Bool := c = ' ' || c = '\t'

/-- A character that may stand in a comment or a text: any but the control characters. -/
def isPlain (c : Char) : Bool := c = '\t' || (0x20 ≤ c.toNat && c.toNat ≠ 0x7f)

/-- Drops blanks. -/
def skipBlanks (cs : List Char) : List Char := cs.dropWhile isBlank

/-- Whether a character may stand in a key without quotes. -/
def isBareKey (c : Char) : Bool := c.isAlphanum || c = '_' || c = '-'

/-! ### Texts -/

/-- The character with a number in hexadecimal digits. -/
def codePoint? (digits : List Char) : Option Char := do
  let n ← hexNumber? digits
  if n < 0xd800 ∨ (0xe000 ≤ n ∧ n < 0x110000) then some (.ofNat n) else none

/-- The character that a letter stands for after a backslash. -/
def escape? (c : Char) : Option Char :=
  if c = '"' || c = '\\' then some c
  else if c = 'b' then some '\x08'
  else if c = 'f' then some '\x0c'
  else if c = 'n' then some '\n'
  else if c = 'r' then some '\r'
  else if c = 't' then some '\t'
  else none

/-- The rest of a text in quotes on one line. The characters read so far stand in reverse. -/
def readBasic (acc : List Char) : List Char → Option (String × List Char)
  | '"' :: cs => some (String.ofList acc.reverse, cs)
  | '\\' :: 'u' :: a :: b :: c :: d :: cs =>
      match codePoint? [a, b, c, d] with
      | some e => readBasic (e :: acc) cs
      | none => none
  | '\\' :: 'U' :: a :: b :: c :: d :: a' :: b' :: c' :: d' :: cs =>
      match codePoint? [a, b, c, d, a', b', c', d'] with
      | some e => readBasic (e :: acc) cs
      | none => none
  | '\\' :: c :: cs =>
      match escape? c with
      | some e => readBasic (e :: acc) cs
      | none => none
  | c :: cs => if isPlain c then readBasic (c :: acc) cs else none
  | [] => none

/-- The rest of a text in apostrophes on one line. -/
def readLiteral (acc : List Char) : List Char → Option (String × List Char)
  | '\x27' :: cs => some (String.ofList acc.reverse, cs)
  | c :: cs => if isPlain c then readLiteral (c :: acc) cs else none
  | [] => none

/-- Where a text over several lines stands: in its characters, after a backslash that must
end its line, or in the blanks and line ends that such a backslash drops. -/
inductive Fold where
  | none
  | line
  | blanks
deriving DecidableEq

/-- The rest of a text in three quotes. Up to two quotes may stand before the closing ones. -/
def readBasicLines (fold : Fold) (acc : List Char) : List Char → Option (String × List Char)
  | [] => .none
  | '\r' :: '\n' :: cs =>
      match fold with
      | .none => readBasicLines .none ('\n' :: acc) cs
      | _ => readBasicLines .blanks acc cs
  | '\n' :: cs =>
      match fold with
      | .none => readBasicLines .none ('\n' :: acc) cs
      | _ => readBasicLines .blanks acc cs
  | ' ' :: cs =>
      match fold with
      | .none => readBasicLines .none (' ' :: acc) cs
      | f => readBasicLines f acc cs
  | '\t' :: cs =>
      match fold with
      | .none => readBasicLines .none ('\t' :: acc) cs
      | f => readBasicLines f acc cs
  | '"' :: '"' :: '"' :: '"' :: '"' :: cs =>
      if fold = .line then .none else some (String.ofList ('"' :: '"' :: acc).reverse, cs)
  | '"' :: '"' :: '"' :: '"' :: cs =>
      if fold = .line then .none else some (String.ofList ('"' :: acc).reverse, cs)
  | '"' :: '"' :: '"' :: cs =>
      if fold = .line then .none else some (String.ofList acc.reverse, cs)
  | '\\' :: 'u' :: a :: b :: c :: d :: cs =>
      if fold = .line then .none
      else match codePoint? [a, b, c, d] with
        | some e => readBasicLines .none (e :: acc) cs
        | .none => .none
  | '\\' :: 'U' :: a :: b :: c :: d :: a' :: b' :: c' :: d' :: cs =>
      if fold = .line then .none
      else match codePoint? [a, b, c, d, a', b', c', d'] with
        | some e => readBasicLines .none (e :: acc) cs
        | .none => .none
  | '\\' :: c :: cs =>
      if fold = .line then .none
      else match escape? c with
        | some e => readBasicLines .none (e :: acc) cs
        | .none =>
            if isBlank c || c = '\n' || c = '\r' then readBasicLines .line acc (c :: cs) else .none
  | c :: cs => if isPlain c && fold ≠ .line then readBasicLines .none (c :: acc) cs else .none

/-- The rest of a text in three apostrophes. -/
def readLiteralLines (acc : List Char) : List Char → Option (String × List Char)
  | [] => none
  | '\r' :: '\n' :: cs => readLiteralLines ('\n' :: acc) cs
  | '\n' :: cs => readLiteralLines ('\n' :: acc) cs
  | '\x27' :: '\x27' :: '\x27' :: '\x27' :: '\x27' :: cs =>
      some (String.ofList ('\x27' :: '\x27' :: acc).reverse, cs)
  | '\x27' :: '\x27' :: '\x27' :: '\x27' :: cs => some (String.ofList ('\x27' :: acc).reverse, cs)
  | '\x27' :: '\x27' :: '\x27' :: cs => some (String.ofList acc.reverse, cs)
  | c :: cs => if isPlain c then readLiteralLines (c :: acc) cs else none

/-- Drops the line end that may follow the opening of a text over several lines. -/
def skipLineEnd : List Char → List Char
  | '\n' :: cs => cs
  | '\r' :: '\n' :: cs => cs
  | cs => cs

/-- A text in any of its four forms. -/
def readText : List Char → Option (String × List Char)
  | '"' :: '"' :: '"' :: cs => readBasicLines .none [] (skipLineEnd cs)
  | '"' :: cs => readBasic [] cs
  | '\x27' :: '\x27' :: '\x27' :: cs => readLiteralLines [] (skipLineEnd cs)
  | '\x27' :: cs => readLiteral [] cs
  | _ => none

/-! ### Numerals -/

/-- A run of digits without the underscores between them. -/
def digits? (isDigit : Char → Bool) : List Char → Option (List Char)
  | [] => none
  | [c] => if isDigit c then some [c] else none
  | c :: '_' :: cs => if isDigit c then (digits? isDigit cs).map (c :: ·) else none
  | c :: cs => if isDigit c then (digits? isDigit cs).map (c :: ·) else none

/-- The digits of a decimal integer, which starts with zero only if it is zero. -/
def wholeDigits? (cs : List Char) : Option (List Char) := do
  let digits ← digits? Char.isDigit cs
  guard (digits.length = 1 ∨ digits.head? ≠ some '0')
  return digits

/-- An integer that 64 bits can hold. -/
def int? (i : Int) : Option Value :=
  if Int64.minValue.toInt ≤ i ∧ i ≤ Int64.maxValue.toInt then some (.int i) else none

/-- The digits of an exponent with their sign. -/
def exponent? : List Char → Option Int
  | '-' :: cs => (digits? Char.isDigit cs).map fun ds => -(ofDigits 10 ds : Int)
  | '+' :: cs => (digits? Char.isDigit cs).map fun ds => (ofDigits 10 ds : Int)
  | cs => (digits? Char.isDigit cs).map fun ds => (ofDigits 10 ds : Int)

/-- A floating point number. One too large for the format is refused, unless it is
negative. -/
def float? (negative : Bool) (whole fraction : List Char) (exponent : Int) : Option Value :=
  let digits := ofDigits 10 (whole ++ fraction)
  let x : Binary .double := .ofDecimal negative ⟨digits, exponent - fraction.length⟩
  if x = .infinite false then none else some (.float x)

/-- A decimal numeral without its sign. -/
def unsigned? (negative : Bool) (cs : List Char) : Option Value := do
  let isMark (c : Char) : Bool := c = 'e' || c = 'E'
  let (whole, rest) := cs.span fun c => c ≠ '.' && !isMark c
  let whole ← wholeDigits? whole
  match rest with
  | [] =>
      let n : Int := ofDigits 10 whole
      int? (if negative then -n else n)
  | '.' :: rest =>
      let (fraction, rest) := rest.span fun c => !isMark c
      let fraction ← digits? Char.isDigit fraction
      match rest with
      | [] => float? negative whole fraction 0
      | _ :: rest => float? negative whole fraction (← exponent? rest)
  | _ :: rest => float? negative whole [] (← exponent? rest)

/-- A number in a base other than ten. -/
def based? (base : Nat) (isDigit : Char → Bool) (cs : List Char) : Option Value := do
  int? (ofDigits base (← digits? isDigit cs))

/-- A number written with a sign or without. -/
def number? : List Char → Option Value
  | '0' :: 'x' :: cs => based? 16 isHexDigit cs
  | '0' :: 'o' :: cs => based? 8 (fun c => '0' ≤ c && c ≤ '7') cs
  | '0' :: 'b' :: cs => based? 2 (fun c => c = '0' || c = '1') cs
  | ['i', 'n', 'f'] => some (.float (.infinite false))
  | ['+', 'i', 'n', 'f'] => some (.float (.infinite false))
  | ['-', 'i', 'n', 'f'] => some (.float (.infinite true))
  | ['n', 'a', 'n'] => some (.float .nan)
  | ['+', 'n', 'a', 'n'] => some (.float .nan)
  | ['-', 'n', 'a', 'n'] => some (.float .nan)
  | '+' :: cs => unsigned? false cs
  | '-' :: cs => unsigned? true cs
  | cs => unsigned? false cs

/-! ### Dates -/

/-- The number of two digits. -/
def two? (a b : Char) : Option Nat :=
  if a.isDigit && b.isDigit then some (digitValue a * 10 + digitValue b) else none

/-- The number of days of a month. -/
def daysOf (year month : Nat) : Nat :=
  if month = 2 then
    if year % 4 = 0 ∧ (year % 100 ≠ 0 ∨ year % 400 = 0) then 29 else 28
  else if month = 4 ∨ month = 6 ∨ month = 9 ∨ month = 11 then 30
  else 31

/-- Whether a text is a distance to universal time. -/
def isOffset : List Char → Bool
  | [] => true
  | ['Z'] => true
  | ['z'] => true
  | [s, a, b, ':', c, d] =>
      (s = '+' || s = '-') && (two? a b).any (· ≤ 23) && (two? c d).any (· ≤ 59)
  | _ => false

/-- Whether a text is a time of day, with a distance to universal time if that is allowed. -/
def isTime (offset : Bool) : List Char → Bool
  | a :: b :: ':' :: c :: d :: ':' :: e :: f :: cs =>
      let isEnd (cs : List Char) : Bool := cs = [] || (offset && isOffset cs)
      (two? a b).any (· ≤ 23) && (two? c d).any (· ≤ 59) && (two? e f).any (· ≤ 60) &&
        match cs with
        | '.' :: cs => cs.head?.any Char.isDigit && isEnd (cs.dropWhile Char.isDigit)
        | cs => isEnd cs
  | _ => false

/-- Whether four digits, two and two are a day of the calendar. -/
def isDay (a b c d e f g h : Char) : Bool :=
  match two? a b, two? c d, two? e f, two? g h with
  | some century, some year, some month, some day =>
      1 ≤ month && month ≤ 12 && 1 ≤ day && day ≤ daysOf (century * 100 + year) month
  | _, _, _, _ => false

/-- Whether a text is a day, with or without a time after a `T`. -/
def isDate : List Char → Bool
  | a :: b :: c :: d :: '-' :: e :: f :: '-' :: g :: h :: cs =>
      isDay a b c d e f g h &&
        match cs with
        | [] => true
        | t :: cs => (t = 'T' || t = 't') && isTime true cs
  | _ => false

/-- Whether a character may stand in a numeral or a date. -/
def isWordChar (c : Char) : Bool :=
  c.isAlphanum || c = '_' || c = '+' || c = '-' || c = '.' || c = ':'

/-- A value that is one word: a truth value, a number or a date. The time of a date may
also follow after one blank. -/
def readWord (cs : List Char) : Option (Value × List Char) :=
  let (word, rest) := cs.span isWordChar
  if word = ['t', 'r', 'u', 'e'] then some (.bool true, rest)
  else if word = ['f', 'a', 'l', 's', 'e'] then some (.bool false, rest)
  else if isDate word then
    match rest with
    | ' ' :: c :: cs =>
        if word.length = 10 ∧ c.isDigit then
          let (time, rest) := (c :: cs).span isWordChar
          if isTime true time then some (.date, rest) else none
        else some (.date, rest)
    | _ => some (.date, rest)
  else if isTime false word then some (.date, rest)
  else (number? word).map (·, rest)

end AudioPatch.Toml
