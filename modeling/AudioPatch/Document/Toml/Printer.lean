import AudioPatch.Document.Value

/-!
# Writing TOML

A document is written with the plain fields of a table before its inner tables. Every
inner table has a header after a blank line, unless it holds nothing but further tables.
A field without value is left out.
-/

namespace AudioPatch.Toml

/-- Whether a character is a control character other than a tab. -/
def isControl (c : Char) : Bool := (c.toNat < 0x20 && c ≠ '\t') || c.toNat = 0x7f

/-- A character of a text in quotes. -/
def printChar (c : Char) : List Char :=
  if c = '\x08' then ['\\', 'b']
  else if c = '\t' then ['\\', 't']
  else if c = '\n' then ['\\', 'n']
  else if c = '\x0c' then ['\\', 'f']
  else if c = '\r' then ['\\', 'r']
  else if c = '"' then ['\\', '"']
  else if c = '\\' then ['\\', '\\']
  else if isControl c then
    let digits := (Nat.toDigits 16 c.toNat).map Char.toUpper
    ['\\', 'u'] ++ List.replicate (4 - digits.length) '0' ++ digits
  else [c]

/-- A text: in quotes if it needs no escape, else in apostrophes if it can be, else in
quotes with escapes. -/
def printText (text : String) : String :=
  let cs := text.toList
  if cs.all fun c => !isControl c && c ≠ '\\' && c ≠ '"' then "\"" ++ text ++ "\""
  else if cs.all fun c => !isControl c && c ≠ '\x27' then "'" ++ text ++ "'"
  else "\"" ++ String.ofList (cs.flatMap printChar) ++ "\""

/-- A key: bare if it can be, else as a text. -/
def printKey (key : String) : String :=
  let isBare (c : Char) : Bool := c.isAlphanum || c = '_' || c = '-'
  if key ≠ "" && key.toList.all isBare then key else printText key

/-- A number in the fewest digits that read back, the larger ones of two that are equally
near, with a point and without exponent. -/
def printFloat (x : Binary .double) : String :=
  match x.read with
  | .nan => "nan"
  | .infinite negative => if negative then "-inf" else "inf"
  | .finite negative units =>
      let digits := if units = 0 then "0.0" else ((x.interval units).shortest .larger).print
      if negative then "-" ++ digits else digits

/-- A list: on one line up to one item, else an item on each line. -/
def printList : List String → String
  | [] => "[]"
  | [item] => "[" ++ item ++ "]"
  | items => "[\n" ++ String.join (items.map fun item => "    " ++ item ++ ",\n") ++ "]"

mutual

/-- A value inside a line. -/
def printValue : Value → Option String
  | .null => none
  | .bool b => some (if b then "true" else "false")
  | .int i => some (toString i)
  | .float x => some (printFloat x)
  | .string s => some (printText s)
  | .date => none
  | .list items => some (printList (printItems items))
  | .table fields => some ("\x7b " ++ ", ".intercalate (printPairs fields) ++ " \x7d")

/-- The items of a list. -/
def printItems : List Value → List String
  | [] => []
  | v :: rest =>
      match printValue v with
      | some s => s :: printItems rest
      | none => printItems rest

/-- The fields of a table inside a line. -/
def printPairs : List (String × Value) → List String
  | [] => []
  | (k, v) :: rest =>
      match printValue v with
      | some s => (printKey k ++ " = " ++ s) :: printPairs rest
      | none => printPairs rest

end

/-- Whether a value gets a header. -/
def isTable : Value → Bool
  | .table _ => true
  | _ => false

/-- The fields of a table that are no tables, each on a line. -/
def printPlain (fields : List (String × Value)) : String :=
  String.join ((printPairs (fields.filter fun f => !isTable f.2)).map (· ++ "\n"))

/-- The inner tables of a table with a path, each with its header. -/
def printTables (path : List String) : List (String × Value) → String
  | [] => ""
  | (k, .table fields) :: rest =>
      let inner := path ++ [printKey k]
      let header :=
        if fields.isEmpty || fields.any (fun f => !isTable f.2) then
          "\n[" ++ ".".intercalate inner ++ "]\n" ++ printPlain fields
        else ""
      header ++ printTables inner fields ++ printTables path rest
  | _ :: rest => printTables path rest

/-- The text of a document. -/
def print (fields : List (String × Value)) : String :=
  printPlain fields ++ printTables [] fields

end AudioPatch.Toml
