import AudioPatch.Document.Toml.Lexeme
import AudioPatch.Document.Toml.Tree

/-!
# Reading TOML

A document is read line by line into sections, and the sections are then added to the
document one after the other. Lists and inline tables may nest less than eighty deep, and
a dotted key may have less than eighty parts.
-/

namespace AudioPatch.Toml

/-- More items may follow the fields of a record, and something empty is the content of an
alternative that has none. -/
def layout : Layout where
  spareItems := true
  isBlank
    | .list [] => true
    | .table [] => true
    | _ => false

/-- What bounds the depth of values and the length of keys. -/
def depthLimit : Nat := 80

/-- Drops blanks, line ends and comments. A character that a comment cannot hold stops it. -/
def skipTrivia (inComment : Bool) : List Char → List Char
  | [] => []
  | '\r' :: '\n' :: cs => skipTrivia false cs
  | c :: cs =>
      if c = '\n' then skipTrivia false cs
      else if inComment then if isPlain c then skipTrivia true cs else c :: cs
      else if isBlank c then skipTrivia false cs
      else if c = '#' then skipTrivia true cs
      else c :: cs

/-- The end of a line: blanks, a comment, and the end of the line or of the text. -/
def readLineEnd (cs : List Char) : Option (List Char) :=
  let cs := skipBlanks cs
  let cs := if cs.head? = some '#' then cs.dropWhile isPlain else cs
  match cs with
  | [] => some []
  | '\n' :: cs => some cs
  | '\r' :: '\n' :: cs => some cs
  | _ => none

/-! ### Keys -/

/-- One part of a key: in quotes, in apostrophes or bare. -/
def readKeyPart : List Char → Option (String × List Char)
  | '"' :: cs => readBasic [] cs
  | '\x27' :: cs => readLiteral [] cs
  | cs =>
      let (name, cs) := cs.span isBareKey
      if name = [] then none else some (String.ofList name, cs)

/-- The parts of a dotted key, at most as many as the bound. Those read so far stand in
reverse: the last part of all comes first in the answer. -/
def readKeyFrom (path : List String) : Nat → List Char → Option (List String × String × List Char)
  | 0, _ => none
  | n + 1, cs =>
      match readKeyPart (skipBlanks cs) with
      | none => none
      | some (part, cs) =>
          match skipBlanks cs with
          | '.' :: cs => readKeyFrom (part :: path) n cs
          | cs => some (path.reverse, part, cs)

/-- A key: the path to it, its last part, and the rest after blanks. -/
def readKey (cs : List Char) : Option (List String × String × List Char) :=
  readKeyFrom [] (depthLimit - 1) cs

/-! ### Values -/

mutual

/-- A value. The first number bounds the steps, the second how deep values may nest. -/
def readValue : Nat → Nat → List Char → Option (Value × List Char)
  | 0, _, _ => none
  | n + 1, depth, cs =>
      match cs with
      | '"' :: _ => (readText cs).map fun (s, cs) => (.string s, cs)
      | '\x27' :: _ => (readText cs).map fun (s, cs) => (.string s, cs)
      | '[' :: cs => if depth = 0 then none else readItems n (depth - 1) [] cs
      | '\x7b' :: cs =>
          if depth = 0 then none
          else match skipBlanks cs with
            | '\x7d' :: cs => some (.table [], cs)
            | cs => readPairs n (depth - 1) [] cs
      | cs => readWord cs

/-- The items of a list up to its bracket; those read so far stand in reverse. -/
def readItems : Nat → Nat → List Value → List Char → Option (Value × List Char)
  | 0, _, _, _ => none
  | n + 1, depth, acc, cs =>
      match skipTrivia false cs with
      | ']' :: cs => some (.list acc.reverse, cs)
      | cs =>
          match readValue n depth cs with
          | none => none
          | some (v, cs) =>
              match skipTrivia false cs with
              | ',' :: cs => readItems n depth (v :: acc) cs
              | ']' :: cs => some (.list (v :: acc).reverse, cs)
              | _ => none

/-- The assignments of an inline table up to its brace; those read so far stand in
reverse. -/
def readPairs : Nat → Nat → List Assignment → List Char → Option (Value × List Char)
  | 0, _, _, _ => none
  | n + 1, depth, acc, cs =>
      match readKey cs with
      | some (path, key, '=' :: cs) =>
          match readValue n depth (skipBlanks cs) with
          | none => none
          | some (v, cs) =>
              let acc := ⟨path, key, v⟩ :: acc
              match skipBlanks cs with
              | ',' :: cs => readPairs n depth acc cs
              | '\x7d' :: cs =>
                  (assignAll [] acc.reverse).map fun entries => (.table (finishEntries entries), cs)
              | _ => none
      | _ => none

end

/-! ### Documents -/

/-- A line of a document. -/
inductive Line where
  | empty
  | header (isList : Bool) (path : List String) (key : String)
  | assignment (a : Assignment)

/-- One line, and the rest after it. The number bounds the steps of reading a value. -/
def readLine (n : Nat) (cs : List Char) : Option (Line × List Char) :=
  match skipBlanks cs with
  | '[' :: '[' :: cs =>
      match readKey cs with
      | some (path, key, ']' :: ']' :: cs) => (readLineEnd cs).map (.header true path key, ·)
      | _ => none
  | '[' :: cs =>
      match readKey cs with
      | some (path, key, ']' :: cs) => (readLineEnd cs).map (.header false path key, ·)
      | _ => none
  | cs =>
      match readLineEnd cs with
      | some cs => some (.empty, cs)
      | none =>
          match readKey cs with
          | some (path, key, '=' :: cs) =>
              match readValue n (depthLimit - 1) (skipBlanks cs) with
              | some (v, cs) => (readLineEnd cs).map (.assignment ⟨path, key, v⟩, ·)
              | none => none
          | _ => none

/-- All the lines of a text. The first number bounds the number of lines. -/
def readLines (n : Nat) (acc : List Line) : Nat → List Char → Option (List Line)
  | _, [] => some acc.reverse
  | 0, _ => none
  | lines + 1, cs =>
      match readLine n cs with
      | some (line, cs) => readLines n (line :: acc) lines cs
      | none => none

/-- The document with the lines added, and the section that the next ones belong to. -/
def addLine (state : Entries × Section) : Line → Option (Entries × Section)
  | .empty => some state
  | .header isList path key => do
      return (← addSection state.1 state.2, ⟨some (isList, path, key), []⟩)
  | .assignment a => some (state.1, { state.2 with assignments := state.2.assignments ++ [a] })

/-- The table that a TOML text holds, which may start with a byte order mark. -/
def read? (text : String) : Option (List (String × Value)) := do
  let cs := match text.toList with
    | '\ufeff' :: cs => cs
    | cs => cs
  let n := cs.length + 1
  let lines ← readLines n [] n cs
  let (root, last) ← lines.foldlM addLine ([], ⟨none, []⟩)
  return finishEntries (← addSection root last)

end AudioPatch.Toml
