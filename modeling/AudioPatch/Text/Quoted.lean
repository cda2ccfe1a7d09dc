import AudioPatch.Text.Unprintable

/-!
# Quoted text

A text between quotes, for people to read: what is not shown in a text is written out.
-/

namespace AudioPatch

/-- A character of a quoted text. -/
def quoteChar (c : Char) : List Char :=
  if c = '\x00' then ['\\', '0']
  else if c = '\t' then ['\\', 't']
  else if c = '\r' then ['\\', 'r']
  else if c = '\n' then ['\\', 'n']
  else if c = '"' then ['\\', '"']
  else if c = '\\' then ['\\', '\\']
  else if isUnprintable c then ['\\', 'u', '\x7b'] ++ Nat.toDigits 16 c.toNat ++ ['\x7d']
  else [c]

/-- A text between quotes. -/
def quote (text : String) : String :=
  "\"" ++ String.ofList (text.toList.flatMap quoteChar) ++ "\""

/-- A list between brackets. -/
def bracket (items : List String) : String :=
  "[" ++ ", ".intercalate items ++ "]"

end AudioPatch
