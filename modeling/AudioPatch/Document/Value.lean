import AudioPatch.Numeral.Decimal

/-!
# Document values

What a document holds once it has been read, whatever its text format: plain values, lists,
and tables whose fields stay in the order in which they were written.
-/

namespace AudioPatch

/-- A value of a document. -/
inductive Value where
  | null
  | bool (b : Bool)
  | int (i : Int)
  | float (x : Binary .double)
  | string (s : String)
  /-- A date or a time of day. -/
  | date
  | list (items : List Value)
  | table (fields : List (String × Value))

/-- What a document format allows where a record or an alternative is expected. -/
structure Layout where
  /-- Whether a list may go on after the last field of the record that it stands for. -/
  spareItems : Bool
  /-- Whether a value can be the content of an alternative that has none. -/
  isBlank : Value → Bool

namespace Value

/-- Fields with one more; an earlier field of the same name gives way in its place. -/
def setField (fields : List (String × Value)) (name : String) (v : Value) :
    List (String × Value) :=
  if fields.any (·.1 = name) then fields.map fun f => if f.1 = name then (name, v) else f
  else fields ++ [(name, v)]

/-- The field of a table with a name. -/
def field? : Value → String → Option Value
  | .table fields, name => (fields.find? (·.1 = name)).map (·.2)
  | _, _ => none

/-- A truth value. -/
def bool? : Value → Option Bool
  | .bool b => some b
  | _ => none

/-- A text. -/
def string? : Value → Option String
  | .string s => some s
  | _ => none

/-- A whole number that fits in 32 bits. -/
def uint32? : Value → Option UInt32
  | .int i => if 0 ≤ i ∧ i < UInt32.size then some (UInt32.ofNat i.toNat) else none
  | _ => none

/-- A number, rounded to a format. -/
def number? {f : Format} : Value → Option (Binary f)
  | .int i => some (.ofInt i)
  | .float x => some x.convert
  | _ => none

/-- The items of a list. -/
def list? : Value → Option (List Value)
  | .list items => some items
  | _ => none

/-- The fields of a table. -/
def table? : Value → Option (List (String × Value))
  | .table fields => some fields
  | _ => none

/-- The fields of a record: those of a table, or the items of a list under the names of the
fields in their order. A date has no field that a record knows. -/
def record? (layout : Layout) (names : List String) : Value → Option (List (String × Value))
  | .table fields => some fields
  | .list items =>
      if layout.spareItems || items.length ≤ names.length then some (names.zip items) else none
  | .date => some []
  | _ => none

/-- The name of an alternative without content: a text, or a table whose only field has
that name and a blank value. -/
def variant? (layout : Layout) : Value → Option String
  | .string s => some s
  | .table [(s, v)] => if layout.isBlank v then some s else none
  | _ => none

end Value

end AudioPatch
