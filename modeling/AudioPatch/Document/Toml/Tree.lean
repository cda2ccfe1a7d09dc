import AudioPatch.Document.Value

/-!
# TOML tables under construction

A TOML document defines its tables piece by piece. While they grow, each remembers how it
came to be, because that decides what may still be added to it:

* a table with a header of its own may not get another one;
* a table that only stands on the way to another one may still get its header;
* a table made by a dotted key may only be extended by dotted keys.
-/

namespace AudioPatch.Toml

/-- What a key holds while its document is being read. -/
inductive Item where
  | value (v : Value)
  /-- A table; it is open if it has no header of its own, and dotted if a dotted key made
  it. -/
  | table (isOpen isDotted : Bool) (entries : List (String × Item))
  /-- The tables of a list, each with a header of its own. -/
  | tables (elements : List (List (String × Item)))

/-- The entries of a table. -/
abbrev Entries := List (String × Item)

/-- What a key holds. -/
def Entries.get? (entries : Entries) (key : String) : Option Item :=
  (entries.find? (·.1 = key)).map (·.2)

/-- The entries with another item at a key that has one. -/
def Entries.replace (entries : Entries) (key : String) (item : Item) : Entries :=
  entries.map fun e => if e.1 = key then (key, item) else e

/-- The entries without a key. -/
def Entries.erase (entries : Entries) (key : String) : Entries :=
  entries.filter (·.1 ≠ key)

/-- Puts a value at a key below a path of dotted keys, which `nested` says is not empty at
its start. The tables on the path must be open, and the last one must be dotted exactly if
there is a path. -/
def assign (nested : Bool) (key : String) (v : Value) (isDotted : Bool) (entries : Entries) :
    List String → Option Entries
  | [] =>
      if isDotted ≠ nested ∨ (entries.get? key).isSome then none
      else some (entries ++ [(key, .value v)])
  | k :: path =>
      match entries.get? k with
      | none => do
          let inner ← assign nested key v true [] path
          return entries ++ [(k, .table true true inner)]
      | some (.value _) => none
      | some (.table isOpen isDotted inner) => do
          guard isOpen
          let inner ← assign nested key v isDotted inner path
          return entries.replace k (.table isOpen isDotted inner)
      | some (.tables elements) => do
          let last ← elements.getLast?
          let last ← assign nested key v false last path
          return entries.replace k (.tables (elements.dropLast ++ [last]))

/-- Applies a change to the table at a path of header keys, making the tables that are
missing on the way. Of a list of tables the last one is meant. -/
def within (change : Entries → Option Entries) (entries : Entries) : List String → Option Entries
  | [] => change entries
  | k :: path =>
      match entries.get? k with
      | none => do
          let inner ← within change [] path
          return entries ++ [(k, .table true false inner)]
      | some (.value _) => none
      | some (.table isOpen isDotted inner) => do
          let inner ← within change inner path
          return entries.replace k (.table isOpen isDotted inner)
      | some (.tables elements) => do
          let last ← elements.getLast?
          let last ← within change last path
          return entries.replace k (.tables (elements.dropLast ++ [last]))

/-- A value and the path of the key that it is assigned to. -/
structure Assignment where
  path : List String
  key : String
  value : Value

/-- The entries after assignments. -/
def assignAll (entries : Entries) (assignments : List Assignment) : Option Entries :=
  assignments.foldlM (fun entries a => assign (!a.path.isEmpty) a.key a.value false entries a.path)
    entries

/-- A header with the assignments under it. The header of the start of a document is absent;
any other names a table, or one more table of a list. -/
structure Section where
  header : Option (Bool × List String × String)
  assignments : List Assignment

/-- The document after one more section. A table that was open moves behind the others of
its parent. -/
def addSection (root : Entries) (s : Section) : Option Entries :=
  match s.header with
  | none => assignAll root s.assignments
  | some (isList, path, key) =>
      within (change isList key) root path
where
  change (isList : Bool) (key : String) (parent : Entries) : Option Entries :=
    match isList, parent.get? key with
    | true, none => do
        return parent ++ [(key, .tables [← assignAll [] s.assignments])]
    | true, some (.tables elements) => do
        return parent.replace key (.tables (elements ++ [← assignAll [] s.assignments]))
    | false, none => do
        return parent ++ [(key, .table false false (← assignAll [] s.assignments))]
    | false, some (.table true false inner) => do
        return parent.erase key ++ [(key, .table false false (← assignAll inner s.assignments))]
    | _, _ => none

mutual

/-- The value of a finished item. -/
def Item.finish : Item → Value
  | .value v => v
  | .table _ _ entries => .table (finishEntries entries)
  | .tables elements => .list (finishTables elements)

/-- The fields of a finished table. -/
def finishEntries : List (String × Item) → List (String × Value)
  | [] => []
  | (k, item) :: rest => (k, item.finish) :: finishEntries rest

/-- The finished tables of a list. -/
def finishTables : List (List (String × Item)) → List Value
  | [] => []
  | entries :: rest => .table (finishEntries entries) :: finishTables rest

end

end AudioPatch.Toml
