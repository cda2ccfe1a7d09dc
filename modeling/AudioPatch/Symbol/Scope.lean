import AudioPatch.Table

/-!
# Scopes

A scope assigns values to keys, each key once. A key made of digits may also be written
with a dollar sign before it, for languages in which a name cannot start with a digit.
-/

namespace AudioPatch

/-- What can go wrong with a symbol. -/
inductive SymbolError where
  /-- A key was read that has no value. -/
  | unknownKey (scope key : String)
  /-- A key was assigned a second time. -/
  | alreadyAssigned (scope key : String)
  /-- A text cannot be part of a name. -/
  | invalidNamePart (part : String)
deriving DecidableEq, Repr

/-- The error in words. -/
def SymbolError.message : SymbolError → String
  | .unknownKey scope key => s!"namespace '{scope}': key '{key}' is not declared"
  | .alreadyAssigned scope key => s!"namespace '{scope}': key '{key}' is already assigned"
  | .invalidNamePart part => s!"invalid name part '{part}': only [A-Za-z0-9_] is allowed"

/-- A key without the dollar sign before its digits; any other key is itself. -/
def canonicalKey (key : String) : String :=
  match key.toList with
  | '$' :: digits =>
      if digits ≠ [] ∧ digits.all Char.isDigit then String.ofList digits else key
  | _ => key

/-- Whether a text is made of letters, digits and underscores, at least one. -/
def isNamePart (part : String) : Bool :=
  part ≠ "" && part.toList.all fun c => c.isAlphanum || c = '_'

/-- Refuses a text that cannot be part of a name. -/
def checkNamePart (part : String) : Except SymbolError Unit :=
  if isNamePart part then .ok () else .error (.invalidNamePart part)

/-- Keys that tools which inspect objects ask for. -/
def probeKeys : List String := ["toJSON", "then", "$$typeof"]

/-- A named assignment of values to keys. -/
structure Scope (α : Type) where
  /-- The path of the scope, for messages. -/
  name : String
  /-- The values of the canonical keys. -/
  entries : Table String α
deriving DecidableEq

namespace Scope

variable {α : Type}

/-- A scope that assigns nothing. -/
def empty (name : String) : Scope α := ⟨name, .empty⟩

/-- The value of a key, if it has one. -/
def get? (s : Scope α) (key : String) : Option α :=
  s.entries.find? (canonicalKey key)

/-- Whether a key has a value. -/
def contains (s : Scope α) (key : String) : Bool :=
  s.entries.contains (canonicalKey key)

/-- The value of a key, which must have one. -/
def get (s : Scope α) (key : String) : Except SymbolError α :=
  match s.get? key with
  | some v => .ok v
  | none => .error (.unknownKey s.name key)

/-- The value of a key, where an unassigned probe key is no mistake. -/
def lookup (s : Scope α) (key : String) : Except SymbolError (Option α) :=
  if key ∈ probeKeys ∧ ¬ s.entries.contains key then .ok none
  else (s.get key).map some

/-- The scope with a value at a key, in place of the one that the key may have. -/
def put (s : Scope α) (key : String) (v : α) : Scope α :=
  { s with entries := s.entries.insert (canonicalKey key) v }

/-- Assigns a value to a key that has none. -/
def declare (s : Scope α) (key : String) (v : α) : Except SymbolError (Scope α) :=
  if s.contains key then .error (.alreadyAssigned s.name (canonicalKey key))
  else .ok (s.put key v)

/-- Replaces the value of a key, which must have one. -/
def set (s : Scope α) (key : String) (v : α) : Except SymbolError (Scope α) :=
  if s.contains key then .ok (s.put key v) else .error (.unknownKey s.name key)

/-- The value of a key, after assigning it the given one if it had none. -/
def getOrDeclare (s : Scope α) (key : String) (v : α) : α × Scope α :=
  match s.get? key with
  | some w => (w, s)
  | none => (v, s.put key v)

end Scope

end AudioPatch
