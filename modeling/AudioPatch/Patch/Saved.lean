import AudioPatch.Document.Json.Printer
import AudioPatch.Document.Json.Reader
import AudioPatch.Patch.Integrity

/-!
# Saved patches

A patch is saved as the list of its nodes, each a table with the node's connections in it,
and written as JSON. Reading goes back from such a list to a patch, after checking it: only
the id and the type of a node are required, and fields that a node does not have are passed
over.
-/

namespace AudioPatch

open Value (string? uint32? bool? list? table?)

/-- Why a saved patch cannot be loaded. -/
inductive LoadError where
  /-- The document has the wrong shape. -/
  | malformed
  /-- The nodes do not make a patch. -/
  | refused (e : PatchError)
deriving DecidableEq, Repr

/-! ### Writing -/

/-- A number of a portlet as the name of a field. -/
def PortletId.name (p : PortletId) : String := toString p.toNat

/-- A whole number of 32 bits. -/
def Value.ofUInt32 (n : UInt32) : Value := .int n.toNat

/-- A table with portlet numbers as the names of its fields. -/
def savePortletTable {α : Type} (save : α → Value) (t : Table PortletId α) : Value :=
  .table (t.entries.map fun e => (PortletId.name e.1, save e.2))

/-- A portlet as a table. -/
def Portlet.save (p : Portlet) : Value :=
  .table [("id", .ofUInt32 p.id), ("type", .string p.kind.name)]

/-- An endpoint as a table. -/
def Endpoint.save (e : Endpoint) : Value :=
  .table [("nodeId", .string e.node), ("portletId", .ofUInt32 e.portlet)]

/-- An argument as a number or a text. There are no numerals for numbers that are not
finite. -/
def Argument.save : Argument → Value
  | .number x => if x.isFinite then .float x else .null
  | .symbol s => .string s

/-- A node as a table. -/
def Node.save (n : Node) : Value :=
  let links := savePortletTable fun ends : List Endpoint => .list (ends.map Endpoint.save)
  .table
    [("id", .string n.id),
     ("type", .string n.type),
     ("args", .list (n.args.map Argument.save)),
     ("inlets", savePortletTable Portlet.save n.inlets),
     ("outlets", savePortletTable Portlet.save n.outlets),
     ("sources", links n.sources),
     ("sinks", links n.sinks),
     ("isPullingSignal", .bool n.pulls),
     ("isPushingMessages", .bool n.pushes)]

/-- The nodes of a store as a list. -/
def Store.save {σ κ : Type} [Store σ κ] (s : σ) : Value := .list ((nodes s).map Node.save)

/-- A store as JSON text. -/
def Store.toJson {σ κ : Type} [Store σ κ] (s : σ) : String := Json.print (Store.save s)

/-! ### Reading -/

/-- The number of a portlet that is the name of a field: decimal digits of a number of 32
bits, without a zero before others. -/
def PortletId.ofName? (name : String) : Option PortletId :=
  let digits := name.toList
  if digits ≠ [] ∧ digits.all Char.isDigit ∧ (digits.length = 1 ∨ digits.head? ≠ some '0') then
    uint32? (.int (ofDigits 10 digits))
  else none

/-- A field that may be missing. -/
def optional? {α : Type} (fields : List (String × Value)) (name : String) (default : α)
    (read? : Value → Option α) : Option α :=
  match fields.find? (·.1 = name) with
  | some f => read? f.2
  | none => some default

/-- A field that must be there. -/
def required? {α : Type} (fields : List (String × Value)) (name : String)
    (read? : Value → Option α) : Option α :=
  match fields.find? (·.1 = name) with
  | some f => read? f.2
  | none => none

/-- A table with portlet numbers as the names of its fields. -/
def loadPortletTable? {α : Type} (load? : Value → Option α) (v : Value) :
    Option (Table PortletId α) := do
  let entries ← (← table? v).mapM fun f => return (← PortletId.ofName? f.1, ← load? f.2)
  return .ofList entries

/-- The kind that a value names. -/
def PortletKind.load? (v : Value) : Option PortletKind :=
  match v.variant? Json.layout with
  | some "signal" => some .signal
  | some "message" => some .message
  | _ => none

/-- The portlet that a value describes. -/
def Portlet.load? (v : Value) : Option Portlet := do
  let fields ← v.record? Json.layout ["id", "type"]
  return ⟨← required? fields "id" uint32?, ← required? fields "type" PortletKind.load?⟩

/-- The endpoint that a value describes. -/
def Endpoint.load? (v : Value) : Option Endpoint := do
  let fields ← v.record? Json.layout ["nodeId", "portletId"]
  return ⟨← required? fields "nodeId" string?, ← required? fields "portletId" uint32?⟩

/-- The argument that a value describes: a number or a text. -/
def Argument.load? : Value → Option Argument
  | .string s => some (.symbol s)
  | .float x => some (.number x)
  | .int i => some (.number (.ofInt i))
  | _ => none

/-- The far ends of connections, portlet by portlet. -/
def Links.load? (v : Value) : Option Links :=
  loadPortletTable? (fun v => do (← list? v).mapM Endpoint.load?) v

/-- The names of the fields of a node, in their order. -/
def Node.fieldNames : List String :=
  ["id", "type", "args", "inlets", "outlets", "sources", "sinks", "isPullingSignal",
   "isPushingMessages"]

/-- The node that a value describes. -/
def Node.load? (v : Value) : Option Node := do
  let fields ← v.record? Json.layout Node.fieldNames
  return {
    id := ← required? fields "id" string?
    type := ← required? fields "type" string?
    args := ← optional? fields "args" [] fun v => do (← list? v).mapM Argument.load?
    inlets := ← optional? fields "inlets" .empty (loadPortletTable? Portlet.load?)
    outlets := ← optional? fields "outlets" .empty (loadPortletTable? Portlet.load?)
    sources := ← optional? fields "sources" .empty Links.load?
    sinks := ← optional? fields "sinks" .empty Links.load?
    pulls := ← optional? fields "isPullingSignal" false bool?
    pushes := ← optional? fields "isPushingMessages" false bool? }

/-- The store of the nodes that a list describes. -/
def Store.load {σ κ : Type} [Store σ κ] (v : Value) : Except LoadError σ :=
  match (do (← list? v).mapM Node.load?) with
  | none => .error .malformed
  | some nodes =>
      match Store.ofNodes (σ := σ) nodes with
      | .ok s => .ok s
      | .error e => .error (.refused e)

/-- The store in a JSON text. -/
def Store.ofJson {σ κ : Type} [Store σ κ] (text : String) : Except LoadError σ :=
  match Json.read? text with
  | some v => Store.load v
  | none => .error .malformed

end AudioPatch
