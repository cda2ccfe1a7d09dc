import AudioPatch.Patch.Error
import AudioPatch.Symbol.Scope

/-!
# Why a compilation stops
-/

namespace AudioPatch

/-- Why a compilation stops. -/
inductive CompileError where
  | patch (e : PatchError)
  | symbol (e : SymbolError)
  /-- There is no implementation of a node type. -/
  | unknownType (type : String)
  /-- A node sets state fields, but its type has no state. -/
  | missingState (node : NodeId) (type : String)
  /-- A node sets a field that the state of its type does not have. -/
  | unknownField (node : NodeId) (field : String)
  /-- A caller or listener is asked for at a portlet that carries a signal. -/
  | invalidHook (side : Side) (node : NodeId) (portlet : PortletId)
deriving DecidableEq, Repr

/-- What hooks on one side of a node are called. -/
def Side.hookName : Side → String
  | .inlet => "inlet caller"
  | .outlet => "outlet listener"

/-- The error in words. -/
def CompileError.message : CompileError → String
  | .patch e => e.message
  | .symbol e => e.message
  | .unknownType type => s!"unknown node type '{type}'"
  | .missingState node type =>
      s!"node '{node}' of type '{type}' declares state but its type has no state variables"
  | .unknownField node field => s!"node '{node}' initializes undeclared state variable '{field}'"
  | .invalidHook side node portlet =>
      s!"invalid {side.hookName} spec for {node}:{portlet}: not a message {side.name}"

instance : MonadLift (Except PatchError) (Except CompileError) :=
  ⟨Except.mapError .patch⟩

instance : MonadLift (Except SymbolError) (Except CompileError) :=
  ⟨Except.mapError .symbol⟩

end AudioPatch
