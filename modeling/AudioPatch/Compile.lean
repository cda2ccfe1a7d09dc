import AudioPatch.Compile.Assembly
import AudioPatch.Patch.ArenaWalk

/-!
# Compiling a patch

The hooks are checked first. Then all that takes no part is trimmed away, the nodes that
are pulled are scheduled, everything gets its name, and the code of the nodes is generated
and put together. The first error stops a compilation.
-/

namespace AudioPatch

/-- The portlet with a number on one side of a node. -/
def Node.portlet (n : Node) : Side → PortletId → Except PatchError Portlet
  | .inlet => n.inlet
  | .outlet => n.outlet

/-- A hook is at a message portlet of a node. -/
def Node.checkHook (n : Node) (side : Side) (q : PortletId) : Except CompileError Unit := do
  let portlet ← n.portlet side q
  if portlet.kind = .message then .ok () else .error (.invalidHook side n.id q)

variable {γ κ : Type} [Graph γ κ]

/-- Every hook is at a message portlet of a node of the patch. -/
def Hooks.check (hooks : Hooks) (g : γ) (side : Side) : Except CompileError Unit :=
  hooks.entries.forM fun e => do
    let n ← Store.node g e.1
    e.2.forM (n.checkHook side)

/-- The hooks of the settings fit the patch. -/
def Settings.checkHooks (s : Settings) (g : γ) : Except CompileError Unit := do
  s.allCallers.check g .inlet
  s.allListeners.check g .outlet

namespace Plan

/-- The plan of a patch whose hooks fit. -/
def make (g : γ) (registry : Registry) (settings : Settings) :
    Except CompileError (Plan γ) := do
  let callers := settings.allCallers
  let order ← Graph.participants g callers.keys
  let patch := Store.trim g order
  (Store.nodes patch).forM fun n => do
    let _ ← registry.get n.type
  let schedule ← Schedule.make patch registry
  return ⟨patch, registry, settings, order, schedule, callers, settings.allListeners⟩

/-- The global code that a node needs. -/
def dependenciesOf (plan : Plan γ) (id : NodeId) : Except CompileError (List Definition) := do
  return (← plan.registry.get (← Store.node plan.patch id).type).dependencies

/-- The global code that the nodes need, with all that it depends on. -/
def definitions (plan : Plan γ) : Except CompileError (List Definition) := do
  return Definition.flattenAll (← plan.order.mapM plan.dependenciesOf).flatten

/-- Runs all passes and puts the program together. -/
def compile (plan : Plan γ) : Except CompileError (Program × Names) := do
  let (listeners, d) ← plan.wired
  let callers ← plan.callersOf d.names
  let d ← plan.forNodes d plan.generate
  let hotLoop ← plan.hotLoop d.nodes
  let cold ← plan.coldFunctionsOf d
  let definitions ← plan.definitions
  let (code, names) := Definition.instantiate definitions plan.settings d.names
  let program : Program := {
    nodes := d.nodes
    order := plan.order
    hot := plan.schedule.hot
    cold := cold
    hotLoop := hotLoop
    coldInitialization := .concat (cold.map fun g =>
      .ofText s!"{g.name}({names.globals.emptyMessage})\n")
    callers := callers
    listeners := listeners
    globalCode := {
      code := ← code
      imports := Definition.collectImports definitions
      exports := Definition.collectExports definitions plan.settings.target } }
  return (program, names)

end Plan

/-- Compiles a patch to a program, and answers the program with all its names. -/
def Graph.compile (g : γ) (registry : Registry) (settings : Settings) :
    Except CompileError (Program × Names) := do
  settings.checkHooks g
  (← Plan.make g registry settings).compile

/-- Compiles a patch. -/
def Patch.compile (p : Patch) (registry : Registry) (settings : Settings) :
    Except CompileError (Program × Names) :=
  Graph.compile p registry settings

/-- Compiles an arena. -/
def Arena.compile (a : Arena) (registry : Registry) (settings : Settings) :
    Except CompileError (Program × Names) :=
  Graph.compile a registry settings

end AudioPatch
