import AudioPatch.Compile
import AudioPatch.Proofs.Patch.Integrity

/-!
# What can stop a compilation

A compilation calls implementations and definitions, which can fail as they like. If those that
are called do not, it can be stopped by faults of the hooks, of the types, ids and state fields
of the nodes that take part, and of the tables that implementations answer with. Each such
`Obstacle` comes with the error that reports it.
-/

namespace AudioPatch

/-! ### Hooks on either side -/

/-- The error at a portlet that is not there. -/
def PatchError.unknownPortlet : Side → NodeId → PortletId → PatchError
  | .inlet => .unknownInlet
  | .outlet => .unknownOutlet

/-- The hooks of one side, from both places of the settings. -/
def Settings.hooks (s : Settings) : Side → Hooks
  | .inlet => s.allCallers
  | .outlet => s.allListeners

/-- The scope in which hooks of one side are named. -/
def Side.hookScope : Side → String
  | .inlet => "inletCallers"
  | .outlet => "outletListeners"

/-! ### How far a compilation has come -/

variable (p : Patch) (registry : Registry) (settings : Settings)

/-- A node is among those that take part in what is compiled. -/
def TakesPart (n : Node) : Prop :=
  n ∈ p.nodes ∧ ∃ order, p.participants settings.allCallers.keys = .ok order ∧ n.id ∈ order

/-- A compilation has made its plan, and has named and wired everything. -/
structure Wires (plan : Plan Patch) (d : Draft) : Prop where
  checked : settings.checkHooks p = .ok ()
  planned : Plan.make p registry settings = .ok plan
  wired : ∃ listeners, plan.wired = .ok (listeners, d)

/-- What the implementation of a node can see once everything is named. -/
def Sees (i : Implementation) (c : NodeContext) : Prop :=
  ∃ plan d, Wires p registry settings plan d ∧ c.node ∈ plan.patch.nodes ∧
    registry.find? c.node.type = some i ∧ plan.contextOf d.names c.node = .ok c

/-! ### Obstacles -/

/-- Why a compilation must fail though all that it calls gives results, and how it then
does. -/
inductive Obstacle : CompileError → Prop where
  | hookWithoutNode (side : Side) {id : NodeId} (h : id ∈ (settings.hooks side).keys)
      (hid : id ∉ p.ids) :
      Obstacle (.patch (.unknownNode id))
  | hookWithoutPortlet (side : Side) {id : NodeId} {n : Node} {q : PortletId}
      (h : (id, q) ∈ (settings.hooks side).pairs) (hn : p.find? id = some n)
      (hq : q ∉ (n.portletsOn side).keys) :
      Obstacle (.patch (.unknownPortlet side id q))
  | hookOfSignal (side : Side) {id : NodeId} {n : Node} {q : PortletId} {portlet : Portlet}
      (h : (id, q) ∈ (settings.hooks side).pairs) (hn : p.find? id = some n)
      (hq : (n.portletsOn side).find? q = some portlet) (hkind : portlet.kind ≠ .message) :
      Obstacle (.invalidHook side id q)
  | unknownType {n : Node} (h : TakesPart p settings n) (htype : n.type ∉ registry.keys) :
      Obstacle (.unknownType n.type)
  | invalidId {n : Node} (h : TakesPart p settings n)
      (hid : n.id = "" ∨ ∃ c ∈ n.id.toList, ¬ (c.isAlphanum ∨ c = '_')) :
      Obstacle (.symbol (.invalidNamePart n.id))
  | sharedStem {n m : Node} {stem : String} (hn : TakesPart p settings n)
      (hm : TakesPart p settings m) (hne : n.id ≠ m.id)
      (hstem : nodeStem settings.debug n.id n.type = .ok stem)
      (hstem' : nodeStem settings.debug m.id m.type = .ok stem) :
      Obstacle (.symbol (.alreadyAssigned "nodes" stem))
  | fieldTwice {n : Node} {i : Implementation} {shape : List String} {key : String}
      (h : TakesPart p settings n) (hi : registry.find? n.type = some i)
      (hshape : i.stateFields = some shape)
      (htwice : [key, key].Sublist (shape.map canonicalKey)) :
      Obstacle (.symbol (.alreadyAssigned s!"nodes.{n.id}.state" key))
  | hookTwice (side : Side) {n : Node} {portlets : List PortletId} {q : PortletId}
      (h : TakesPart p settings n) (hq : (settings.hooks side).find? n.id = some portlets)
      (htwice : [q, q].Sublist portlets) :
      Obstacle (.symbol (.alreadyAssigned s!"{side.hookScope}.{n.id}" (toString q)))
  | stateWithoutShape {i : Implementation} {c : NodeContext} {fields : Table String Code}
      (h : Sees p registry settings i c) (hstate : i.state c = .ok fields)
      (hshape : i.stateFields = none) (hfields : fields.keys ≠ []) :
      Obstacle (.missingState c.node.id c.node.type)
  | fieldOutsideShape {i : Implementation} {c : NodeContext} {fields : Table String Code}
      {shape : List String} {f : String} (h : Sees p registry settings i c)
      (hstate : i.state c = .ok fields) (hshape : i.stateFields = some shape)
      (hf : f ∈ fields.keys) (hout : canonicalKey f ∉ shape.map canonicalKey) :
      Obstacle (.unknownField c.node.id f)
  | codeWithoutInlet {i : Implementation} {c : NodeContext} {loops : Table PortletId Code}
      {q : PortletId} (h : Sees p registry settings i c) (hloops : i.inletLoops c = .ok loops)
      (hq : q ∈ loops.keys) (hinlet : q ∉ c.node.inlets.keys) :
      Obstacle (.patch (.unknownInlet c.node.id q))

/-! ### Calls -/

/-- The functions of an implementation that are called for a node give results. Those after
the state are called if its fields fit, and the receivers if the code at inlets does. -/
structure Implementation.Answers (i : Implementation) (c : NodeContext) : Prop where
  state : ∃ fields, i.state c = .ok fields
  code : ∀ state, Plan.stateOf i c = .ok state →
    (∃ code, i.initialization c = .ok code) ∧ (∃ code, i.loop c = .ok code) ∧
      ∃ loops, i.inletLoops c = .ok loops
  receivers : ∀ state loops, Plan.stateOf i c = .ok state → i.inletLoops c = .ok loops →
    (∀ q ∈ loops.keys, q ∈ c.node.inlets.keys) → ∃ bodies, i.receivers c = .ok bodies

/-- All that a compilation calls gives results. The implementation of a node is called if the
code of the nodes before it has been generated, and a definition if those before it have
been. -/
structure Responds : Prop where
  nodes : ∀ plan d, Wires p registry settings plan d →
    ∀ before n after d', plan.order = before ++ n.id :: after →
      before.foldlM (plan.atNode plan.generate) d = .ok d' → n ∈ plan.patch.nodes →
      ∀ i c, registry.find? n.type = some i → plan.contextOf d.names n = .ok c → i.Answers c
  definitions : ∀ plan d, Wires p registry settings plan d →
    ∀ d' definitions, plan.forNodes d plan.generate = .ok d' → plan.definitions = .ok definitions →
      ∀ before definition after kept names, definitions = before ++ definition :: after →
        Definition.fragments ⟨d'.names.globals, settings⟩ [] before d'.names = (.ok kept, names) →
        ∃ code, ((definition.generate ⟨d'.names.globals, settings⟩).run names).1 = .ok code

variable {p registry settings}

/-- No obstacle shows as a name that is missing. -/
theorem Obstacle.ne_unknownKey {e : CompileError} (h : Obstacle p registry settings e)
    (scope key : String) :
  e ≠ .symbol (.unknownKey scope key)
  := by
  rintro rfl
  cases h

/-- No obstacle shows as a flaw of the patch, such as a handle that dangles. -/
theorem Obstacle.ne_flawed {e : CompileError} (h : Obstacle p registry settings e)
    (flaw : Flaw) :
  e ≠ .patch (.flawed flaw)
  := by
  generalize hf : CompileError.patch (.flawed flaw) = f
  rintro rfl
  cases h with
  | hookWithoutPortlet side => cases side <;> cases hf
  | _ => cases hf

end AudioPatch
