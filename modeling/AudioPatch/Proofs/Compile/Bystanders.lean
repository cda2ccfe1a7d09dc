import AudioPatch.Proofs.Compile.Stages
import AudioPatch.Proofs.Patch.Agreement

/-!
# Nodes that take no part

What is compiled depends on the nodes that take part and on the order in which the patch has them,
and on nothing else: neither on the slots that they are in nor on the nodes beside them, which may
even be of types that nobody knows.
-/

namespace AudioPatch

open Patch

/-! ### A patch with a node that takes no part -/

namespace Dimmer

/-- The level with a second connection. -/
def sharedLevel : Node :=
  { level with sinks := .ofList [(0, [⟨"lamp", 0⟩, ⟨"left over", 0⟩])] }

/-- A node that nothing pulls, of a type that is not registered and with an id that cannot be part
of a name. -/
def leftOver : Node where
  id := "left over"
  type := "unknown"
  inlets := .ofList [(0, ⟨0, .signal⟩)]
  sources := .ofList [(0, [⟨"level", 0⟩])]

/-- The knob, the level and the lamp, with the other node before them. -/
def crowded : Patch := ⟨[none, some leftOver, some knob, some sharedLevel, some lamp], by decide⟩

theorem valid_crowded :
  crowded.validate = .ok ()
  := rfl

theorem participants_crowded :
  crowded.participants settings.allCallers.keys = .ok ["knob", "level", "lamp"]
  := by cbv

end Dimmer

/-! ### Schedules of the same nodes -/

section Same

variable {γ κ δ ι : Type} [Graph γ κ] [Graph δ ι] {g : γ} {g' : δ}

namespace Schedule

variable (h : Graph.Same g g')

include h

theorem coldNodes_eq :
  coldNodes g = coldNodes g'
  := by
  have hclassify : classify g = classify g' := by
    funext registry cold id
    rw [classify, classify, h.node_eq]
  funext registry pulled
  rw [coldNodes, coldNodes, hclassify]

theorem coldGroups_eq :
  coldGroups g = coldGroups g'
  := by
  have houts : outNodes g = outNodes g' := by
    funext pulled cold
    rw [outNodes, outNodes, h.select_eq]
  have hgather : gather g = gather g' := by
    funext cold clusters out
    rw [gather, gather, h.signalOrder_eq]
  have hgroup : groupOf g = groupOf g' := by
    funext pulled cold c
    rw [groupOf, groupOf, h.select_eq]
  funext pulled cold
  rw [coldGroups, coldGroups, houts, hgather, hgroup]

theorem make_eq :
  make g = make g'
  := by
  funext registry
  rw [make, make, h.signalOrder_eq, h.pulling_eq, coldNodes_eq h, coldGroups_eq h]

end Schedule

/-! ### Plans with the same nodes -/

namespace Plan

/-- The plan with another patch. -/
def on (plan : Plan γ) (g' : δ) : Plan δ :=
  ⟨g', plan.registry, plan.settings, plan.order, plan.schedule, plan.callers, plan.listeners⟩

variable (plan : Plan γ) (h : Graph.Same plan.patch g')

include h

theorem forNodes_on (d : Draft) (pass : Draft → Node → Except CompileError Draft) :
  (plan.on g').forNodes d pass = plan.forNodes d pass
  := by
  have hatNode : (plan.on g').atNode pass = plan.atNode pass := by
    funext d id
    rw [atNode, atNode, h.node_eq]
    rfl
  rw [forNodes, forNodes, hatNode]
  rfl

theorem named_on :
  (plan.on g').named = plan.named
  := by
  have hhooks : (plan.on g').hooks = plan.hooks := by
    funext side
    cases side with
    | inlet => rfl
    | outlet =>
        rw [hooks, hooks, h.contains_eq]
        rfl
  have hdeclare : (plan.on g').declareHooks = plan.declareHooks := by
    funext side d
    rw [declareHooks, declareHooks, hhooks]
  rw [named, named, plan.forNodes_on h, hdeclare]
  rfl

theorem wired_on :
  (plan.on g').wired = plan.wired
  := by
  have hconnected : (plan.on g').connected = plan.connected := by
    funext d
    simp only [connected, plan.forNodes_on h]
    rfl
  rw [wired, wired, plan.named_on h, hconnected]

theorem definitions_on :
  (plan.on g').definitions = plan.definitions
  := by
  have hdependencies : (plan.on g').dependenciesOf = plan.dependenciesOf := by
    funext id
    rw [dependenciesOf, dependenciesOf, h.node_eq]
    rfl
  rw [definitions, definitions, hdependencies]
  rfl

theorem compile_on :
  (plan.on g').compile = plan.compile
  := by
  simp only [compile, plan.wired_on h, plan.forNodes_on h, plan.definitions_on h]
  rfl

end Plan

/-! ### Compilations of the same nodes -/

variable {registry : Registry} {settings : Settings} {order : List NodeId}

/-- Plans that are made of the same nodes are compiled to the same. -/
theorem Plan.make_bind_compile_eq (horder : Graph.participants g settings.allCallers.keys = .ok order)
    (horder' : Graph.participants g' settings.allCallers.keys = .ok order)
    (hsame : Graph.Same (Store.trim g order) (Store.trim g' order)) :
  (make g registry settings >>= Plan.compile) = (make g' registry settings >>= Plan.compile)
  := by
  rw [make, make, horder, horder']
  show (_ >>= fun _ => Schedule.make _ _ >>= _) >>= _ = (_ >>= fun _ => Schedule.make _ _ >>= _) >>= _
  rw [hsame.nodes_eq, Schedule.make_eq hsame]
  cases (Store.nodes (Store.trim g' order)).forM fun n => do let _ ← registry.get n.type with
  | error e => rfl
  | ok _ =>
      cases Schedule.make (Store.trim g' order) registry with
      | error e => rfl
      | ok schedule =>
          exact (Plan.compile_on ⟨Store.trim g order, registry, settings, order, schedule,
            settings.allCallers, settings.allListeners⟩ hsame).symm

/-- Graphs with the same nodes are compiled to the same. -/
theorem Graph.Same.compile_eq (h : Graph.Same g g')
    (htrim : ∀ ids, Graph.Same (Store.trim g ids) (Store.trim g' ids)) :
  Graph.compile g = Graph.compile g'
  := by
  have hchecks : ∀ settings : Settings, settings.checkHooks g = settings.checkHooks g' := by
    intro settings
    simp only [Settings.checkHooks, Hooks.check, h.node_eq]
  have hparticipants := h.participants_eq
  funext registry settings
  rw [Graph.compile, Graph.compile, hchecks]
  congr 1
  funext _
  cases horder : Graph.participants g settings.allCallers.keys with
  | error e =>
      have horder' := horder
      rw [hparticipants] at horder'
      rw [Plan.make, Plan.make, horder, horder']
      rfl
  | ok order =>
      have horder' := horder
      rw [hparticipants] at horder'
      apply Plan.make_bind_compile_eq horder horder' (htrim order)

end Same

/-! ### Compilations -/

variable {p q : Patch} {registry : Registry} {settings : Settings} {order order' : List NodeId}

/-- Patches are compiled to the same if they have the same nodes once they are trimmed. -/
theorem Patch.Coherent.compile_eq (hp : p.Coherent) (hq : q.Coherent)
    (hhooks : settings.checkHooks p = .ok ()) (hhooks' : settings.checkHooks q = .ok ())
    (horder : p.participants settings.allCallers.keys = .ok order)
    (horder' : q.participants settings.allCallers.keys = .ok order')
    (hsame : (p.trim order).nodes = (q.trim order').nodes) :
  p.compile registry settings = q.compile registry settings
  := by
  have hcallers := (Settings.fit_of_checkHooks hhooks .inlet).mem_ids
  have hcallers' := (Settings.fit_of_checkHooks hhooks' .inlet).mem_ids
  -- The order is that in which the nodes that are left take part, so it is the same too.
  have hleft := hp.participants_trim hcallers horder
  rw [← graph_participants, (same_of_nodes hsame).participants_eq, graph_participants,
    hq.participants_trim hcallers' horder'] at hleft
  obtain rfl := Except.ok.inj hleft
  rw [compile, compile, Graph.compile, Graph.compile, hhooks, hhooks', ok_bind, ok_bind]
  apply Plan.make_bind_compile_eq horder horder' (same_of_nodes hsame)

/-- Patches with the same nodes are compiled to the same, whatever slots they are in. -/
theorem Patch.compile_congr (h : p.nodes = q.nodes) :
  p.compile = q.compile
  := by
  apply (same_of_nodes h).compile_eq
  intro ids
  apply same_of_nodes
  rw [store_trim, store_trim, nodes_trim, nodes_trim, h]

/-- Nodes that take no part have no influence: two valid patches with hooks that fit are compiled
to the same, or fail alike, if they have the same nodes once they are trimmed to those that take
part. So a patch can be trimmed before it is compiled, if the hooks still fit. -/
theorem Patch.compile_eq_of_nodes_trim_eq (hp : p.validate = .ok ()) (hq : q.validate = .ok ())
    (hhooks : settings.checkHooks p = .ok ()) (hhooks' : settings.checkHooks q = .ok ()) :
  ∃ order order', p.participants settings.allCallers.keys = .ok order ∧
    q.participants settings.allCallers.keys = .ok order' ∧
    ((p.trim order).nodes = (q.trim order').nodes →
      p.compile registry settings = q.compile registry settings) ∧
    (settings.checkHooks (p.trim order) = .ok () →
      p.compile registry settings = (p.trim order).compile registry settings)
  := by
  have hp := coherent_of_validate hp
  have hq := coherent_of_validate hq
  have hcallers := (Settings.fit_of_checkHooks hhooks .inlet).mem_ids
  have hcallers' := (Settings.fit_of_checkHooks hhooks' .inlet).mem_ids
  obtain ⟨order, horder, -⟩ := Meets.never_iff.mp (meets_participants hp hcallers)
  obtain ⟨order', horder', -⟩ := Meets.never_iff.mp (meets_participants hq hcallers')
  refine ⟨order, order', horder, horder', hp.compile_eq hq hhooks hhooks' horder horder', ?_⟩
  intro hfit
  apply hp.compile_eq (hp.trim order) hhooks hfit horder (hp.participants_trim hcallers horder)
  rw [trim_trim]

/-- The node that takes no part makes no difference. -/
theorem Patch.compile_eq_of_nodes_trim_eq_dimmer :
  Dimmer.crowded.validate = .ok () ∧ Dimmer.patch.validate = .ok () ∧
    Dimmer.settings.checkHooks Dimmer.crowded = .ok () ∧
    Dimmer.settings.checkHooks Dimmer.patch = .ok () ∧
    Dimmer.crowded.compile Dimmer.registry Dimmer.settings =
      Dimmer.patch.compile Dimmer.registry Dimmer.settings
  := by
  have hhooks : Dimmer.settings.checkHooks Dimmer.crowded = .ok () := rfl
  have hhooks' : Dimmer.settings.checkHooks Dimmer.patch = .ok () := rfl
  obtain ⟨order, order', horder, horder', hcompile, -⟩ :=
    Patch.compile_eq_of_nodes_trim_eq Dimmer.valid_crowded Dimmer.valid hhooks hhooks'
  refine ⟨Dimmer.valid_crowded, Dimmer.valid, hhooks, hhooks', hcompile ?_⟩
  obtain rfl := Except.ok.inj (Dimmer.participants_crowded.symm.trans horder)
  obtain rfl := Except.ok.inj (Dimmer.participants_eq.symm.trans horder')
  decide

end AudioPatch
