import AudioPatch.Proofs.Compile.Success

/-!
# The stages of a compilation

A compilation that succeeds has made a plan, wired the nodes, generated their code and put it
together. Every stage leaves what it found of the earlier ones.
-/

namespace AudioPatch

/-! ### A patch with a cold node -/

namespace Dimmer

def knob : Node where
  id := "knob"
  type := "dial"
  inlets := .ofList [(0, ⟨0, .message⟩)]
  outlets := .ofList [(0, ⟨0, .message⟩)]
  sinks := .ofList [(0, [⟨"level", 0⟩])]

def level : Node where
  id := "level"
  type := "value"
  inlets := .ofList [(0, ⟨0, .message⟩)]
  outlets := .ofList [(0, ⟨0, .signal⟩)]
  sources := .ofList [(0, [⟨"knob", 0⟩])]
  sinks := .ofList [(0, [⟨"lamp", 0⟩])]

def lamp : Node where
  id := "lamp"
  type := "output"
  inlets := .ofList [(0, ⟨0, .signal⟩)]
  sources := .ofList [(0, [⟨"level", 0⟩])]
  pulls := true

/-- A knob that sets the level of a lamp. -/
def patch : Patch := ⟨[some knob, some level, some lamp], by decide⟩

/-- The level changes with a message only, and the lamp takes note of a new level. -/
def registry : Registry :=
  ⟨[("dial", {}), ("output", { inletLoops := fun _ => .ok (.ofList [(0, .ofText "note()\n")]) }),
    ("value", { isPure := true, loop := fun _ => .ok (.ofText "set()\n") })], by decide⟩

/-- The host turns the knob. -/
def settings : Settings where
  callers := .ofList [("knob", [0])]

theorem valid :
  patch.validate = .ok ()
  := rfl

theorem participants_eq :
  patch.participants settings.allCallers.keys = .ok ["knob", "level", "lamp"]
  := by cbv

/-- All nodes take part. The lamp is hot, and the level is a cold group of its own. -/
def plan : Plan Patch where
  patch := patch
  registry := registry
  settings := settings
  order := ["knob", "level", "lamp"]
  schedule :=
    { pulled := ⟨["level", "lamp"], ["lamp"]⟩
      hot := ⟨["lamp"], ["lamp"]⟩
      cold := [⟨⟨["level"], ["level"]⟩, [⟨⟨"level", 0⟩, "lamp", 0⟩]⟩] }
  callers := settings.allCallers
  listeners := settings.allListeners

theorem schedule_eq :
  Schedule.make patch registry = .ok plan.schedule
  := by cbv

theorem compile_eq :
  patch.compile registry settings = plan.compile
  := by
  have hmake : Plan.make patch registry settings = .ok plan :=
    Plan.make_of_order participants_eq (by decide) schedule_eq
  rw [Patch.compile, Graph.compile, hmake]
  rfl

/-- The patch can be compiled. -/
theorem exists_compile :
  ∃ program names, patch.compile registry settings = .ok (program, names) ∧
    program.hot.nodes = ["lamp"] ∧ ∃ f ∈ program.cold, f.group.nodes = ["level"]
  := by
  have hnodes : plan.compile.toOption.map
      (fun r => (r.1.hot.nodes, r.1.cold.map fun f => f.group.nodes)) =
        some (["lamp"], [["level"]]) := rfl
  rw [compile_eq]
  cases h : plan.compile with
  | error e =>
      rw [h] at hnodes
      cases hnodes
  | ok result =>
      rw [h] at hnodes
      obtain ⟨hhot, hcold⟩ := Prod.mk.inj (Option.some.inj hnodes)
      refine ⟨result.1, result.2, rfl, hhot, ?_⟩
      apply List.mem_map.mp
      rw [hcold]
      apply List.mem_singleton_self

end Dimmer

variable {p : Patch} {registry : Registry} {settings : Settings} {plan : Plan Patch} {d d' : Draft}
  {n : Node} {program : Program} {names : Names}

/-! ### Global code -/

namespace Names

/-- Names that differ in the symbols of global code at most. -/
def SameButGlobal (names names' : Names) : Prop :=
  names' = { names with globalCode := names'.globalCode }

theorem SameButGlobal.trans {names' names'' : Names} (h : names.SameButGlobal names')
    (h' : names'.SameButGlobal names'') :
  names.SameButGlobal names''
  := by
  rw [SameButGlobal, h', h]

theorem sameButGlobal_globalSymbol (names : Names) (space key : String) :
  names.SameButGlobal (names.globalSymbol space key).2
  := by
  rw [SameButGlobal, globalSymbol]
  cases (do checkNamePart space; checkNamePart key : Except SymbolError Unit) with
  | error e => rfl
  | ok _ => rfl

end Names

theorem Script.sameButGlobal_run {α : Type} (script : Script α) (names : Names) :
  names.SameButGlobal (script.run names).2
  := by
  induction script generalizing names with
  | done a => rfl
  | fail e => rfl
  | symbol space key next ih =>
      apply (names.sameButGlobal_globalSymbol space key).trans
      apply ih

namespace Definition

theorem sameButGlobal_fragments (context : CodeContext) (kept : List Code)
    (definitions : List Definition) (names : Names) :
  names.SameButGlobal (fragments context kept definitions names).2
  := by
  induction definitions generalizing kept names with
  | nil => rfl
  | cons definition rest ih =>
      have hrun := (definition.generate context).sameButGlobal_run names
      rw [fragments]
      cases hcode : (definition.generate context).run names with
      | mk result names' =>
          rw [hcode] at hrun
          cases result with
          | error e => apply hrun
          | ok code => apply hrun.trans (ih _ names')

end Definition

/-! ### Code of nodes -/

namespace Plan

/-- A program of a node with the code that its implementation answers. The symbols for messages
are as they were. -/
structure Codes (plan : Plan Patch) (names : Names) (n : Node) (program program' : NodeProgram) :
    Prop where
  loops : ∃ i c, plan.registry.find? n.type = some i ∧ plan.contextOf names n = .ok c ∧
    i.loop c = .ok program'.loop ∧ i.inletLoops c = .ok program'.inletLoops
  inlets : ∀ q ∈ program'.inletLoops.keys, q ∈ n.inlets.keys
  senders_eq : program'.senders = program.senders
  receivers_eq : ∀ q, (program'.receivers.find? q).map Receiver.name =
    (program.receivers.find? q).map Receiver.name

/-- A node that gets its code. -/
theorem codes_of_generate (h : plan.generate d n = .ok d') :
  d'.names = d.names ∧ ∃ change, (∀ program, plan.Codes d.names n program (change program)) ∧
    d'.nodes = d.nodes.modify n.id change
  := by
  obtain ⟨i, hi, h⟩ := bind_eq_ok_iff.mp h
  obtain ⟨c, hc, h⟩ := bind_eq_ok_iff.mp h
  obtain ⟨state, -, h⟩ := bind_eq_ok_iff.mp h
  obtain ⟨initialization, -, h⟩ := bind_eq_ok_iff.mp h
  obtain ⟨loop, hloop, h⟩ := bind_eq_ok_iff.mp h
  obtain ⟨loops, hloops, h⟩ := bind_eq_ok_iff.mp h
  obtain ⟨⟨⟩, hinlets, h⟩ := bind_eq_ok_iff.mp h
  obtain ⟨bodies, -, h⟩ := bind_eq_ok_iff.mp h
  obtain ⟨nodes, hnodes, ⟨⟩⟩ := bind_eq_ok_iff.mp h
  refine ⟨rfl, fun program =>
    { program with
      state := state
      initialization := initialization
      loop := loop
      inletLoops := loops
      receivers := program.receivers.map fun q receiver =>
        { receiver with body := bodies.find? q } }, ?_, eq_modify_of_reviseProgram hnodes⟩
  intro program
  constructor
  case loops => exact ⟨i, c, Registry.get_eq_ok_iff.mp hi, hc, hloop, hloops⟩
  case inlets =>
    intro q hq
    obtain ⟨inlet, hinlet, -⟩ := bind_eq_ok_iff.mp (forM_eq_ok_iff.mp hinlets q hq)
    rw [liftPatch_eq_ok_iff, Node.inlet_eq_ok_iff] at hinlet
    rw [← Table.isSome_find?_iff, hinlet]
    rfl
  case senders_eq => rfl
  case receivers_eq =>
    intro q
    rw [Table.find?_map, Option.map_map]
    rfl

/-- All nodes get their code. -/
theorem Sound.codes (hsound : plan.Sound) (h : plan.forNodes d plan.generate = .ok d') :
  d'.names = d.names ∧ ∀ n ∈ plan.patch.nodes, ∀ program, d.nodes.find? n.id = some program →
    ∃ program', d'.nodes.find? n.id = some program' ∧ plan.Codes d.names n program program'
  := by
  have hall : Meets (plan.forNodes d plan.generate)
      (fun d' => d'.names = d.names ∧ (∀ id ∉ plan.order, d'.nodes.find? id = d.nodes.find? id) ∧
        ∀ n ∈ plan.patch.nodes, n.id ∈ plan.order → ∀ program, d.nodes.find? n.id = some program →
          ∃ program', d'.nodes.find? n.id = some program' ∧ plan.Codes d.names n program program')
      (fun _ => True) := by
    apply hsound.meets_forNodes fun done d' => d'.names = d.names ∧
      (∀ id ∉ done, d'.nodes.find? id = d.nodes.find? id) ∧
        ∀ n ∈ plan.patch.nodes, n.id ∈ done → ∀ program, d.nodes.find? n.id = some program →
          ∃ program', d'.nodes.find? n.id = some program' ∧ plan.Codes d.names n program program'
    · exact ⟨rfl, fun _ _ => rfl, by simp⟩
    · rintro done n rest - hnew hn d₁ - ⟨hnames, hkept, hdone⟩
      cases hgenerate : plan.generate d₁ n with
      | error e => trivial
      | ok d₂ =>
          obtain ⟨hnames', change, hchange, hnodes⟩ := codes_of_generate hgenerate
          rw [hnames] at hnames' hchange
          refine ⟨hnames', ?_, ?_⟩
          · intro id hid
            rw [List.mem_append, List.mem_singleton, not_or] at hid
            rw [hnodes, Table.find?_modify, hkept id hid.1]
            simp [hid.2]
          · intro m hm hid program hprogram
            rcases mem_done_or_eq hn hm hid with hmdone | rfl
            · obtain ⟨program', hprogram', hcodes⟩ := hdone m hm hmdone program hprogram
              have hne : m.id ≠ n.id := ne_of_mem_of_not_mem hmdone hnew
              refine ⟨program', ?_, hcodes⟩
              rw [hnodes, Table.find?_modify, hprogram']
              simp [hne]
            · refine ⟨change program, ?_, hchange program⟩
              rw [hnodes, Table.find?_modify, hkept m.id hnew, hprogram]
              simp
  obtain ⟨hnames, -, hcodes⟩ := hall.of_eq_ok h
  exact ⟨hnames, fun n hn => hcodes n hn (hsound.mem_order hn)⟩

/-! ### Functions of cold groups -/

/-- A function of a cold group. -/
theorem of_coldFunction {i : Nat} {g : ColdGroup} {f : ColdFunction}
    (h : plan.coldFunction d i g = .ok f) :
  f.group = g.group ∧ f.sinkEdges = g.sinkEdges ∧
    d.names.coldGroups.get? (toString i) = some f.name ∧
    ∃ loops sinks, g.group.nodes.mapM (plan.nodeCode d.nodes) = .ok loops ∧
      g.sinkEdges.mapM (sinkCode d.nodes) = .ok sinks ∧
      f.function = .ofMessage f.name d.names.globals.message (.concat (loops ++ sinks))
  := by
  obtain ⟨name, hname, h⟩ := bind_eq_ok_iff.mp h
  obtain ⟨loops, hloops, h⟩ := bind_eq_ok_iff.mp h
  obtain ⟨sinks, hsinks, ⟨⟩⟩ := bind_eq_ok_iff.mp h
  rw [liftSymbol_eq_ok_iff, Scope.get_eq_ok_iff] at hname
  exact ⟨rfl, rfl, hname, loops, sinks, hloops, hsinks, rfl⟩

end Plan

/-- The cold group of a function. -/
def ColdFunction.coldGroup (f : ColdFunction) : ColdGroup := ⟨f.group, f.sinkEdges⟩

/-! ### All stages -/

/-- A plan that has come to a program, by way of a draft in which the nodes are wired and one in
which they have their code. -/
structure Plan.ComesTo (plan : Plan Patch) (d d' : Draft) (program : Program) (names : Names) :
    Prop where
  wired : plan.wired = .ok (program.listeners, d)
  callers : plan.callersOf d.names = .ok program.callers
  generated : plan.forNodes d plan.generate = .ok d'
  hotLoop : plan.hotLoop d'.nodes = .ok program.hotLoop
  cold : plan.coldFunctionsOf d' = .ok program.cold
  nodes_eq : program.nodes = d'.nodes
  order_eq : program.order = plan.order
  hot_eq : program.hot = plan.schedule.hot
  sameButGlobal : d'.names.SameButGlobal names

theorem Plan.exists_comesTo (h : plan.compile = .ok (program, names)) :
  ∃ d d', plan.ComesTo d d' program names
  := by
  obtain ⟨⟨listeners, d⟩, hwired, h⟩ := bind_eq_ok_iff.mp h
  obtain ⟨callers, hcallers, h⟩ := bind_eq_ok_iff.mp h
  obtain ⟨d', hgenerated, h⟩ := bind_eq_ok_iff.mp h
  obtain ⟨hotLoop, hhotLoop, h⟩ := bind_eq_ok_iff.mp h
  obtain ⟨cold, hcold, h⟩ := bind_eq_ok_iff.mp h
  obtain ⟨definitions, -, h⟩ := bind_eq_ok_iff.mp h
  obtain ⟨code, -, ⟨⟩⟩ := bind_eq_ok_iff.mp h
  refine ⟨d, d', ?_⟩
  constructor
  case wired => apply hwired
  case callers => apply hcallers
  case generated => apply hgenerated
  case hotLoop => apply hhotLoop
  case cold => apply hcold
  case nodes_eq => rfl
  case order_eq => rfl
  case hot_eq => rfl
  case sameButGlobal => apply Definition.sameButGlobal_fragments

/-- A compilation that has come to a program, by way of a plan, a draft in which the nodes are
wired, and one in which they have their code. -/
structure Compiled (p : Patch) (registry : Registry) (settings : Settings) (plan : Plan Patch)
    (d d' : Draft) (program : Program) (names : Names) : Prop
    extends plan.ComesTo d d' program names where
  isFor : plan.IsFor p registry settings
  sound : plan.Sound
  nameable : plan.AllNameable
  scheduled : Schedule.make plan.patch registry = .ok plan.schedule
  isWired : plan.IsWired d
  listeners_eq : program.listeners = plan.listening

theorem Patch.exists_compiled (hp : p.validate = .ok ())
    (h : p.compile registry settings = .ok (program, names)) :
  ∃ plan d d', Compiled p registry settings plan d d' program names
  := by
  have hcoherent := coherent_of_validate hp
  obtain ⟨⟨⟩, hchecked, h⟩ := bind_eq_ok_iff.mp h
  obtain ⟨plan, hplan, h⟩ := bind_eq_ok_iff.mp h
  have hfit := Settings.fit_of_checkHooks hchecked .inlet
  obtain ⟨hfor, hsound⟩ := (Plan.meets_make hcoherent hfit).of_eq_ok hplan
  obtain ⟨d, d', h⟩ := Plan.exists_comesTo h
  obtain ⟨hlisteners, hisWired, hnameable⟩ := (Plan.meets_wired hfor hsound).of_eq_ok h.wired
  refine ⟨plan, d, d', ?_⟩
  constructor
  case toComesTo => apply h
  case isFor => apply hfor
  case sound => apply hsound
  case nameable => apply hnameable
  case scheduled =>
    obtain ⟨order, -, hplan⟩ := bind_eq_ok_iff.mp hplan
    obtain ⟨-, -, hplan⟩ := bind_eq_ok_iff.mp hplan
    obtain ⟨schedule, hschedule, ⟨⟩⟩ := bind_eq_ok_iff.mp hplan
    apply hschedule
  case isWired => apply hisWired
  case listeners_eq => apply hlisteners

namespace Compiled

variable (h : Compiled p registry settings plan d d' program names)

include h in
/-- The functions of a program are those of the cold groups, in their order. -/
theorem coldFunction_eq :
  program.cold.length = plan.schedule.cold.length ∧
    ∀ i (hi : i < program.cold.length) (hi' : i < plan.schedule.cold.length),
      plan.coldFunction d' i plan.schedule.cold[i] = .ok program.cold[i]
  := by
  have hall := mapM_eq_ok_iff.mp h.cold
  rw [List.forall₂_iff_get] at hall
  obtain ⟨hlength, hall⟩ := hall
  rw [List.length_zipIdx] at hlength
  refine ⟨hlength.symm, ?_⟩
  intro i hi hi'
  have hi := hall i (by simpa using hi') hi
  simpa using hi

include h in
theorem map_coldGroup :
  program.cold.map ColdFunction.coldGroup = plan.schedule.cold
  := by
  obtain ⟨hlength, hfunction⟩ := h.coldFunction_eq
  apply List.ext_getElem
  · rw [List.length_map, hlength]
  · intro i hi hi'
    rw [List.length_map] at hi
    obtain ⟨hgroup, hedges, -⟩ := Plan.of_coldFunction (hfunction i hi hi')
    rw [List.getElem_map, ColdFunction.coldGroup, hgroup, hedges]

include h in
/-- The cold functions have no nodes in common. -/
theorem cold_apart :
  program.cold.Pairwise fun f f' => f.group.nodes.Disjoint f'.group.nodes
  := by
  obtain ⟨cold, harranged⟩ := h.sound.arranged
  have hapart := harranged.grouping.apart
  rw [← h.map_coldGroup, List.pairwise_map] at hapart
  apply hapart

end Compiled

end AudioPatch
