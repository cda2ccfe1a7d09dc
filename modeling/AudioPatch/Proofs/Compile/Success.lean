import AudioPatch.Proofs.Compile.Assembly

/-!
# When compilations succeed

If all that it calls gives results, the compilation of a valid patch succeeds exactly if there is
no obstacle, and what stops it otherwise is an obstacle. All that a pass looks up has been
declared before it.
-/

namespace AudioPatch

/-! ### A patch with messages -/

namespace Doorbell

/-- A message portlet with a number. -/
def port (id : PortletId) : PortletId × Portlet := (id, ⟨id, .message⟩)

def button : Node where
  id := "button"
  type := "bang"
  inlets := ⟨[port 0], by decide⟩
  outlets := ⟨[port 0], by decide⟩
  sinks := ⟨[(0, [⟨"chime", 0⟩])], by decide⟩

def chime : Node where
  id := "chime"
  type := "count"
  inlets := ⟨[port 0], by decide⟩
  sources := ⟨[(0, [⟨"button", 0⟩])], by decide⟩

/-- A button that rings a chime. -/
def patch : Patch := ⟨[some button, some chime], by decide⟩

/-- A chime counts how often it rings. -/
def counter : Implementation where
  stateFields := some ["count"]
  state := fun _ => .ok ⟨[("count", .ofText "0")], by decide⟩
  inletLoops := fun _ => .ok ⟨[(0, .ofText "ring()")], by decide⟩

def registry : Registry := ⟨[("bang", {}), ("count", counter)], by decide⟩

/-- The host presses the button, and hears it. -/
def settings : Settings where
  callers := ⟨[("button", [0])], by decide⟩
  listeners := ⟨[("button", [0])], by decide⟩

theorem registered {type : String} {i : Implementation} (h : registry.find? type = some i) :
  (type = "bang" ∧ i = {}) ∨ (type = "count" ∧ i = counter)
  := by
  have hmem := Table.mem_of_find? h
  simpa [registry] using hmem

theorem hooks_eq (side : Side) :
  settings.hooks side = ⟨[("button", [0])], by decide⟩
  := by cases side <;> rfl

end Doorbell

variable {p : Patch} {registry : Registry} {settings : Settings} {plan : Plan Patch} {d : Draft}

/-! ### Compilations with nothing in the way -/

theorem Hooks.Fit.exists_portlet {hooks : Hooks} {side : Side} (h : hooks.Fit p side) {id : NodeId}
    {q : PortletId} {n : Node} (hpair : (id, q) ∈ hooks.pairs) (hn : p.find? id = some n) :
  ∃ portlet, (n.portletsOn side).find? q = some portlet ∧ portlet.kind = .message
  := by
  obtain ⟨portlets, hportlets, hq⟩ := Hooks.mem_pairs_iff.mp hpair
  obtain ⟨n', hn', hall⟩ := h id portlets hportlets
  obtain rfl := Option.some.inj (hn.symm.trans hn')
  apply hall q hq

/-- A patch can be compiled with a registry and settings: the hooks fit, the nodes that take
part can be named and have implementations, and what these answer fits. -/
structure Unobstructed (p : Patch) (registry : Registry) (settings : Settings) : Prop where
  hooks_fit : ∀ side, (settings.hooks side).Fit p side
  hooks_differ : ∀ side n, TakesPart p settings n →
    ∀ portlets, (settings.hooks side).find? n.id = some portlets → portlets.Nodup
  implemented : ∀ n, TakesPart p settings n → n.type ∈ registry.keys
  valid : ∀ n, TakesPart p settings n → isNamePart n.id
  stems_differ : ∀ n m stem, TakesPart p settings n → TakesPart p settings m →
    nodeStem settings.debug n.id n.type = .ok stem →
      nodeStem settings.debug m.id m.type = .ok stem → n.id = m.id
  fields_differ : ∀ n i shape, TakesPart p settings n → registry.find? n.type = some i →
    i.stateFields = some shape → (shape.map canonicalKey).Nodup
  fits : ∀ i c, Sees p registry settings i c → i.Fits c

theorem Unobstructed.no_obstacle (h : Unobstructed p registry settings) (e : CompileError) :
  ¬ Obstacle p registry settings e
  := by
  intro hobstacle
  cases hobstacle with
  | hookWithoutNode side hkey hid =>
      obtain ⟨portlets, hportlets⟩ := Option.isSome_iff_exists.mp (Table.isSome_find?_iff.mpr hkey)
      obtain ⟨n, hn, -⟩ := h.hooks_fit side _ portlets hportlets
      apply hid (Patch.mem_ids_iff.mpr ⟨n, hn⟩)
  | hookWithoutPortlet side hpair hn hq =>
      obtain ⟨portlet, hportlet, -⟩ := (h.hooks_fit side).exists_portlet hpair hn
      rw [← Table.find?_eq_none_iff, hportlet] at hq
      cases hq
  | hookOfSignal side hpair hn hq hkind =>
      obtain ⟨portlet, hportlet, hmessage⟩ := (h.hooks_fit side).exists_portlet hpair hn
      obtain rfl := Option.some.inj (hq.symm.trans hportlet)
      apply hkind hmessage
  | unknownType hpart htype => apply htype (h.implemented _ hpart)
  | invalidId hpart hid =>
      have hvalid := isNamePart_iff.mp (h.valid _ hpart)
      rcases hid with hempty | ⟨c, hc, hnot⟩
      · apply hvalid.1 hempty
      · apply hnot (hvalid.2 c hc)
  | sharedStem hn hm hne hstem hstem' => apply hne (h.stems_differ _ _ _ hn hm hstem hstem')
  | fieldTwice hpart hi hshape htwice =>
      apply List.nodup_iff_sublist.mp (h.fields_differ _ _ _ hpart hi hshape) _ htwice
  | hookTwice side hpart hq htwice =>
      apply List.nodup_iff_sublist.mp (h.hooks_differ side _ hpart _ hq) _ htwice
  | stateWithoutShape hcontext hstate hshape hfields =>
      apply hfields
      apply List.eq_nil_iff_forall_not_mem.mpr
      intro f hf
      obtain ⟨shape, hshape', -⟩ := (h.fits _ _ hcontext).state _ hstate f hf
      rw [hshape] at hshape'
      cases hshape'
  | fieldOutsideShape hcontext hstate hshape hf hout =>
      obtain ⟨shape, hshape', hin⟩ := (h.fits _ _ hcontext).state _ hstate _ hf
      obtain rfl := Option.some.inj (hshape.symm.trans hshape')
      apply hout hin
  | codeWithoutInlet hcontext hloops hq hinlet =>
      apply hinlet ((h.fits _ _ hcontext).loops _ hloops _ hq)

/-! ### Carrying out a plan -/

/-- A plan is carried out: all is nameable, and what the implementations answer fits. -/
structure CarriesOut (p : Patch) (registry : Registry) (settings : Settings) (plan : Plan Patch)
    (d : Draft) : Prop where
  comesTo : Wires p registry settings plan d
  nameable : plan.AllNameable
  fits : ∀ n ∈ plan.patch.nodes, ∀ i c, plan.registry.find? n.type = some i →
    plan.contextOf d.names n = .ok c → i.Fits c

/-- A sound plan is carried out, or there is an obstacle. -/
theorem Plan.meets_compile (hchecked : settings.checkHooks p = .ok ())
    (hmake : Plan.make p registry settings = .ok plan) (hfor : plan.IsFor p registry settings)
    (hsound : plan.Sound) (hresponds : Responds p registry settings) :
  Meets plan.compile (fun _ => ∃ d, CarriesOut p registry settings plan d)
    (Obstacle p registry settings)
  := by
  apply (meets_wired hfor hsound).bind
  rintro ⟨listeners, d⟩ hok ⟨-, hwired, hnameable⟩
  have hcomes : Wires p registry settings plan d := ⟨hchecked, hmake, listeners, hok⟩
  obtain ⟨callers, hcallers⟩ := hwired.exists_callers hsound hnameable.nodes
  simp only [hcallers]
  apply (meets_generated hfor hsound hwired hcomes hresponds).bind
  intro d' hgenerate hd'
  have hprograms : ∀ id ∈ plan.patch.ids, id ∈ d'.nodes.keys := by
    rw [hd'.keys_eq]
    apply hwired.programs
  have hnamed : plan.Named d'.names := by
    rw [hd'.names_eq]
    apply hwired.named
  obtain ⟨hotLoop, hhotLoop⟩ := hsound.exists_hotLoop hprograms
  obtain ⟨cold, hcold⟩ := hsound.exists_coldFunctions hnamed hprograms
  obtain ⟨definitions, hdefinitions⟩ := hsound.exists_definitions
  obtain ⟨kept, hkept⟩ := Definition.exists_fragments
    (hresponds.definitions plan d hcomes d' definitions hgenerate hdefinitions)
  rw [← hfor.settings_eq] at hkept
  obtain ⟨code, hcode⟩ := Definition.exists_instantiate hkept
  simp only [hhotLoop, hcold, hdefinitions]
  show Meets ((Definition.instantiate definitions plan.settings d'.names).1 >>= _) _ _
  rw [hcode]
  use d
  constructor
  · apply hcomes
  · apply hnameable
  · intro n hn
    apply hd'.fits n hn (hsound.mem_order hn)

/-- What an implementation answers fits if the plan is carried out. -/
theorem CarriesOut.fits_of_sees (h : CarriesOut p registry settings plan d)
    (hfor : plan.IsFor p registry settings) {i : Implementation} {c : NodeContext}
    (hsees : Sees p registry settings i c) :
  i.Fits c
  := by
  obtain ⟨plan', d', hcomes, hn, hi, hc⟩ := hsees
  obtain rfl := Except.ok.inj (h.comesTo.planned.symm.trans hcomes.planned)
  obtain ⟨listeners, hok⟩ := h.comesTo.wired
  obtain ⟨listeners', hok'⟩ := hcomes.wired
  obtain ⟨-, rfl⟩ := Prod.mk.inj (Except.ok.inj (hok.symm.trans hok'))
  rw [← hfor.registry_eq] at hi
  apply h.fits c.node hn i c hi hc

/-- A plan is only carried out if nothing is in the way. -/
theorem CarriesOut.unobstructed (h : CarriesOut p registry settings plan d)
    (hfit : ∀ side, (settings.hooks side).Fit p side) (hfor : plan.IsFor p registry settings)
    (hsound : plan.Sound) :
  Unobstructed p registry settings
  := by
  constructor
  case hooks_fit => apply hfit
  case hooks_differ =>
    intro side m hm portlets hportlets
    obtain ⟨n, hn, hid, -⟩ := hfor.exists_node hm
    have hmem := Patch.mem_ids_iff.mpr ⟨n, Patch.find?_of_mem hn⟩
    rw [hid] at hmem
    apply List.nodup_iff_sublist.mpr
    intro q htwice
    have hlisted := (hfor.listed_twice_iff hmem).mpr ⟨portlets, hportlets, htwice⟩
    apply List.nodup_iff_sublist.mp (h.nameable.hooks side) _ hlisted
  case implemented =>
    intro m hm
    obtain ⟨n, hn, -, htype⟩ := hfor.exists_node hm
    obtain ⟨i, hi⟩ := hsound.implemented n hn
    rw [← htype, ← hfor.registry_eq, ← Table.isSome_find?_iff, hi]
    rfl
  case valid =>
    intro m hm
    obtain ⟨n, hn, hid, -⟩ := hfor.exists_node hm
    rw [← hid]
    apply h.nameable.nodes.valid n.id (hsound.mem_order hn)
  case stems_differ =>
    intro m m' stem hm hm' hstem hstem'
    obtain ⟨n, hn, hid, htype⟩ := hfor.exists_node hm
    obtain ⟨n', hn', hid', htype'⟩ := hfor.exists_node hm'
    rw [← hfor.settings_eq, ← hid, ← htype] at hstem
    rw [← hfor.settings_eq, ← hid', ← htype'] at hstem'
    rw [← hid, ← hid']
    apply h.nameable.nodes.stems_differ n hn n' hn' (hsound.mem_order hn) (hsound.mem_order hn')
      stem hstem hstem'
  case fields_differ =>
    intro m i shape hm hi hshape
    obtain ⟨n, hn, -, htype⟩ := hfor.exists_node hm
    rw [← hfor.registry_eq, ← htype] at hi
    apply h.nameable.nodes.fields_differ n hn (hsound.mem_order hn) i shape hi hshape
  case fits =>
    intro i c hsees
    apply h.fits_of_sees hfor hsees

/-! ### Compilations -/

/-- A compilation succeeds if there is no obstacle, and is stopped by one otherwise. -/
theorem Patch.meets_compile (hp : p.Coherent) (hresponds : Responds p registry settings) :
  Meets (p.compile registry settings) (fun _ => ∀ e, ¬ Obstacle p registry settings e)
    (Obstacle p registry settings)
  := by
  apply Settings.meets_checkHooks.bind
  intro _ hchecked hfit
  apply (Plan.meets_make hp (hfit .inlet)).bind
  rintro plan hmake ⟨hfor, hsound⟩
  apply (Plan.meets_compile hchecked hmake hfor hsound hresponds).imp_good
  rintro _ ⟨d, hcarries⟩
  apply (hcarries.unobstructed hfit hfor hsound).no_obstacle

/-- What a plan takes from that of which it is made. -/
theorem Plan.of_make (h : Plan.make p registry settings = .ok plan) :
  ∃ order, plan.patch = p.trim order ∧ plan.registry = registry
  := by
  obtain ⟨order, -, h⟩ := bind_eq_ok_iff.mp h
  obtain ⟨-, -, h⟩ := bind_eq_ok_iff.mp h
  obtain ⟨schedule, -, ⟨⟩⟩ := bind_eq_ok_iff.mp h
  exact ⟨order, rfl, rfl⟩

/-- The plan of a patch whose participants and schedule are known. -/
theorem Plan.make_of_order {order : List NodeId} {schedule : Schedule}
    (horder : p.participants settings.allCallers.keys = .ok order)
    (htypes : ∀ n ∈ (p.trim order).nodes, n.type ∈ registry.keys)
    (hschedule : Schedule.make (p.trim order) registry = .ok schedule) :
  Plan.make p registry settings = .ok ⟨p.trim order, registry, settings, order, schedule,
    settings.allCallers, settings.allListeners⟩
  := by
  have hknown : ((p.trim order).nodes.forM fun n => do let _ ← registry.get n.type) = .ok () := by
    apply forM_eq_ok_iff.mpr
    intro n hn
    obtain ⟨i, hi⟩ := Option.isSome_iff_exists.mp (Table.isSome_find?_iff.mpr (htypes n hn))
    rw [Registry.get_eq_ok_iff.mpr hi]
    rfl
  rw [Plan.make, Patch.graph_participants, horder]
  show (((p.trim order).nodes.forM _ >>= fun _ => Schedule.make (p.trim order) registry >>= _) :
    Except CompileError (Plan Patch)) = _
  rw [hknown, ok_bind, hschedule]
  rfl

/-- Implementations that always answer and need no global code stop nothing. -/
theorem responds_of_total
    (h : ∀ type i, registry.find? type = some i → ∀ c, ∃ fields code loop loops bodies,
      i.state c = .ok fields ∧ i.initialization c = .ok code ∧ i.loop c = .ok loop ∧
        i.inletLoops c = .ok loops ∧ i.receivers c = .ok bodies)
    (hdefinitions : ∀ type i, registry.find? type = some i → i.dependencies = []) :
  Responds p registry settings
  := by
  constructor
  · intro plan d _ before n after d' _ _ _ i c hi _
    obtain ⟨fields, code, loop, loops, bodies, hfields, hcode, hloop, hloops, hbodies⟩ := h _ i hi c
    exact ⟨⟨fields, hfields⟩, fun _ _ => ⟨⟨code, hcode⟩, ⟨loop, hloop⟩, loops, hloops⟩,
      fun _ _ _ _ _ => ⟨bodies, hbodies⟩⟩
  · intro plan d hcomes d' definitions _ hok before definition after kept names hsplit _
    have hused : Meets (plan.order.mapM plan.dependenciesOf)
        (List.Forall₂ (fun _ used => used = []) plan.order) (fun _ => True) := by
      apply Meets.mapM
      intro id _
      apply ((plan.patch.meets_node id).imp (fun _ h => h) fun _ _ => trivial).liftPatch.bind
      intro n _ _
      apply ((plan.registry.meets_get n.type).imp (fun _ h => h) fun _ _ => trivial).bind
      intro i _ hi
      obtain ⟨-, -, hregistry⟩ := Plan.of_make hcomes.planned
      rw [hregistry] at hi
      apply hdefinitions _ i hi
    obtain ⟨used, hok', ⟨⟩⟩ := bind_eq_ok_iff.mp hok
    have hnone : used.flatten = [] := by
      apply List.flatten_eq_nil_iff.mpr
      intro l hl
      obtain ⟨-, -, hnil⟩ := exists_of_mem_forall₂ (hused.of_eq_ok hok').flip hl
      apply hnil
    rw [hnone] at hsplit
    simp [Definition.flattenAll] at hsplit

theorem Doorbell.valid :
  patch.validate = .ok ()
  := rfl

theorem Doorbell.responds :
  Responds patch Doorbell.registry Doorbell.settings
  := by
  apply responds_of_total
  · intro type i hi c
    rcases registered hi with ⟨-, rfl⟩ | ⟨-, rfl⟩
    · exact ⟨_, _, _, _, _, rfl, rfl, rfl, rfl, rfl⟩
    · exact ⟨_, _, _, _, _, rfl, rfl, rfl, rfl, rfl⟩
  · intro type i hi
    rcases registered hi with ⟨-, rfl⟩ | ⟨-, rfl⟩
    · rfl
    · rfl

theorem Doorbell.fits {i : Implementation} {c : NodeContext}
    (h : Sees patch Doorbell.registry Doorbell.settings i c) :
  i.Fits c
  := by
  obtain ⟨plan, d, hcomes, hn, hi, -⟩ := h
  obtain ⟨order, hpatch, -⟩ := Plan.of_make hcomes.planned
  rw [hpatch] at hn
  obtain ⟨m, hm, -, heq⟩ := Patch.mem_nodes_trim_iff.mp hn
  rcases registered hi with ⟨-, rfl⟩ | ⟨htype, rfl⟩
  · constructor
    · rintro _ ⟨⟩ f hf
      cases hf
    · rintro _ ⟨⟩ q hq
      cases hq
  · constructor
    · rintro _ ⟨⟩ f hf
      obtain rfl := List.mem_singleton.mp hf
      exact ⟨["count"], rfl, by simp⟩
    · rintro _ ⟨⟩ q hq
      obtain rfl := List.mem_singleton.mp hq
      have hinlets : ∀ m ∈ patch.nodes, 0 ∈ m.inlets.keys := by decide
      rw [← heq]
      apply hinlets m hm

theorem Doorbell.unobstructed :
  Unobstructed patch Doorbell.registry Doorbell.settings
  := by
  constructor
  case hooks_fit =>
    intro side id portlets h
    rw [hooks_eq] at h
    obtain ⟨rfl, rfl⟩ : id = "button" ∧ portlets = [0] := by simpa using Table.mem_of_find? h
    use button, rfl
    intro q hq
    obtain rfl := List.mem_singleton.mp hq
    use ⟨0, .message⟩
    cases side
    · exact ⟨rfl, rfl⟩
    · exact ⟨rfl, rfl⟩
  case hooks_differ =>
    intro side n _ portlets h
    rw [hooks_eq] at h
    obtain ⟨-, rfl⟩ : n.id = "button" ∧ portlets = [0] := by simpa using Table.mem_of_find? h
    apply List.nodup_singleton
  case implemented =>
    have hall : ∀ n ∈ patch.nodes, n.type ∈ Doorbell.registry.keys := by decide
    intro n hn
    apply hall n hn.1
  case valid =>
    have hall : ∀ n ∈ patch.nodes, isNamePart n.id := by decide
    intro n hn
    apply hall n hn.1
  case stems_differ =>
    have hall : ∀ n ∈ patch.nodes, nodeStem false n.id n.type = .ok n.id := by decide
    intro n m stem hn hm hstem hstem'
    apply Except.ok.inj
    rw [← hall n hn.1, ← hall m hm.1]
    apply hstem.trans hstem'.symm
  case fields_differ =>
    intro n i shape _ hi hshape
    rcases registered hi with ⟨-, rfl⟩ | ⟨-, rfl⟩
    · cases hshape
    · cases hshape
      apply List.nodup_singleton
  case fits =>
    intro i c hsees
    apply Doorbell.fits hsees

end AudioPatch
