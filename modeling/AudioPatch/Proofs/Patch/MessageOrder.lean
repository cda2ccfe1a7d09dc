import AudioPatch.Proofs.ListOrder
import AudioPatch.Proofs.Patch.Agreement
import AudioPatch.Proofs.Patch.SignalOrder

/-!
# Walks down the messages from any seeds

The loop keeps a stack of nodes to go to, on which a node can stand several times, also after it has
been reached. It does what a recursion does that reaches a node and then visits what the node sends
to (`MessageWalk.visit`), so it lists nodes depth first.

The nodes that take part in what is compiled are those of such a walk, and after them those that
only a walk up the signals comes to.
-/

namespace AudioPatch

open Relation

namespace Patch

variable {p : Patch} {a b : NodeId}

/-! ### Connections of a kind -/

/-- A connection of a kind leads from one node to another. -/
def Joins (p : Patch) (kind : PortletKind) (a b : NodeId) : Prop :=
  ∃ e ∈ p.edges, e.source.node = a ∧ e.sink.node = b ∧ p.kindAt? .outlet e.source = some kind

/-- In a coherent patch, what the outlets of a kind feed are the nodes that connections of the kind
lead to. -/
theorem Coherent.joins_iff (hp : p.Coherent) {kind : PortletKind} :
  p.Joins kind a b ↔ ∃ n, p.find? a = some n ∧
    b ∈ (n.outletsOf kind).flatMap fun outlet => (n.sinksAt outlet.id).map Endpoint.node
  := by
  constructor
  · rintro ⟨e, he, rfl, rfl, hkind⟩
    obtain ⟨n, hn, hsink⟩ := mem_edges_iff.mp he
    rw [kindAt?_of_find? hn] at hkind
    obtain ⟨outlet, houtlet, rfl⟩ := Option.map_eq_some_iff.mp hkind
    have hid := hp.outlet_id n (mem_nodes_of_find? hn) _ _ houtlet
    use n, hn
    apply List.mem_flatMap.mpr ⟨outlet, ?_, ?_⟩
    · apply (hp.mem_outletsOf_iff (mem_nodes_of_find? hn)).mpr
      rw [hid]
      exact ⟨houtlet, rfl⟩
    · rw [hid]
      apply List.mem_map_of_mem hsink
  · rintro ⟨n, hn, hb⟩
    obtain ⟨outlet, houtlet, hb⟩ := List.mem_flatMap.mp hb
    obtain ⟨far, hfar, rfl⟩ := List.mem_map.mp hb
    obtain ⟨hfind, hkind⟩ := (hp.mem_outletsOf_iff (mem_nodes_of_find? hn)).mp houtlet
    refine ⟨⟨⟨a, outlet.id⟩, far⟩, mem_edges_iff.mpr ⟨n, hn, hfar⟩, rfl, rfl, ?_⟩
    rw [kindAt?_of_find? hn, Node.kindAt?, hfind, Option.map_some, hkind]

/-- Messages are sent along connections of messages. -/
theorem Coherent.sends_iff_joins (hp : p.Coherent) :
  p.Sends a b ↔ p.Joins .message a b
  := hp.joins_iff.symm

/-- Signals are fed along connections of signals. -/
theorem Coherent.feeds_iff_joins (hp : p.Coherent) :
  p.Feeds a b ↔ p.Joins .signal a b
  := by
  rw [feeds_iff_mem_signalSinks hp]
  apply hp.joins_iff.symm

theorem Coherent.heard_iff (hp : p.Coherent) {seeds : List NodeId} :
  p.Heard seeds a ↔ ∃ seed ∈ seeds, ReflTransGen (p.Joins .message) seed a
  := by
  have hjoins : p.Sends = p.Joins .message := by
    funext a b
    apply propext hp.sends_iff_joins
  rw [Heard, hjoins]

theorem Coherent.pulled_iff (hp : p.Coherent) :
  p.Pulled a ↔ ∃ c ∈ p.pulling, ReflTransGen (p.Joins .signal) a c
  := by
  have hjoins : p.Feeds = p.Joins .signal := by
    funext a b
    apply propext hp.feeds_iff_joins
  rw [Pulled, Upstream, hjoins]

/-! ### Visiting -/

/-- The nodes that a node sends messages to, outlet by outlet. -/
def sinksOf (p : Patch) (id : NodeId) : List NodeId := p.nextOf Node.messageSinks id

theorem mem_sinksOf_iff :
  b ∈ p.sinksOf a ↔ p.Sends a b
  := mem_nextOf_iff

/-- In a coherent patch the receivers of a node are those that it sends to. -/
theorem Coherent.receivers_eq (hp : p.Coherent) (ha : a ∈ p.ids) :
  p.receivers a = .ok (p.sinksOf a)
  := by
  obtain ⟨n, hn, hreceivers⟩ := exists_receivers hp ha
  rw [hreceivers, sinksOf, nextOf_of_find? hn]

end Patch

namespace MessageWalk

open Patch

variable {p : Patch}

mutual

/-- Visits a node, unless it has been reached: reaches it, and then visits what it sends to. -/
def visit (p : Patch) (id : NodeId) (reached : List NodeId) :
    Further p (fun reached => reached) reached :=
  if hid : reached.contains id then ⟨reached, Nat.le_refl _⟩
  else
    have := p.lex_nextOf Node.messageSinks hid
    Further.trans ⟨id :: reached, p.countOutside_cons_le id reached⟩
      (visitAll p (p.sinksOf id) (id :: reached))
termination_by (p.countOutside reached, 1)
decreasing_by assumption

/-- Visits nodes one after the other. -/
def visitAll (p : Patch) (ids reached : List NodeId) :
    Further p (fun reached => reached) reached :=
  match ids with
  | [] => ⟨reached, Nat.le_refl _⟩
  | id :: rest =>
      let first := visit p id reached
      have := first.le
      first.trans (visitAll p rest first.val)
termination_by (p.countOutside reached, 2 * ids.length)
decreasing_by
  · exact Prod.Lex.right _ (by simp; omega)
  · exact Prod.Lex.right' _ this (by simp)

end

/-- The nodes that the recursion reaches from the seeds, visited one after the other, in the order
in which it reaches them. -/
def recursive (p : Patch) (seeds : List NodeId) : List NodeId := (visitAll p seeds []).val.reverse

variable {id : NodeId} {ids reached : List NodeId}

theorem visit_of_reached (hid : reached.contains id) :
  (visit p id reached).val = reached
  := by
  rw [visit, dif_pos hid]

theorem visit_of_new (hid : ¬ reached.contains id) :
  (visit p id reached).val = (visitAll p (p.sinksOf id) (id :: reached)).val
  := by
  rw [visit, dif_neg hid]
  rfl

theorem visitAll_nil :
  (visitAll p [] reached).val = reached
  := by
  rw [visitAll]

theorem visitAll_cons :
  (visitAll p (id :: ids) reached).val = (visitAll p ids (visit p id reached).val).val
  := by
  rw [visitAll]
  rfl

theorem visitAll_append {ids' : List NodeId} :
  (visitAll p (ids ++ ids') reached).val = (visitAll p ids' (visitAll p ids reached).val).val
  := by
  induction ids generalizing reached with
  | nil => rw [List.nil_append, visitAll_nil]
  | cons id rest ih => rw [List.cons_append, visitAll_cons, visitAll_cons, ih]

/-! ### The loop and the recursion -/

/-- The loop deals with the nodes on top of its stack as the recursion does, and then goes on with
the rest of the stack. -/
theorem run_eq_run_visit (hp : p.Coherent) :
  (∀ id reached, id ∈ p.ids → ∀ stack,
    run p (id :: stack) reached = run p stack (visit p id reached).val) ∧
  ∀ ids reached, (∀ id ∈ ids, id ∈ p.ids) → ∀ stack,
    run p (ids ++ stack) reached = run p stack (visitAll p ids reached).val
  := by
  apply visit.mutual_induct
  case case1 =>
    intro id reached hid _ stack
    rw [visit_of_reached hid, run, dif_pos hid]
  case case2 =>
    intro id reached hid _ ih hmem stack
    have hsinks : ∀ s ∈ p.sinksOf id, s ∈ p.ids := fun s hs =>
      (mem_sinksOf_iff.mp hs).mem_ids_right hp
    rw [run_of_receivers hid (hp.receivers_eq hmem), ih hsinks, visit_of_new hid]
  case case3 =>
    intro reached _ stack
    rw [visitAll_nil, List.nil_append]
  case case4 =>
    intro reached id rest first _ ihfirst ihrest hmem stack
    obtain ⟨hid, hrest⟩ := List.forall_mem_cons.mp hmem
    rw [List.cons_append, ihfirst hid, ihrest hrest, visitAll_cons]

/-- From nodes of the patch the loop comes to an end, with what the recursion reaches. -/
theorem run_eq_visitAll (hp : p.Coherent) (hids : ∀ id ∈ ids, id ∈ p.ids) :
  run p ids reached = .ok (visitAll p ids reached).val
  := by
  have hrun := (run_eq_run_visit hp).2 ids reached hids []
  rw [List.append_nil] at hrun
  rw [hrun, run]

/-- A walk that comes to an end knows all the nodes on its stack. -/
theorem mem_ids_of_run {stack order : List NodeId} (h : run p stack reached = .ok order)
    (hreached : ∀ a ∈ reached, a ∈ p.ids) :
  ∀ a ∈ stack, a ∈ p.ids
  := by
  fun_induction run p stack reached with
  | case1 reached => simp
  | case2 reached id stack hid ih =>
      rw [List.forall_mem_cons]
      constructor
      · apply hreached id (List.contains_iff_mem.mp hid)
      · apply ih h hreached
  | case3 reached id stack hid e he => cases h
  | case4 reached id stack hid sinks hsinks _ ih =>
      have hmem := mem_ids_of_receivers hsinks
      rw [List.forall_mem_cons]
      constructor
      · apply hmem
      · intro a ha
        apply ih h (List.forall_mem_cons.mpr ⟨hmem, hreached⟩) a (List.mem_append_right sinks ha)

end MessageWalk

/-! ### A patch with messages that meet -/

namespace Relay

/-- The metro starts messages, and is started over by the counter. -/
def metro : Node :=
  { id := "metro", type := "metro", pushes := true
    inlets := .ofList [(0, ⟨0, .message⟩)]
    outlets := .ofList [(0, ⟨0, .message⟩), (1, ⟨1, .message⟩)]
    sources := .ofList [(0, [⟨"count", 0⟩])]
    sinks := .ofList [(0, [⟨"fade", 0⟩, ⟨"tone", 0⟩]), (1, [⟨"count", 0⟩])] }

def fade : Node :=
  { id := "fade", type := "line"
    inlets := .ofList [(0, ⟨0, .message⟩)], outlets := .ofList [(0, ⟨0, .message⟩)]
    sources := .ofList [(0, [⟨"metro", 0⟩])], sinks := .ofList [(0, [⟨"count", 0⟩])] }

def count : Node :=
  { id := "count", type := "counter"
    inlets := .ofList [(0, ⟨0, .message⟩)], outlets := .ofList [(0, ⟨0, .message⟩)]
    sources := .ofList [(0, [⟨"metro", 1⟩, ⟨"fade", 0⟩])], sinks := .ofList [(0, [⟨"metro", 0⟩])] }

def knob : Node :=
  { id := "knob", type := "slider"
    inlets := .ofList [(0, ⟨0, .message⟩)], outlets := .ofList [(0, ⟨0, .message⟩)]
    sinks := .ofList [(0, [⟨"tone", 0⟩])] }

/-- The tone takes messages and makes a signal. -/
def tone : Node :=
  { id := "tone", type := "osc~"
    inlets := .ofList [(0, ⟨0, .message⟩)], outlets := .ofList [(0, ⟨0, .signal⟩)]
    sources := .ofList [(0, [⟨"metro", 0⟩, ⟨"knob", 0⟩])], sinks := .ofList [(0, [⟨"mix", 0⟩])] }

def noise : Node :=
  { id := "noise", type := "noise~"
    outlets := .ofList [(0, ⟨0, .signal⟩)], sinks := .ofList [(0, [⟨"mix", 1⟩])] }

def mix : Node :=
  { id := "mix", type := "+~"
    inlets := .ofList [(0, ⟨0, .signal⟩), (1, ⟨1, .signal⟩)]
    outlets := .ofList [(0, ⟨0, .signal⟩)]
    sources := .ofList [(0, [⟨"tone", 0⟩]), (1, [⟨"noise", 0⟩])]
    sinks := .ofList [(0, [⟨"speaker", 0⟩])] }

def speaker : Node :=
  { id := "speaker", type := "dac~", pulls := true
    inlets := .ofList [(0, ⟨0, .signal⟩)], sources := .ofList [(0, [⟨"mix", 0⟩])] }

def patch : Patch :=
  ⟨[some metro, some fade, some count, some knob, some tone, some noise, some mix, some speaker],
    by decide⟩

theorem valid :
  patch.validate = .ok ()
  := rfl

end Relay

namespace Patch

open MessageWalk

variable {p : Patch} {seeds callers : List NodeId}

/-! ### What the walk comes to -/

theorem messageOrder_of_known (hp : p.Coherent) (hseeds : ∀ s ∈ seeds, s ∈ p.ids) :
  p.messageOrder seeds = .ok (recursive p seeds)
  := by
  rw [messageOrder_eq, run_eq_visitAll hp hseeds]
  rfl

theorem isMessageOrder_recursive (hp : p.Coherent) (hseeds : ∀ s ∈ seeds, s ∈ p.ids) :
  p.IsMessageOrder seeds (recursive p seeds)
  := (meets_messageOrder hp hseeds).of_eq_ok (messageOrder_of_known hp hseeds)

/-- In a coherent patch a walk comes to an end exactly if it knows all its seeds. -/
theorem messageOrder_ok_iff (hp : p.Coherent) :
  (∃ order, p.messageOrder seeds = .ok order) ↔ ∀ s ∈ seeds, s ∈ p.ids
  := by
  constructor
  · rintro ⟨order, horder⟩
    rw [messageOrder_eq] at horder
    obtain ⟨reached, hrun, -⟩ := map_eq_ok_iff.mp horder
    apply mem_ids_of_run hrun
    simp
  · intro hseeds
    exact ⟨_, messageOrder_of_known hp hseeds⟩

/-- In a patch that passes the check, a walk down the messages fails exactly if a seed is missing.
Otherwise it lists what the recursion lists, which goes through the outlets of a node by increasing
number: the nodes that connections of messages lead to from the seeds, each once. -/
theorem messageOrder_eq_recursive (hp : p.validate = .ok ()) (seeds : List NodeId) :
  ((∃ e, p.messageOrder seeds = .error e) ↔ ∃ s ∈ seeds, s ∉ p.ids) ∧
    (∀ n ∈ p.nodes, ((n.outletsOf .message).map Portlet.id).Pairwise (· < ·)) ∧
    ∀ order, p.messageOrder seeds = .ok order →
      order = recursive p seeds ∧ order.Nodup ∧
      ∀ id, id ∈ order ↔ ∃ seed ∈ seeds, ReflTransGen (p.Joins .message) seed id
  := by
  have hcoherent := coherent_of_validate hp
  refine ⟨?_, ?_, ?_⟩
  · rw [exists_error_iff, messageOrder_ok_iff hcoherent]
    simp
  · intro n hn
    apply Portlets.ascending_ids (hcoherent.outlet_id n hn)
  · intro order horder
    have hseeds := (messageOrder_ok_iff hcoherent).mp ⟨order, horder⟩
    obtain rfl := Except.ok.inj ((messageOrder_of_known hcoherent hseeds).symm.trans horder)
    have h := isMessageOrder_recursive hcoherent hseeds
    refine ⟨rfl, h.nodup, ?_⟩
    intro id
    rw [h.mem_iff, hcoherent.heard_iff]

/-- The counter is reached through the fade, before the tone, though the metro puts both on the
stack. -/
theorem messageOrder_eq_recursive_relay :
  Relay.patch.validate = .ok () ∧
    Relay.patch.messageOrder ["knob", "metro", "knob"] =
      .ok ["knob", "tone", "metro", "fade", "count"] ∧
    recursive Relay.patch ["knob", "metro", "knob"] = ["knob", "tone", "metro", "fade", "count"] ∧
    ¬ ∃ seed ∈ ["knob", "metro", "knob"], ReflTransGen (Relay.patch.Joins .message) seed "mix"
  := by
  have horder : Relay.patch.messageOrder ["knob", "metro", "knob"] =
      .ok ["knob", "tone", "metro", "fade", "count"] := by cbv
  obtain ⟨-, -, hlists⟩ := messageOrder_eq_recursive Relay.valid ["knob", "metro", "knob"]
  obtain ⟨hrecursive, -, hreached⟩ := hlists _ horder
  refine ⟨Relay.valid, horder, hrecursive.symm, ?_⟩
  rw [← hreached]
  decide

/-! ### Nodes that take part -/

/-- A seed that is listed again changes nothing. -/
theorem visitAll_of_mem (hp : p.Coherent) (hseeds : ∀ s ∈ seeds, s ∈ p.ids) {s : NodeId}
    (hs : s ∈ seeds) (rest : List NodeId) :
  (visitAll p (seeds ++ s :: rest) []).val = (visitAll p (seeds ++ rest) []).val
  := by
  have hreached : (visitAll p seeds []).val.contains s := by
    rw [List.contains_iff_mem, ← List.mem_reverse]
    apply ((isMessageOrder_recursive hp hseeds).mem_iff s).mpr
    exact ⟨s, hs, ReflTransGen.refl⟩
  rw [visitAll_append, visitAll_append, visitAll_cons, visit_of_reached hreached]

/-- The called nodes are seeds after the pushing ones; that none is listed twice plays no part. -/
theorem recursive_messageSeeds (hp : p.Coherent) (hcallers : ∀ c ∈ callers, c ∈ p.ids) :
  recursive p (p.messageSeeds callers) = recursive p (p.pushing ++ callers)
  := by
  have hpushing : ∀ a ∈ p.pushing, a ∈ p.ids := fun a => mem_ids_of_pushing
  rw [recursive, recursive, messageSeeds_eq]
  generalize p.pushing = seeds at hpushing
  induction callers generalizing seeds with
  | nil => rw [List.foldl_nil, List.append_nil]
  | cons c rest ih =>
      obtain ⟨hc, hrest⟩ := List.forall_mem_cons.mp hcallers
      rw [List.foldl_cons]
      split
      · rename_i hmem
        rw [ih hrest seeds hpushing, visitAll_of_mem hp hpushing (List.contains_iff_mem.mp hmem)]
      · have hseeds : ∀ a ∈ seeds ++ [c], a ∈ p.ids :=
          List.forall_mem_append.mpr ⟨hpushing, by simpa using hc⟩
        rw [ih hrest (seeds ++ [c]) hseeds, List.append_assoc, List.singleton_append]

theorem participants_ok_iff (hp : p.Coherent) :
  (∃ order, p.participants callers = .ok order) ↔ ∀ c ∈ callers, c ∈ p.ids
  := by
  constructor
  · rintro ⟨order, horder⟩
    obtain ⟨⟨⟩, hknown, -⟩ := bind_eq_ok_iff.mp horder
    intro c hc
    apply require_eq_ok_iff.mp (forM_eq_ok_iff.mp hknown c hc)
  · intro hcallers
    obtain ⟨order, horder, -⟩ := Meets.never_iff.mp (meets_participants hp hcallers)
    use order

/-- In a patch that passes the check, the nodes that take part are found exactly if the called nodes
are there. They are the nodes that messages reach from the pushing and the called ones, in the order
in which a walk down comes to them, and after these the others that signals lead from to a pulling
node, in the order of the walk up. -/
theorem participants_lists_reached (hp : p.validate = .ok ()) (callers : List NodeId) :
  ((∃ e, p.participants callers = .error e) ↔ ∃ c ∈ callers, c ∉ p.ids) ∧
    ∀ order, p.participants callers = .ok order →
      order.Nodup ∧
      (∀ id, id ∈ order ↔
        (∃ a, (a ∈ p.pushing ∨ a ∈ callers) ∧ ReflTransGen (p.Joins .message) a id) ∨
          ∃ c ∈ p.pulling, ReflTransGen (p.Joins .signal) id c) ∧
      ∃ messages signals,
        p.messageOrder (p.pushing ++ callers) = .ok messages ∧
        p.signalOrder p.pulling (fun _ => true) = .ok signals ∧
        order = messages ++ signals.filter (· ∉ messages)
  := by
  have hcoherent := coherent_of_validate hp
  constructor
  · rw [exists_error_iff, participants_ok_iff hcoherent]
    simp
  · intro order horder
    have hcallers := (participants_ok_iff hcoherent).mp ⟨order, horder⟩
    have h := (meets_participants hcoherent hcallers).of_eq_ok horder
    refine ⟨h.nodup, ?_, ?_⟩
    · intro id
      rw [h.mem_iff, hcoherent.heard_iff, hcoherent.pulled_iff]
      simp only [mem_messageSeeds_iff]
    · have hseeds := mem_ids_of_messageSeeds hcallers
      have hknown : ∀ a ∈ p.pushing ++ callers, a ∈ p.ids :=
        List.forall_mem_append.mpr ⟨fun a => mem_ids_of_pushing, hcallers⟩
      rw [participants_of_known hcallers] at horder
      obtain ⟨messages, hmessages, horder⟩ := bind_eq_ok_iff.mp horder
      obtain ⟨signals, hsignals, horder⟩ := bind_eq_ok_iff.mp horder
      refine ⟨messages, signals, ?_, hsignals, ?_⟩
      · rw [messageOrder_of_known hcoherent hknown, ← recursive_messageSeeds hcoherent hcallers,
          ← messageOrder_of_known hcoherent hseeds, hmessages]
      · rw [← Except.ok.inj horder]
        simp

/-- The tone is reached by messages and also feeds the speaker: it stands among the former. The
metro is called, too, and listed once. -/
theorem participants_lists_reached_relay :
  Relay.patch.validate = .ok () ∧
    Relay.patch.participants ["knob", "metro"] =
      .ok ["metro", "fade", "count", "tone", "knob", "noise", "mix", "speaker"] ∧
    ∃ messages signals,
      Relay.patch.messageOrder ["metro", "knob", "metro"] = .ok messages ∧
      Relay.patch.signalOrder ["speaker"] (fun _ => true) = .ok signals ∧
      ["metro", "fade", "count", "tone", "knob", "noise", "mix", "speaker"] =
        messages ++ signals.filter (· ∉ messages)
  := by
  have horder : Relay.patch.participants ["knob", "metro"] =
      .ok ["metro", "fade", "count", "tone", "knob", "noise", "mix", "speaker"] := by cbv
  obtain ⟨-, hlists⟩ := participants_lists_reached Relay.valid ["knob", "metro"]
  obtain ⟨-, -, hsplit⟩ := hlists _ horder
  exact ⟨Relay.valid, horder, hsplit⟩

end Patch

end AudioPatch
