import AudioPatch.Patch.MessageWalk
import AudioPatch.Proofs.Patch.SignalWalk

/-!
# What a walk down the messages finds

The walk lists what its seeds reach through messages, each node once. With what feeds the
pulling nodes these are the nodes that take part in what is compiled.
-/

namespace AudioPatch

open Relation

namespace Patch

variable {p : Patch} {a b : NodeId}

/-- A node sends messages to another one if it has it among the sinks of its message
outlets. -/
def Sends (p : Patch) (a b : NodeId) : Prop :=
  ∃ n, p.find? a = some n ∧ b ∈ n.messageSinks

/-- A node is reached through messages from one of some nodes. -/
def Heard (p : Patch) (seeds : List NodeId) (a : NodeId) : Prop :=
  ∃ seed ∈ seeds, ReflTransGen p.Sends seed a

/-- In a coherent patch messages are sent to nodes of the patch only. -/
theorem Sends.mem_ids_right (hp : p.Coherent) (h : p.Sends a b) :
  b ∈ p.ids
  := by
  obtain ⟨n, hn, hb⟩ := h
  obtain ⟨outlet, -, hb⟩ := List.mem_flatMap.mp hb
  obtain ⟨e, he, rfl⟩ := List.mem_map.mp hb
  obtain ⟨-, m, -, -, hm, -⟩ := hp.sink_inlet (mem_nodes_of_find? hn) he
  apply mem_ids_iff.mpr ⟨m, hm⟩

theorem Heard.mem_ids {seeds : List NodeId} (hp : p.Coherent) (hseeds : ∀ s ∈ seeds, s ∈ p.ids)
    (h : p.Heard seeds a) :
  a ∈ p.ids
  := by
  obtain ⟨seed, hseed, hreach⟩ := h
  cases hreach with
  | refl => apply hseeds _ hseed
  | tail _ hstep => apply hstep.mem_ids_right hp

/-- In a coherent patch the receivers of every node are known. -/
theorem exists_receivers (hp : p.Coherent) (ha : a ∈ p.ids) :
  ∃ n, p.find? a = some n ∧ p.receivers a = .ok n.messageSinks
  := by
  obtain ⟨n, hn⟩ := mem_ids_iff.mp ha
  have hsinks : ∀ s ∈ n.messageSinks, s ∈ p.ids := fun s hs => Sends.mem_ids_right hp ⟨n, hn, hs⟩
  obtain ⟨nodes, hnodes, -⟩ := Meets.never_iff.mp (meets_select hsinks)
  use n, hn
  simp only [receivers, node_eq_ok_iff.mpr hn, hnodes]

/-- What the nodes listed by a walk down the messages are. -/
structure IsMessageOrder (p : Patch) (seeds order : List NodeId) : Prop where
  /-- Each node is listed once. -/
  nodup : order.Nodup
  /-- The seeds are listed and all that they reach. -/
  mem_iff : ∀ id, id ∈ order ↔ p.Heard seeds id

end Patch

namespace MessageWalk

open Patch

variable {p : Patch} {seeds stack reached reached' : List NodeId} {a : NodeId}

/-! ### One seed after the other -/

theorem run_of_receivers {id : NodeId} {sinks : List NodeId} (hid : ¬ reached.contains id)
    (hsinks : p.receivers id = .ok sinks) :
  run p (id :: stack) reached = run p (sinks ++ stack) (id :: reached)
  := by
  rw [run, dif_neg hid]
  split
  · rename_i e he
    cases hsinks.symm.trans he
  · rename_i sinks' hsinks'
    rw [Except.ok.inj (hsinks.symm.trans hsinks')]

theorem run_of_error {id : NodeId} {e : PatchError} (hid : ¬ reached.contains id)
    (he : p.receivers id = .error e) :
  run p (id :: stack) reached = .error e
  := by
  rw [run, dif_neg hid]
  split
  · rename_i e' he'
    rw [← Except.error.inj (he.symm.trans he')]
  · rename_i sinks hsinks
    cases he.symm.trans hsinks

/-- The walk deals with the first nodes of a stack before it comes to the others. -/
theorem run_append (p : Patch) (stack others reached : List NodeId) :
  run p (stack ++ others) reached = run p stack reached >>= run p others
  := by
  fun_induction run p stack reached with
  | case1 reached => rfl
  | case2 reached id stack hid ih => rw [List.cons_append, run, dif_pos hid, ih]
  | case3 reached id stack hid e he =>
      rw [List.cons_append, run_of_error hid he]
      rfl
  | case4 reached id stack hid sinks hsinks _ ih =>
      rw [List.cons_append, run_of_receivers hid hsinks, ← List.append_assoc, ih]

/-- The walk reaches nodes of the patch only. -/
theorem mem_ids_of_reached (h : run p stack reached = .ok reached') (hreached : ∀ a ∈ reached, a ∈ p.ids) :
  ∀ a ∈ reached', a ∈ p.ids
  := by
  fun_induction run p stack reached with
  | case1 reached =>
      obtain rfl := Except.ok.inj h
      apply hreached
  | case2 reached id stack hid ih => apply ih h hreached
  | case3 => cases h
  | case4 reached id stack hid sinks hsinks _ ih =>
      apply ih h
      apply List.forall_mem_cons.mpr ⟨mem_ids_of_receivers hsinks, hreached⟩

/-- To visit seeds one after the other is to have them all wait. -/
theorem foldlM_visitSeed_eq (hreached : ∀ a ∈ reached, a ∈ p.ids) :
  seeds.foldlM (visitSeed p) reached = run p seeds reached
  := by
  induction seeds generalizing reached with
  | nil =>
      rw [List.foldlM_nil, run]
      rfl
  | cons seed rest ih =>
      rw [List.foldlM_cons, ← List.singleton_append, run_append, visitSeed]
      cases hseed : p.node seed with
      | error e =>
          have hnot : seed ∉ reached := by
            intro hmem
            obtain ⟨n, hn⟩ := exists_node (hreached seed hmem)
            cases hseed.symm.trans hn
          have hsinks : p.receivers seed = .error e := by rw [receivers, hseed]
          rw [run_of_error (by simpa using hnot) hsinks]
          rfl
      | ok n =>
          rw [ok_bind]
          cases hrun : run p [seed] reached with
          | error e => rfl
          | ok reached' => apply ih (mem_ids_of_reached hrun hreached)

theorem messageOrder_eq (p : Patch) (seeds : List NodeId) :
  p.messageOrder seeds = (run p seeds []).map List.reverse
  := by
  rw [messageOrder, foldlM_visitSeed_eq (by simp)]

/-! ### What the walk keeps -/

/-- What the walk keeps. -/
structure Inv (p : Patch) (seeds stack reached : List NodeId) : Prop where
  nodup : reached.Nodup
  /-- All that is reached or waits on the stack is heard of. -/
  heard : ∀ a, a ∈ reached ∨ a ∈ stack → p.Heard seeds a
  /-- What a reached node sends to is reached or waits. -/
  closed : ∀ a ∈ reached, ∀ b, p.Sends a b → b ∈ reached ∨ b ∈ stack
  seeded : ∀ a ∈ seeds, a ∈ reached ∨ a ∈ stack

/-- Before the walk all the seeds wait. -/
theorem Inv.start :
  Inv p seeds seeds []
  := by
  constructor
  · apply List.nodup_nil
  · intro a ha
    exact ⟨a, by simpa using ha, ReflTransGen.refl⟩
  · simp
  · intro a ha
    exact .inr ha

/-- A node that is reached already is passed over. -/
theorem Inv.pass (h : Inv p seeds (a :: stack) reached) (ha : a ∈ reached) :
  Inv p seeds stack reached
  := by
  have hwaits : ∀ b, b ∈ reached ∨ b ∈ a :: stack → b ∈ reached ∨ b ∈ stack := by
    intro b hb
    rcases hb with hb | hb
    · exact .inl hb
    · rcases List.mem_cons.mp hb with rfl | hb
      · exact .inl ha
      · exact .inr hb
  constructor
  · apply h.nodup
  · intro b hb
    apply h.heard b
    exact hb.imp_right (List.mem_cons_of_mem a)
  · intro b hb c hc
    apply hwaits c (h.closed b hb c hc)
  · intro b hb
    apply hwaits b (h.seeded b hb)

/-- A new node is reached, and what it sends to waits. -/
theorem Inv.reach (h : Inv p seeds (a :: stack) reached) (ha : a ∉ reached) {n : Node}
    (hn : p.find? a = some n) :
  Inv p seeds (n.messageSinks ++ stack) (a :: reached)
  := by
  have hwaits : ∀ b, b ∈ reached ∨ b ∈ a :: stack →
      b ∈ a :: reached ∨ b ∈ n.messageSinks ++ stack := by
    intro b hb
    simp only [List.mem_cons, List.mem_append] at hb ⊢
    tauto
  constructor
  · apply List.nodup_cons.mpr ⟨ha, h.nodup⟩
  · intro b hb
    by_cases hold : b ∈ reached ∨ b ∈ a :: stack
    · apply h.heard b hold
    · have hsink : b ∈ n.messageSinks := by
        simp only [List.mem_cons, List.mem_append] at hb hold
        tauto
      obtain ⟨seed, hseed, hreach⟩ := h.heard a (.inr List.mem_cons_self)
      exact ⟨seed, hseed, hreach.tail ⟨n, hn, hsink⟩⟩
  · intro b hb c hc
    rcases List.mem_cons.mp hb with rfl | hb
    · obtain ⟨n', hn', hsink⟩ := hc
      obtain rfl := Option.some.inj (hn.symm.trans hn')
      exact .inr (List.mem_append_left stack hsink)
    · apply hwaits c (h.closed b hb c hc)
  · intro b hb
    apply hwaits b (h.seeded b hb)

/-- In a coherent patch the walk comes to an end with nothing waiting. -/
theorem meets_run (hp : p.Coherent) (hseeds : ∀ s ∈ seeds, s ∈ p.ids)
    (h : Inv p seeds stack reached) :
  Meets (run p stack reached) (Inv p seeds []) (fun _ => False)
  := by
  fun_induction run p stack reached with
  | case1 reached => apply h
  | case2 reached a stack ha ih => apply ih (h.pass (List.contains_iff_mem.mp ha))
  | case3 reached a stack ha e hreceivers =>
      have hid := (h.heard a (.inr List.mem_cons_self)).mem_ids hp hseeds
      obtain ⟨n, -, hok⟩ := exists_receivers hp hid
      cases hok.symm.trans hreceivers
  | case4 reached a stack ha sinks hreceivers hlt ih =>
      have hid := (h.heard a (.inr List.mem_cons_self)).mem_ids hp hseeds
      obtain ⟨n, hn, hok⟩ := exists_receivers hp hid
      obtain rfl : n.messageSinks = sinks := Except.ok.inj (hok.symm.trans hreceivers)
      apply ih (h.reach _ hn)
      intro hmem
      apply ha (List.contains_iff_mem.mpr hmem)

/-- A walk with nothing waiting has listed all that the seeds reach. -/
theorem Inv.isMessageOrder (h : Inv p seeds [] reached) :
  p.IsMessageOrder seeds reached.reverse
  := by
  constructor
  · apply List.nodup_reverse.mpr h.nodup
  · intro a
    rw [List.mem_reverse]
    constructor
    · intro ha
      apply h.heard a (.inl ha)
    · rintro ⟨seed, hseed, hreach⟩
      induction hreach with
      | refl => simpa using h.seeded seed hseed
      | tail _ hstep ih => simpa using h.closed _ ih _ hstep

end MessageWalk

namespace Patch

variable {p : Patch} {callers : List NodeId}

/-- In a coherent patch a walk down the messages from nodes of the patch lists what they
reach. -/
theorem meets_messageOrder (hp : p.Coherent) {seeds : List NodeId}
    (hseeds : ∀ s ∈ seeds, s ∈ p.ids) :
  Meets (p.messageOrder seeds) (p.IsMessageOrder seeds) (fun _ => False)
  := by
  rw [MessageWalk.messageOrder_eq, Meets.map_iff]
  apply (MessageWalk.meets_run hp hseeds MessageWalk.Inv.start).imp_good
  intro reached hreached
  apply hreached.isMessageOrder

/-! ### Nodes that take part -/

@[simp]
theorem graph_signalOrder :
  Graph.signalOrder p = p.signalOrder
  := rfl

@[simp]
theorem graph_messageOrder :
  Graph.messageOrder p = p.messageOrder
  := rfl

@[simp]
theorem graph_participants :
  Graph.participants p = p.participants
  := rfl

theorem messageSeeds_eq :
  p.messageSeeds callers =
    callers.foldl (fun seeds id => if seeds.contains id then seeds else seeds ++ [id]) p.pushing
  := rfl

/-- Messages start at the pushing nodes and at the given ones. -/
theorem mem_messageSeeds_iff {a : NodeId} :
  a ∈ p.messageSeeds callers ↔ a ∈ p.pushing ∨ a ∈ callers
  := by
  rw [messageSeeds_eq]
  generalize p.pushing = seeds
  induction callers generalizing seeds with
  | nil => simp
  | cons c rest ih =>
      rw [List.foldl_cons, ih]
      split
      · rename_i hc
        rw [List.contains_iff_mem] at hc
        rw [List.mem_cons]
        constructor
        · tauto
        · rintro (ha | rfl | ha)
          · exact .inl ha
          · exact .inl hc
          · exact .inr ha
      · rw [List.mem_append, List.mem_singleton, List.mem_cons]
        tauto

theorem mem_ids_of_pushing {a : NodeId} (h : a ∈ p.pushing) :
  a ∈ p.ids
  := by
  obtain ⟨n, hn, rfl⟩ := List.mem_map.mp h
  apply List.mem_map_of_mem (List.mem_filter.mp hn).1

theorem mem_ids_of_messageSeeds (hcallers : ∀ c ∈ callers, c ∈ p.ids) :
  ∀ s ∈ p.messageSeeds callers, s ∈ p.ids
  := by
  intro s hs
  rcases mem_messageSeeds_iff.mp hs with hs | hs
  · apply mem_ids_of_pushing hs
  · apply hcallers s hs

/-- If the nodes that are called are there, two walks find what takes part. -/
theorem participants_of_known (hcallers : ∀ c ∈ callers, c ∈ p.ids) :
  p.participants callers = (do
    let messages ← p.messageOrder (p.messageSeeds callers)
    let signals ← p.signalOrder p.pulling fun _ => true
    return messages ++ signals.filter fun id => !messages.contains id)
  := by
  have hknown : callers.forM (Store.require p) = .ok () :=
    forM_eq_ok_iff.mpr fun c hc => require_eq_ok_iff.mpr (hcallers c hc)
  rw [participants, Graph.participants, hknown]
  rfl

/-- What the nodes are that take part, given those that are called. -/
structure IsParticipants (p : Patch) (callers order : List NodeId) : Prop where
  nodup : order.Nodup
  mem_iff : ∀ id, id ∈ order ↔ p.Heard (p.messageSeeds callers) id ∨ p.Pulled id

/-- In a coherent patch the nodes that take part are found, if those that are called are
there. -/
theorem meets_participants (hp : p.Coherent) (hcallers : ∀ c ∈ callers, c ∈ p.ids) :
  Meets (p.participants callers) (p.IsParticipants callers) (fun _ => False)
  := by
  rw [participants_of_known hcallers]
  apply (meets_messageOrder hp (mem_ids_of_messageSeeds hcallers)).bind
  intro messages _ hmessages
  apply (meets_signalOrder hp (fun _ => mem_ids_of_pulling) fun _ => true).bind
  intro signals _ hsignals
  constructor
  · apply List.Nodup.append hmessages.nodup (hsignals.nodup.filter _)
    intro a ha ha'
    have hnot := (List.mem_filter.mp ha').2
    simp [ha] at hnot
  · intro id
    have hpulled : id ∈ signals ↔ p.Pulled id := by
      simp only [hsignals.mem_iff, Pulled, reaches_true_iff]
    rw [List.mem_append, List.mem_filter, hpulled, hmessages.mem_iff]
    by_cases hheard : p.Heard (p.messageSeeds callers) id
    · simp [hheard]
    · have hnot : id ∉ messages := fun hid => hheard ((hmessages.mem_iff id).mp hid)
      simp [hheard, hnot]

/-- The nodes that take part are in the patch. -/
theorem IsParticipants.mem_ids {order : List NodeId} (h : p.IsParticipants callers order)
    (hp : p.Coherent) (hcallers : ∀ c ∈ callers, c ∈ p.ids) {id : NodeId} (hid : id ∈ order) :
  id ∈ p.ids
  := by
  rcases (h.mem_iff id).mp hid with hheard | hpulled
  · apply hheard.mem_ids hp (mem_ids_of_messageSeeds hcallers)
  · apply hpulled.mem_ids hp

/-- The nodes that are called take part. -/
theorem IsParticipants.mem_of_caller {order : List NodeId} (h : p.IsParticipants callers order)
    {id : NodeId} (hid : id ∈ callers) :
  id ∈ order
  := by
  apply (h.mem_iff id).mpr
  exact .inl ⟨id, mem_messageSeeds_iff.mpr (.inr hid), ReflTransGen.refl⟩

end Patch

end AudioPatch
