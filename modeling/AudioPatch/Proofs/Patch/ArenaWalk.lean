import AudioPatch.Patch.ArenaWalk
import AudioPatch.Proofs.Patch.Arena

/-!
# Walks through arenas and patches

A walk through an arena goes from handle to handle, and a walk through a patch from id to id. If
the arena represents the patch, the two go on side by side: the handles on the path are those of
the ids, the bits of the arena are those of the ids that the patch's walk has in its lists, and the
same nodes are listed and asked about. Both fail for the same reason, so no walk through the arena
comes to a handle without a node.
-/

namespace AudioPatch

open List (Forall₂)

/-! ### Handles and bits of ids -/

/-- A handle is the one of an id. -/
def Patch.IsAt (p : Patch) (handle : UInt32) (id : NodeId) : Prop :=
  p.slot? id = some handle.toNat

/-- Among the bits of the nodes, those of some ids are set. -/
def Bits.Marks {cells : Nat} (bits : Bits cells) (p : Patch) (ids : List NodeId) : Prop :=
  ∀ handle id, p.IsAt handle id → (bits.has handle.toNat ↔ id ∈ ids)

namespace Bits.Marks

variable {cells : Nat} {bits : Bits cells} {p : Patch} {ids : List NodeId} {handle : UInt32}
  {id : NodeId}

theorem clear :
  (Bits.clear : Bits cells).Marks p []
  := by
  intro handle id _
  rw [has, Bits.clear, Vector.getElem?_replicate]
  split <;> simp

/-- The bits change as the ids do if they do so at one id. -/
theorem put {ids' : List NodeId} {bit : Bool} (h : bits.Marks p ids) (hat : p.IsAt handle id)
    (hlt : handle.toNat < cells) (hhere : bit ↔ id ∈ ids')
    (helse : ∀ id', id' ≠ id → (id' ∈ ids ↔ id' ∈ ids')) :
  (bits.put handle.toNat bit).Marks p ids'
  := by
  intro handle' id' hat'
  rw [has_put hlt]
  by_cases heq : handle.toNat = handle'.toNat
  · rw [if_pos heq, Patch.eq_of_slot? (hat'.trans (congrArg some heq.symm)) hat]
    exact hhere
  · have hid : id' ≠ id := by
      rintro rfl
      apply heq (Option.some.inj (hat.symm.trans hat'))
    rw [if_neg heq, h handle' id' hat']
    apply helse id' hid

/-- The bit of one more id. -/
theorem set (h : bits.Marks p ids) (hat : p.IsAt handle id) (hlt : handle.toNat < cells) :
  (bits.put handle.toNat true).Marks p (id :: ids)
  := by
  apply h.put hat hlt
  · simp
  · intro id' hid
    simp [hid]

/-- The bit of an id is taken away. -/
theorem reset (h : bits.Marks p (id :: ids)) (hat : p.IsAt handle id) (hid : id ∉ ids)
    (hlt : handle.toNat < cells) :
  (bits.put handle.toNat false).Marks p ids
  := by
  apply h.put hat hlt
  · simp [hid]
  · intro id' hid'
    simp [hid']

end Bits.Marks

/-! ### Looking up -/

/-- A cell and a node have been entered, with the same sources still to look at. -/
structure FrameAt (p : Patch) (f : HandleFrame) (g : Frame) : Prop where
  node : p.IsAt f.handle g.node
  pending : Forall₂ p.IsAt f.pending g.pending

namespace Arena.Represents

variable {a : Arena} {p : Patch} (h : a.Represents p) {handle : UInt32} {id : NodeId}

include h

theorem lt_length (hat : p.IsAt handle id) :
  handle.toNat < a.cells.length
  := by
  rw [h.cells_eq]
  apply Patch.lt_length_of_slot? hat

/-- The handle of an id does not dangle. -/
theorem exists_read (hat : p.IsAt handle id) :
  ∃ n, n.id = id ∧ p.node id = .ok n ∧ Store.read a handle = .ok n
  := by
  obtain ⟨n, hn, rfl⟩ := Patch.slot?_eq_some_iff.mp hat
  have hread : Store.at? a handle = some n := (h.at?_eq handle).trans hn
  use n, rfl, Patch.node_eq_ok_iff.mpr (Patch.find?_eq_some_iff_slot.mpr ⟨handle.toNat, hat, hn⟩)
  rw [Store.read, hread]

/-- An id is looked up in the register where the patch looks for its node. -/
theorem locate_node (id : NodeId) :
  SameOutcome (fun handle _ => p.IsAt handle id) (Store.locate a id) (p.node id)
  := by
  have hslot := h.map_handle? id
  cases hhandle : a.handle? id with
  | none =>
      rw [hhandle, Option.map_none] at hslot
      have hnone : p.find? id = none := by
        rw [Patch.find?_eq_bind_slot?, ← hslot, Option.bind_none]
      rw [Store.locate_of_none hhandle, Patch.node, Store.node, Patch.store_find?, hnone]
      exact .error
  | some handle =>
      rw [hhandle, Option.map_some] at hslot
      have hat : p.IsAt handle id := hslot.symm
      obtain ⟨n, -, hn, -⟩ := h.exists_read hat
      rw [Store.locate_of_some hhandle, hn]
      exact .ok hat

theorem locateAll (ids : List NodeId) :
  SameOutcome (fun handles _ => Forall₂ p.IsAt handles ids) (a.locateAll ids) (p.select ids)
  := by
  induction ids with
  | nil => exact .ok .nil
  | cons id rest ih =>
      rw [Arena.locateAll, Patch.select, Store.select, List.mapM_cons, List.mapM_cons]
      apply (h.locate_node id).bind
      intro handle _ hat
      apply ih.bind
      intro handles _ hats
      exact .ok (.cons hat hats)

theorem enter (hat : p.IsAt handle id) :
  SameOutcome (FrameAt p) (HandleFrame.enter a handle) (Frame.enter p id)
  := by
  obtain ⟨n, -, hn, hread⟩ := h.exists_read hat
  have hsources := h.locateAll n.signalSources
  simp only [HandleFrame.enter, hread, ok_bind, Frame.enter, hn]
  generalize a.locateAll n.signalSources = handles at hsources
  generalize p.select n.signalSources = nodes at hsources
  cases hsources with
  | ok hats => exact .ok ⟨hat, hats⟩
  | error => exact .error

theorem receivers (hat : p.IsAt handle id) :
  ∃ n, n.id = id ∧ Store.read a handle = .ok n ∧
    SameOutcome (Forall₂ p.IsAt) (a.locateAll n.messageSinks) (p.receivers id)
  := by
  obtain ⟨n, hid, hn, hread⟩ := h.exists_read hat
  use n, hid, hread
  have hsinks := h.locateAll n.messageSinks
  simp only [Patch.receivers, hn]
  generalize a.locateAll n.messageSinks = handles at hsinks
  generalize p.select n.messageSinks = nodes at hsinks
  cases hsinks with
  | ok hats => exact .ok hats
  | error => exact .error

end Arena.Represents

/-! ### Up the signals -/

namespace HandleWalk

variable {a : Arena} {p : Patch} {descend : NodeId → Bool} {handle s : UInt32}
  {rest : List UInt32} {handles : List HandleFrame} {w : HandleWalk a.cells.length}
  {v : SignalWalk} {n : Node} {id : NodeId}

theorem run_of_finish (hnew : ¬ w.appended.has handle.toNat)
    (hn : Store.read a handle = .ok n) :
  run a descend (⟨handle, []⟩ :: handles) w = run a descend handles (w.finish handle n.id)
  := by
  rw [run, dif_neg hnew]
  split
  · rename_i e he
    cases hn.symm.trans he
  · rename_i m hm
    rw [Except.ok.inj (hn.symm.trans hm)]

theorem run_of_marks (hs : w.marks s.toNat) :
  run a descend (⟨handle, s :: rest⟩ :: handles) w = run a descend (⟨handle, rest⟩ :: handles) w
  := by
  rw [run, dif_pos hs]

theorem run_of_not_descend (hs : ¬ w.marks s.toNat) (hn : Store.read a s = .ok n)
    (hdescend : ¬ descend n.id) :
  run a descend (⟨handle, s :: rest⟩ :: handles) w
    = run a descend (⟨handle, rest⟩ :: handles) (w.ask n.id)
  := by
  rw [run, dif_neg hs, hn]
  simp only [if_neg hdescend]

theorem run_of_enter {f : HandleFrame} (hs : ¬ w.marks s.toNat) (hn : Store.read a s = .ok n)
    (hdescend : descend n.id) (hf : HandleFrame.enter a s = .ok f) :
  run a descend (⟨handle, s :: rest⟩ :: handles) w
    = run a descend (f :: ⟨handle, rest⟩ :: handles) ((w.enter s).ask n.id)
  := by
  rw [run, dif_neg hs, hn]
  simp only [if_pos hdescend]
  split
  · rename_i e he
    cases hf.symm.trans he
  · rename_i g hg
    rw [Except.ok.inj (hf.symm.trans hg)]

theorem run_of_error {e : PatchError} (hs : ¬ w.marks s.toNat) (hn : Store.read a s = .ok n)
    (hdescend : descend n.id) (he : HandleFrame.enter a s = .error e) :
  run a descend (⟨handle, s :: rest⟩ :: handles) w = .error e
  := by
  rw [run, dif_neg hs, hn]
  simp only [if_pos hdescend]
  split
  · rename_i e' he'
    rw [Except.error.inj (he.symm.trans he')]
  · rename_i g hg
    cases he.symm.trans hg

/-- A walk through an arena has come as far as a walk through a patch that has some nodes on its
path. -/
structure Tracks (p : Patch) (w : HandleWalk a.cells.length) (ids : List NodeId)
    (v : SignalWalk) : Prop where
  appended : w.appended.Marks p v.finished
  onPath : w.onPath.Marks p ids
  /-- The entered nodes are those on the path and the finished ones. -/
  marked : ∀ id, id ∈ v.marked ↔ id ∈ ids ∨ id ∈ v.finished
  /-- No node is on the path twice or finished on the path. -/
  nodup : ids.Nodup
  disjoint : ∀ id ∈ ids, id ∉ v.finished
  finished_eq : w.finished = v.finished
  asked_eq : w.asked = v.asked

namespace Tracks

variable {ids : List NodeId}

theorem start :
  Tracks p ({} : HandleWalk a.cells.length) [] {}
  := by
  constructor
  case appended => exact .clear
  case onPath => exact .clear
  all_goals simp

/-- A cell has been entered if its node has. -/
theorem marks_iff (ht : Tracks p w ids v) (hat : p.IsAt handle id) :
  w.marks handle.toNat ↔ v.marked.contains id
  := by
  rw [marks, Bool.or_eq_true, ht.appended handle id hat, ht.onPath handle id hat,
    List.contains_iff_mem, ht.marked, or_comm]

/-- A node is entered. -/
theorem enter (ht : Tracks p w ids v) (hat : p.IsAt handle id)
    (hlt : handle.toNat < a.cells.length) (hid : ¬ v.marked.contains id) :
  Tracks p (w.enter handle) (id :: ids) { v with marked := id :: v.marked }
  := by
  rw [List.contains_iff_mem, ht.marked, not_or] at hid
  constructor
  case appended => exact ht.appended
  case onPath => exact ht.onPath.set hat hlt
  case marked => simp [ht.marked, or_assoc]
  case nodup => exact ht.nodup.cons hid.1
  case disjoint => exact List.forall_mem_cons.mpr ⟨hid.2, ht.disjoint⟩
  case finished_eq => exact ht.finished_eq
  case asked_eq => exact ht.asked_eq

/-- The last node of the path is finished. -/
theorem finish (ht : Tracks p w (id :: ids) v) (hat : p.IsAt handle id)
    (hlt : handle.toNat < a.cells.length) :
  Tracks p (w.finish handle id) ids { v with finished := id :: v.finished }
  := by
  obtain ⟨hid, hnodup⟩ := List.nodup_cons.mp ht.nodup
  obtain ⟨-, hdisjoint⟩ := List.forall_mem_cons.mp ht.disjoint
  constructor
  case appended => exact ht.appended.set hat hlt
  case onPath => exact ht.onPath.reset hat hid hlt
  case marked =>
    intro id'
    rw [ht.marked, List.mem_cons, List.mem_cons]
    tauto
  case nodup => exact hnodup
  case disjoint =>
    intro id' hid' hmem
    rcases List.mem_cons.mp hmem with rfl | hmem
    · exact hid hid'
    · exact hdisjoint id' hid' hmem
  case finished_eq => exact congrArg (id :: ·) ht.finished_eq
  case asked_eq => exact ht.asked_eq

/-- The walks ask about the same node. -/
theorem ask (ht : Tracks p w ids v) (id : NodeId) :
  Tracks p (w.ask id) ids { v with asked := id :: v.asked }
  := { ht with asked_eq := congrArg (id :: ·) ht.asked_eq }

end Tracks

end HandleWalk

/-- The source that is next is the same. -/
theorem exists_source {p : Patch} {handles : List HandleFrame} {path : List Frame} {id s : NodeId}
    {rest : List NodeId} (h : Forall₂ (FrameAt p) handles (⟨id, s :: rest⟩ :: path)) :
  ∃ handle source pending below, handles = ⟨handle, source :: pending⟩ :: below ∧
    p.IsAt source s ∧ Forall₂ (FrameAt p) (⟨handle, pending⟩ :: below) (⟨id, rest⟩ :: path)
  := by
  obtain ⟨⟨handle, pending⟩, below, ⟨hat, hpending⟩, hbelow, rfl⟩ :=
    List.forall₂_cons_right_iff.mp h
  obtain ⟨source, pending, hsource, hrest, rfl⟩ := List.forall₂_cons_right_iff.mp hpending
  exact ⟨handle, source, pending, below, rfl, hsource, .cons ⟨hat, hrest⟩ hbelow⟩

namespace Arena.Represents

variable {a : Arena} {p : Patch} (h : a.Represents p) {descend : NodeId → Bool}

include h

/-- The loops of the two walks end alike. -/
theorem signalRun {handles : List HandleFrame} {path : List Frame} {v : SignalWalk}
    {w : HandleWalk a.cells.length} (hpath : Forall₂ (FrameAt p) handles path)
    (ht : w.Tracks p (path.map Frame.node) v) :
  SameOutcome (fun w v => w.Tracks p [] v) (HandleWalk.run a descend handles w)
    (SignalWalk.run p descend path v)
  := by
  induction path, v using SignalWalk.run.induct p descend generalizing handles w with
  | case1 v =>
      cases hpath
      rw [HandleWalk.run, SignalWalk.run]
      exact .ok ht
  | case2 v id path ih =>
      obtain ⟨⟨handle, pending⟩, below, ⟨hat, hpending⟩, hbelow, rfl⟩ :=
        List.forall₂_cons_right_iff.mp hpath
      cases hpending
      obtain ⟨n, rfl, -, hread⟩ := h.exists_read hat
      have hnew : ¬ w.appended.has handle.toNat := by
        rw [ht.appended handle n.id hat]
        apply ht.disjoint n.id List.mem_cons_self
      rw [HandleWalk.run_of_finish hnew hread, SignalWalk.run]
      apply ih hbelow
      apply ht.finish hat (h.lt_length hat)
  | case3 v id s rest path hs ih =>
      obtain ⟨handle, source, pending, below, rfl, hsource, hnext⟩ := exists_source hpath
      rw [HandleWalk.run_of_marks ((ht.marks_iff hsource).mpr hs), SignalWalk.run, dif_pos hs]
      apply ih hnext ht
  | case4 v id s rest path hs hdescend e he =>
      obtain ⟨handle, source, pending, below, rfl, hsource, hnext⟩ := exists_source hpath
      obtain ⟨n, rfl, -, hread⟩ := h.exists_read hsource
      have he' := (he ▸ h.enter hsource).eq_error
      rw [HandleWalk.run_of_error ((ht.marks_iff hsource).not.mpr hs) hread hdescend he',
        SignalWalk.run_of_error hs hdescend he]
      exact .error
  | case5 v id s rest path hs hdescend f hf _ ih =>
      obtain ⟨handle, source, pending, below, rfl, hsource, hnext⟩ := exists_source hpath
      obtain ⟨n, rfl, -, hread⟩ := h.exists_read hsource
      obtain ⟨f', hf', hframe⟩ := (hf ▸ h.enter hsource).exists_ok
      rw [HandleWalk.run_of_enter ((ht.marks_iff hsource).not.mpr hs) hread hdescend hf',
        SignalWalk.run_of_enter hs hdescend hf]
      apply ih (.cons hframe hnext)
      rw [List.map_cons, Frame.node_of_enter hf]
      apply (ht.enter hsource (h.lt_length hsource) hs).ask
  | case6 v id s rest path hs hdescend ih =>
      obtain ⟨handle, source, pending, below, rfl, hsource, hnext⟩ := exists_source hpath
      obtain ⟨n, rfl, -, hread⟩ := h.exists_read hsource
      rw [HandleWalk.run_of_not_descend ((ht.marks_iff hsource).not.mpr hs) hread hdescend,
        SignalWalk.run, dif_neg hs, if_neg hdescend]
      apply ih hnext (ht.ask n.id)

theorem signalVisit {v : SignalWalk} {w : HandleWalk a.cells.length} (ht : w.Tracks p [] v)
    (seed : NodeId) :
  SameOutcome (fun w v => w.Tracks p [] v) (HandleWalk.visit a descend w seed)
    (SignalWalk.visit p descend v seed)
  := by
  rw [HandleWalk.visit, SignalWalk.visit]
  apply (h.locate_node seed).bind
  intro handle _ hat
  have hdone : w.appended.has handle.toNat ↔ v.marked.contains seed := by
    rw [ht.appended handle seed hat, List.contains_iff_mem, ht.marked]
    simp
  by_cases hmarked : v.marked.contains seed
  · rw [if_pos (hdone.mpr hmarked), if_pos hmarked]
    exact .ok ht
  · rw [if_neg (hdone.not.mpr hmarked), if_neg hmarked]
    cases hf : Frame.enter p seed with
    | error e =>
        have he := (hf ▸ h.enter hat).eq_error
        rw [he]
        exact .error
    | ok f =>
        obtain ⟨f', hf', hframe⟩ := (hf ▸ h.enter hat).exists_ok
        rw [hf', ok_bind, ok_bind]
        apply h.signalRun (.cons hframe .nil)
        rw [List.map_cons, Frame.node_of_enter hf]
        apply ht.enter hat (h.lt_length hat) hmarked

/-- The walks up the signals go side by side. -/
theorem signalWalk (seeds : List NodeId) :
  SameOutcome (fun w v => w.Tracks p [] v) (a.signalWalk seeds descend)
    (p.signalWalk seeds descend)
  := by
  apply SameOutcome.foldlM .start
  intro seed _ w v ht
  apply h.signalVisit ht

theorem signalOrder_eq :
  a.signalOrder = p.signalOrder
  := by
  funext seeds descend
  apply (h.signalWalk seeds).map_eq
  intro w v ht
  rw [HandleWalk.order, ht.finished_eq, SignalWalk.order]

/-- The walks ask the same questions. -/
theorem map_questions (seeds : List NodeId) :
  (a.signalWalk seeds descend).map HandleWalk.questions =
    (p.signalWalk seeds descend).map SignalWalk.questions
  := by
  apply (h.signalWalk seeds).map_eq
  intro w v ht
  rw [HandleWalk.questions, ht.asked_eq, SignalWalk.questions]

end Arena.Represents

/-! ### Down the messages -/

namespace HandleReach

variable {a : Arena} {handle : UInt32} {handles sinks : List UInt32}
  {w : HandleReach a.cells.length} {n : Node}

theorem run_of_sinks (hnew : ¬ w.reached.has handle.toNat) (hn : Store.read a handle = .ok n)
    (hsinks : a.locateAll n.messageSinks = .ok sinks) :
  run a (handle :: handles) w = run a (sinks ++ handles) (w.add handle n.id)
  := by
  rw [run, dif_neg hnew]
  split
  · rename_i e he
    cases hn.symm.trans he
  · rename_i m hm
    obtain rfl := Except.ok.inj (hn.symm.trans hm)
    rw [hsinks]

theorem run_of_error {e : PatchError} (hnew : ¬ w.reached.has handle.toNat)
    (hn : Store.read a handle = .ok n) (he : a.locateAll n.messageSinks = .error e) :
  run a (handle :: handles) w = .error e
  := by
  rw [run, dif_neg hnew]
  split
  · rename_i e he
    cases hn.symm.trans he
  · rename_i m hm
    obtain rfl := Except.ok.inj (hn.symm.trans hm)
    rw [he]

/-- A walk through an arena has listed the nodes that a walk through a patch has reached. -/
structure Tracks (p : Patch) (w : HandleReach a.cells.length) (ids : List NodeId) : Prop where
  reached : w.reached.Marks p ids
  listed_eq : w.listed = ids

theorem Tracks.has_iff {p : Patch} {ids : List NodeId} {id : NodeId} (ht : w.Tracks p ids)
    (hat : p.IsAt handle id) :
  w.reached.has handle.toNat ↔ ids.contains id
  := by
  rw [ht.reached handle id hat, List.contains_iff_mem]

end HandleReach

namespace Arena.Represents

variable {a : Arena} {p : Patch} (h : a.Represents p)

include h

/-- The loops of the two walks end alike. -/
theorem messageRun {handles : List UInt32} {stack reached : List NodeId}
    {w : HandleReach a.cells.length} (hstack : Forall₂ p.IsAt handles stack)
    (ht : w.Tracks p reached) :
  SameOutcome (HandleReach.Tracks p) (HandleReach.run a handles w)
    (MessageWalk.run p stack reached)
  := by
  induction stack, reached using MessageWalk.run.induct p generalizing handles w with
  | case1 reached =>
      cases hstack
      rw [HandleReach.run, MessageWalk.run]
      exact .ok ht
  | case2 reached id stack hid ih =>
      obtain ⟨handle, handles, hat, hrest, rfl⟩ := List.forall₂_cons_right_iff.mp hstack
      rw [HandleReach.run, dif_pos ((ht.has_iff hat).mpr hid), MessageWalk.run, dif_pos hid]
      apply ih hrest ht
  | case3 reached id stack hid e he =>
      obtain ⟨handle, handles, hat, hrest, rfl⟩ := List.forall₂_cons_right_iff.mp hstack
      obtain ⟨n, rfl, hread, hsinks⟩ := h.receivers hat
      rw [HandleReach.run_of_error ((ht.has_iff hat).not.mpr hid) hread (he ▸ hsinks).eq_error,
        MessageWalk.run_of_error hid he]
      exact .error
  | case4 reached id stack hid sinks hsinks _ ih =>
      obtain ⟨handle, handles, hat, hrest, rfl⟩ := List.forall₂_cons_right_iff.mp hstack
      obtain ⟨n, rfl, hread, hsinks'⟩ := h.receivers hat
      obtain ⟨sinks', hlocated, hats⟩ := (hsinks ▸ hsinks').exists_ok
      rw [HandleReach.run_of_sinks ((ht.has_iff hat).not.mpr hid) hread hlocated,
        MessageWalk.run_of_receivers hid hsinks]
      apply ih (List.rel_append hats hrest)
      exact ⟨ht.reached.set hat (h.lt_length hat), congrArg (n.id :: ·) ht.listed_eq⟩

theorem messageOrder_eq :
  a.messageOrder = p.messageOrder
  := by
  funext seeds
  have hwalk : SameOutcome (HandleReach.Tracks p) (seeds.foldlM (HandleReach.visit a) {})
      (seeds.foldlM (MessageWalk.visitSeed p) []) := by
    apply SameOutcome.foldlM ⟨.clear, rfl⟩
    intro seed _ w reached ht
    apply (h.locate_node seed).bind
    intro handle _ hat
    apply h.messageRun (.cons hat .nil) ht
  apply hwalk.map_eq
  intro w reached ht
  rw [ht.listed_eq]

/-! ### All that is asked of an arena -/

/-- An arena is walked through as the patch is. -/
theorem graph_same :
  Graph.Same a p
  := by
  constructor
  case toSame => exact h.same
  case signalOrder_eq => exact h.signalOrder_eq
  case messageOrder_eq => exact h.messageOrder_eq

end Arena.Represents

end AudioPatch
