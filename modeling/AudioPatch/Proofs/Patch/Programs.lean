import AudioPatch.Patch.Edit
import AudioPatch.Proofs.Patch.Slots

/-!
# Programs that change patches in place

A program on a store asks and changes the store step by step. What it comes to is put together from
what its steps come to. A program is *atomic* at a store if it leaves the store as it was whenever
it is refused; it is so far as it only asks, and from where on nothing can be refused any more.
-/

namespace AudioPatch

namespace Store

variable {σ α β : Type} {s s' : σ} {a : α} {e : PatchError}

/-! ### Steps of a program -/

section Steps

variable {x : EStateM PatchError σ α} {f : α → EStateM PatchError σ β}
  {question : σ → Except PatchError α}

theorem bind_of_ok (h : x s = .ok a s') :
  (x >>= f) s = f a s'
  := by
  show EStateM.bind x f s = _
  rw [EStateM.bind, h]

theorem bind_of_error (h : x s = .error e s') :
  (x >>= f) s = .error e s'
  := by
  show EStateM.bind x f s = _
  rw [EStateM.bind, h]

theorem ask_of_ok (h : question s = .ok a) :
  ask question s = .ok a s
  := by
  rw [ask, h]

theorem ask_of_error (h : question s = .error e) :
  ask question s = .error e s
  := by
  rw [ask, h]

theorem outcome_of_ok (h : x s = .ok a s') :
  outcome x s = .ok (a, s')
  := by
  rw [outcome, h]

theorem outcome_of_error (h : x s = .error e s') :
  outcome x s = .error e
  := by
  rw [outcome, h]

theorem outcome_eq_ok_iff :
  outcome x s = .ok (a, s') ↔ x s = .ok a s'
  := by
  rw [outcome]
  cases x s <;> simp

theorem outcome_eq_error_iff :
  outcome x s = .error e ↔ ∃ s', x s = .error e s'
  := by
  rw [outcome]
  cases x s <;> simp

/-- A question that is not answered ends a program. -/
theorem outcome_ask_bind :
  outcome (ask question >>= f) s = (question s >>= fun a => outcome (f a) s)
  := by
  cases h : question s with
  | ok a => rw [outcome, bind_of_ok (ask_of_ok h), ok_bind, outcome]
  | error e =>
      rw [outcome, bind_of_error (ask_of_error h)]
      rfl

/-- What a program answers can be passed over. -/
theorem outcome_bind_pure {g : α → β} :
  outcome (x >>= fun a => pure (g a)) s = (outcome x s).map fun r => (g r.1, r.2)
  := by
  cases h : x s with
  | ok a s' =>
      rw [outcome, bind_of_ok h, outcome_of_ok h]
      rfl
  | error e s' =>
      rw [outcome, bind_of_error h, outcome, h]
      rfl

theorem add_of_contains {κ : Type} [Store σ κ] {n : Node} (h : contains s n.id) :
  add n s = .error (.duplicateNode n.id) s
  := bind_of_error (ask_of_error (insert_of_contains (n := n.bare) h))

theorem add_of_not_contains {κ : Type} [Store σ κ] {n : Node} (h : ¬ contains s n.id) :
  add n s = .ok (push s n.bare h).1 (push s n.bare h).2
  := bind_of_ok (ask_of_ok (insert_of_not_contains (n := n.bare) h))

end Steps

/-! ### Atomic programs -/

/-- A program that is refused leaves the store as it was. -/
def Atomic (x : EStateM PatchError σ α) (s : σ) : Prop := ∀ e s', x s = .error e s' → s' = s

namespace Atomic

variable {x : EStateM PatchError σ α} {f : α → EStateM PatchError σ β}
  {question : σ → Except PatchError α}

theorem of_ok (h : x s = .ok a s') :
  Atomic x s
  := by
  intro e s'' he
  cases h.symm.trans he

theorem throw (e : PatchError) :
  Atomic (MonadExcept.throw e : EStateM PatchError σ α) s
  := by
  rintro e' s' ⟨⟩
  rfl

theorem ask_bind (h : ∀ a, question s = .ok a → Atomic (f a) s) :
  Atomic (ask question >>= f) s
  := by
  intro e s' he
  cases hq : question s with
  | ok a =>
      rw [bind_of_ok (ask_of_ok hq)] at he
      apply h a hq e s' he
  | error e' =>
      rw [bind_of_error (ask_of_error hq)] at he
      cases he
      rfl

theorem bind_pure (h : Atomic x s) (g : α → β) :
  Atomic (x >>= fun a => pure (g a)) s
  := by
  intro e s' he
  cases hx : x s with
  | ok a s'' =>
      rw [bind_of_ok hx] at he
      cases he
  | error e' s'' =>
      rw [bind_of_error hx] at he
      cases he
      apply h e s' hx

end Atomic

/-- An atomic program leaves what it makes, or what it was given. -/
theorem left_eq {x : EStateM PatchError σ α} (h : Atomic x s) :
  left x s = ((outcome x s).map Prod.snd).toOption.getD s
  := by
  rw [left, outcome]
  cases hx : x s with
  | ok a s' => rfl
  | error e s' => apply h e s' hx

/-! ### Programs that follow others -/

section Following

variable {τ γ δ : Type} {R R' : σ → τ → Prop} {r : α → β → Prop} {r' : γ → δ → Prop} {t : τ}

/-- Two programs end alike: with answers that are related, or refused for the same reason, and in
both cases with stores that are related. -/
inductive Alike (R : σ → τ → Prop) (r : α → β → Prop) :
    EStateM.Result PatchError σ α → EStateM.Result PatchError τ β → Prop where
  | ok {a : α} {b : β} {s : σ} {t : τ} (hr : r a b) (hR : R s t) : Alike R r (.ok a s) (.ok b t)
  | error {e : PatchError} {s : σ} {t : τ} (hR : R s t) : Alike R r (.error e s) (.error e t)

/-- From stores that are related, two programs end alike. -/
def Follows (R : σ → τ → Prop) (r : α → β → Prop) (x : EStateM PatchError σ α)
    (y : EStateM PatchError τ β) : Prop :=
  ∀ s t, R s t → Alike R r (x s) (y t)

namespace Alike

variable {x : EStateM PatchError σ α} {y : EStateM PatchError τ β}

theorem bind {f : α → EStateM PatchError σ γ} {g : β → EStateM PatchError τ δ}
    (h : Alike R r (x s) (y t)) (hR : ∀ s t, R s t → R' s t)
    (hf : ∀ a b s t, r a b → R s t → Alike R' r' (f a s) (g b t)) :
  Alike R' r' ((x >>= f) s) ((y >>= g) t)
  := by
  cases hx : x s with
  | ok a s' =>
      cases hy : y t with
      | ok b t' =>
          rw [hx, hy] at h
          cases h with
          | ok hr hR =>
              rw [bind_of_ok hx, bind_of_ok hy]
              apply hf _ _ _ _ hr hR
      | error e t' =>
          rw [hx, hy] at h
          cases h
  | error e s' =>
      cases hy : y t with
      | ok b t' =>
          rw [hx, hy] at h
          cases h
      | error e' t' =>
          rw [hx, hy] at h
          cases h with
          | error h =>
              rw [bind_of_error hx, bind_of_error hy]
              exact .error (hR _ _ h)

theorem imp {x' : EStateM.Result PatchError σ α} {y' : EStateM.Result PatchError τ β}
    (h : Alike R r x' y') (hR : ∀ s t, R s t → R' s t) :
  Alike R' r x' y'
  := by
  cases h with
  | ok hr h => exact .ok hr (hR _ _ h)
  | error h => exact .error (hR _ _ h)

/-- The stores that are left are related. -/
theorem left (h : Alike R r (x s) (y t)) :
  R (Store.left x s) (Store.left y t)
  := by
  rw [Store.left, Store.left]
  generalize x s = x' at h
  generalize y t = y' at h
  cases h with
  | ok _ hR => exact hR
  | error hR => exact hR

theorem outcome (h : Alike R r (x s) (y t)) :
  SameOutcome (fun u v => r u.1 v.1 ∧ R u.2 v.2) (outcome x s) (Store.outcome y t)
  := by
  rw [Store.outcome, Store.outcome]
  generalize x s = x' at h
  generalize y t = y' at h
  cases h with
  | ok hr hR => exact .ok ⟨hr, hR⟩
  | error hR => exact .error

end Alike

namespace Follows

variable {x : EStateM PatchError σ α} {y : EStateM PatchError τ β}

theorem pure {a : α} {b : β} (h : r a b) :
  Follows R r (Pure.pure a) (Pure.pure b)
  := fun _ _ hR => .ok h hR

theorem throw (e : PatchError) :
  Follows R r (MonadExcept.throw e) (MonadExcept.throw e)
  := fun _ _ hR => .error hR

theorem bind {f : α → EStateM PatchError σ γ} {g : β → EStateM PatchError τ δ}
    (h : Follows R r x y) (hf : ∀ a b, r a b → Follows R r' (f a) (g b)) :
  Follows R r' (x >>= f) (y >>= g)
  := by
  intro s t hR
  apply (h s t hR).bind fun _ _ => id
  intro a b s' t' hr hR'
  apply hf a b hr s' t' hR'

/-- Questions are answered alike. -/
theorem ask {question : σ → Except PatchError α} {question' : τ → Except PatchError β}
    (h : ∀ s t, R s t → SameOutcome r (question s) (question' t)) :
  Follows R r (Store.ask question) (Store.ask question')
  := by
  intro s t hR
  have hsame := h s t hR
  rw [Store.ask, Store.ask]
  generalize question s = q at hsame
  generalize question' t = q' at hsame
  cases hsame with
  | ok hr => exact .ok hr hR
  | error => exact .error hR

theorem ask_of_eq {question : σ → Except PatchError α} {question' : τ → Except PatchError α}
    (h : ∀ s t, R s t → question s = question' t) :
  Follows R Eq (Store.ask question) (Store.ask question')
  := ask fun s t hR => .of_eq (h s t hR)

theorem modify {f : σ → σ} {g : τ → τ} (h : ∀ s t, R s t → R (f s) (g t)) :
  Follows R Eq (modify f) (modify g)
  := fun s t hR => .ok rfl (h s t hR)

theorem forM {ι : Type} {l : List ι} {f : ι → EStateM PatchError σ Unit}
    {g : ι → EStateM PatchError τ Unit} (h : ∀ i ∈ l, Follows R Eq (f i) (g i)) :
  Follows R Eq (l.forM f) (l.forM g)
  := by
  induction l with
  | nil => exact Follows.pure rfl
  | cons i rest ih =>
      obtain ⟨hi, hrest⟩ := List.forall_mem_cons.mp h
      apply hi.bind
      intro _ _ _
      apply ih hrest

end Follows

end Following

end Store

/-! ### Steps on patches -/

namespace Patch

open Store hiding read

variable {p q : Patch} {id : NodeId} {n : Node} {k : Nat} {e : Edge} {edges : List Edge}

@[simp]
theorem store_at? :
  Store.at? p k = p.at? k
  := rfl

theorem locate_eq_ok_iff :
  locate p id = .ok k ↔ p.slot? id = some k
  := by
  rw [locate]
  cases h : Store.place? p id with
  | none => simpa using fun heq => Option.some_ne_none _ (heq.symm.trans h)
  | some l => 
      rw [Except.ok.injEq, ← Option.some_inj, ← h]
      rfl

theorem read_eq_ok_iff :
  Store.read p k = .ok n ↔ p.at? k = some n
  := by
  rw [Store.read, store_at?]
  cases p.at? k with
  | none => simp
  | some m => simp

theorem locate_bind {α : Type} {f : Nat → EStateM PatchError Patch α} (h : p.slot? id = some k) :
  (ask (locate · id) >>= f) p = f k p
  := bind_of_ok (ask_of_ok (locate_eq_ok_iff.mpr h))

theorem read_bind {α : Type} {f : Node → EStateM PatchError Patch α} (h : p.at? k = some n) :
  (ask (Store.read · k) >>= f) p = f n p
  := bind_of_ok (ask_of_ok (read_eq_ok_iff.mpr h))

theorem node_bind {α : Type} {f : Node → EStateM PatchError Patch α} (h : p.find? id = some n) :
  (ask (Store.node · id) >>= f) p = f n p
  := bind_of_ok (ask_of_ok (node_eq_ok_iff.mpr h))

/-- The node with an id, with other connections on one side. -/
def modifyLinks (p : Patch) (id : NodeId) : Side → (Links → Links) → Patch
  | .inlet => p.modifySources id
  | .outlet => p.modifySinks id

theorem slot?_modifyLinks {id' : NodeId} {side : Side} {f : Links → Links} :
  (p.modifyLinks id side f).slot? id' = p.slot? id'
  := by
  cases side with
  | inlet => rw [modifyLinks, modifySources, slot?_modify]
  | outlet => rw [modifyLinks, modifySinks, slot?_modify]

/-- Connections are changed in the slot of a node. -/
theorem rewire_eq (h : p.slot? id = some k) (side : Side) (f : Links → Links) :
  rewire k side f p = .ok () (p.modifyLinks id side f)
  := by
  obtain ⟨n, hn, rfl⟩ := slot?_eq_some_iff.mp h
  have hrelink : p.relink k side f = p.modifyLinks n.id side f := by
    rw [relink, hn]
    cases side <;> rfl
  rw [rewire, read_bind hn, ← hrelink]
  rfl

/-- The two ends of a connection are changed one after the other, and may be at one node. -/
theorem rewire_bind_eq {a b : NodeId} {l : Nat} (ha : p.slot? a = some k) (hb : p.slot? b = some l)
    (f g : Links → Links) :
  (rewire k .outlet f >>= fun _ => rewire l .inlet g) p =
    .ok () ((p.modifySinks a f).modifySources b g)
  := by
  rw [bind_of_ok (rewire_eq ha .outlet f)]
  apply rewire_eq
  rw [slot?_modifyLinks, hb]

theorem take_eq (h : p.at? k = some n) :
  take id k p = .ok n (p.vacate id)
  := by
  rw [take, store_at?, h]
  rfl

/-! ### Disconnections -/

theorem disconnect_run (hsource : e.source.node ∈ p.ids) (hsink : e.sink.node ∈ p.ids) :
  Store.disconnect e p = .ok () (p.unlink e)
  := by
  obtain ⟨k, hk⟩ := exists_slot hsource
  obtain ⟨l, hl⟩ := exists_slot hsink
  rw [Store.disconnect, locate_bind hk, locate_bind hl]
  apply rewire_bind_eq hk hl

theorem disconnect_eq_ok_iff :
  p.disconnect e = .ok q ↔ e.source.node ∈ p.ids ∧ e.sink.node ∈ p.ids ∧ p.unlink e = q
  := by
  constructor
  · intro h
    obtain ⟨r, hr, rfl⟩ := map_eq_ok_iff.mp h
    rw [Store.disconnect, outcome_ask_bind] at hr
    obtain ⟨k, hk, hr⟩ := bind_eq_ok_iff.mp hr
    rw [outcome_ask_bind] at hr
    obtain ⟨l, hl, hr⟩ := bind_eq_ok_iff.mp hr
    rw [locate_eq_ok_iff] at hk hl
    rw [outcome_of_ok (rewire_bind_eq hk hl _ _)] at hr
    obtain rfl := Except.ok.inj hr
    exact ⟨mem_ids_of_slot? hk, mem_ids_of_slot? hl, rfl⟩
  · rintro ⟨hsource, hsink, rfl⟩
    rw [disconnect, outcome_of_ok (disconnect_run hsource hsink)]
    rfl

theorem atomic_disconnect :
  Atomic (Store.disconnect e) p
  := by
  unfold Store.disconnect
  apply Atomic.ask_bind
  intro k hk
  apply Atomic.ask_bind
  intro l hl
  exact .of_ok (rewire_bind_eq (locate_eq_ok_iff.mp hk) (locate_eq_ok_iff.mp hl) _ _)

/-- The patch without some connections. -/
def unlinkAll (p : Patch) (edges : List Edge) : Patch := edges.foldl unlink p

theorem slot?_unlink :
  (p.unlink e).slot? id = p.slot? id
  := by
  rw [unlink, modifySources, slot?_modify, modifySinks, slot?_modify]

theorem slot?_unlinkAll :
  (p.unlinkAll edges).slot? id = p.slot? id
  := by
  induction edges generalizing p with
  | nil => rfl
  | cons e rest ih => rw [unlinkAll, List.foldl_cons, ← unlinkAll, ih, slot?_unlink]

theorem mem_ids_unlink :
  id ∈ (p.unlink e).ids ↔ id ∈ p.ids
  := mem_ids_modifyEnds

/-- Connections between nodes that are there are taken away to the last one. -/
theorem forM_disconnect_run (h : ∀ e ∈ edges, e.source.node ∈ p.ids ∧ e.sink.node ∈ p.ids) :
  edges.forM Store.disconnect p = .ok () (p.unlinkAll edges)
  := by
  induction edges generalizing p with
  | nil => rfl
  | cons e rest ih =>
      obtain ⟨⟨hsource, hsink⟩, hrest⟩ := List.forall_mem_cons.mp h
      rw [List.forM, bind_of_ok (disconnect_run hsource hsink)]
      apply ih
      intro e' he'
      rw [mem_ids_unlink, mem_ids_unlink]
      apply hrest e' he'

/-! ### Connections -/

section Connect

variable {l : Nat} {kind kind' : PortletKind} {existing : List Endpoint}

/-- An edge that is not there yet can be made between portlets of one kind, at a signal inlet only
if it has no source. -/
theorem join_cases (hk : p.slot? e.source.node = some k) (hl : p.slot? e.sink.node = some l) :
  (∃ reason, join e k l kind kind' existing p = .error reason p) ∧
      ¬ (kind = kind' ∧ (e.source ∈ existing ∨ (kind' = .signal → existing = []))) ∨
    kind = kind' ∧ (e.source ∈ existing ∧ join e k l kind kind' existing p = .ok () p ∨
      e.source ∉ existing ∧ (kind' = .signal → existing = []) ∧
        join e k l kind kind' existing p = .ok () (p.link e))
  := by
  unfold join
  by_cases hkinds : kind = kind'
  · by_cases hmem : e.source ∈ existing
    · rw [if_neg (not_not.mpr hkinds), if_pos hmem]
      exact .inr ⟨hkinds, .inl ⟨hmem, rfl⟩⟩
    · have hlink := rewire_bind_eq hk hl (·.add e.source.portlet e.sink)
        (·.add e.sink.portlet e.source)
      rw [if_neg (not_not.mpr hkinds), if_neg hmem]
      cases kind' with
      | message => exact .inr ⟨hkinds, .inr ⟨hmem, nofun, hlink⟩⟩
      | signal =>
          cases existing with
          | nil => exact .inr ⟨hkinds, .inr ⟨hmem, fun _ => rfl, hlink⟩⟩
          | cons first rest =>
              refine .inl ⟨⟨_, rfl⟩, ?_⟩
              rintro ⟨-, hmem' | hfree⟩
              · apply hmem hmem'
              · cases hfree rfl
  · rw [if_pos hkinds]
    exact .inl ⟨⟨_, rfl⟩, fun h => hkinds h.1⟩

/-- A connection is made between portlets of one kind, at a signal inlet only if there is no other.
One that is there already is left alone. -/
theorem connect_eq_ok_iff :
  p.connect e = .ok q ↔ ∃ kind, (∀ side, p.kindAt? side (e.near side) = some kind) ∧
    (p.Lists .inlet e ∧ q = p ∨
      ¬ p.Lists .inlet e ∧ (kind = .signal → p.farEnds .inlet e.sink = []) ∧ q = p.link e)
  := by
  rw [connect, map_eq_ok_iff]
  simp only [Store.connect, outcome_ask_bind, bind_eq_ok_iff, locate_eq_ok_iff, read_eq_ok_iff,
    Node.inlet_eq_ok_iff, Node.outlet_eq_ok_iff]
  constructor
  · rintro ⟨⟨⟨⟩, q'⟩, ⟨k, hk, l, hl, n, hn, outlet, houtlet, m, hm, inlet, hinlet, h⟩, rfl⟩
    have hsource := find?_eq_some_iff_slot.mpr ⟨k, hk, hn⟩
    have hsink := find?_eq_some_iff_slot.mpr ⟨l, hl, hm⟩
    rw [outcome_eq_ok_iff] at h
    rw [lists_inlet_iff hsink, farEnds_of_find? hsink]
    have hkind (hkinds : outlet.kind = inlet.kind) (side : Side) :
        p.kindAt? side (e.near side) = some inlet.kind := by
      cases side with
      | inlet => rw [Edge.near, kindAt?_of_find? hsink, Node.kindAt?, hinlet, Option.map_some]
      | outlet =>
          rw [Edge.near, kindAt?_of_find? hsource, Node.kindAt?, houtlet, Option.map_some, hkinds]
    rcases join_cases hk hl with ⟨⟨reason, hjoin⟩, -⟩ | ⟨hkinds, ⟨hmem, hjoin⟩ | ⟨hmem, hfree, hjoin⟩⟩
    · cases h.symm.trans hjoin
    · cases h.symm.trans hjoin
      exact ⟨inlet.kind, hkind hkinds, .inl ⟨hmem, rfl⟩⟩
    · cases h.symm.trans hjoin
      exact ⟨inlet.kind, hkind hkinds, .inr ⟨hmem, hfree, rfl⟩⟩
  · rintro ⟨kind, hkind, h⟩
    obtain ⟨n, hsource, hout⟩ := Option.bind_eq_some_iff.mp (hkind .outlet)
    obtain ⟨m, hsink, hin⟩ := Option.bind_eq_some_iff.mp (hkind .inlet)
    obtain ⟨outlet, houtlet, rfl⟩ := Option.map_eq_some_iff.mp hout
    obtain ⟨inlet, hinlet, hkinds⟩ := Option.map_eq_some_iff.mp hin
    obtain ⟨k, hk, hn⟩ := find?_eq_some_iff_slot.mp hsource
    obtain ⟨l, hl, hm⟩ := find?_eq_some_iff_slot.mp hsink
    have hends : p.farEnds .inlet e.sink = m.sourcesAt e.sink.portlet := farEnds_of_find? hsink
    rw [lists_inlet_iff hsink, hends, ← hkinds] at h
    refine ⟨((), q), ⟨k, hk, l, hl, n, hn, outlet, houtlet, m, hm, inlet, hinlet, ?_⟩, rfl⟩
    apply outcome_of_ok
    rcases join_cases hk hl with ⟨-, hrefused⟩ | ⟨-, ⟨hmem, hjoin⟩ | ⟨hmem, hfree, hjoin⟩⟩
    · cases hrefused ⟨hkinds.symm, h.imp And.left fun hnew => hnew.2.1⟩
    · rcases h with ⟨-, rfl⟩ | ⟨hnew, -, -⟩
      · apply hjoin
      · cases hnew hmem
    · rcases h with ⟨hold, -⟩ | ⟨-, -, rfl⟩
      · cases hmem hold
      · apply hjoin

theorem atomic_connect :
  Atomic (Store.connect e) p
  := by
  unfold Store.connect
  apply Atomic.ask_bind
  intro k hk
  apply Atomic.ask_bind
  intro l hl
  apply Atomic.ask_bind
  intro n _
  apply Atomic.ask_bind
  intro outlet _
  apply Atomic.ask_bind
  intro m _
  apply Atomic.ask_bind
  intro inlet _
  rcases join_cases (locate_eq_ok_iff.mp hk) (locate_eq_ok_iff.mp hl) with
    ⟨⟨reason, hjoin⟩, -⟩ | ⟨-, ⟨-, hjoin⟩ | ⟨-, -, hjoin⟩⟩
  · intro reason' p' h
    cases hjoin.symm.trans h
    rfl
  · exact .of_ok hjoin
  · exact .of_ok hjoin

end Connect

end Patch

end AudioPatch
