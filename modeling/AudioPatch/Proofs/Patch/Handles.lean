import AudioPatch.Proofs.Patch.Effects

/-!
# Handles

The number of the slot that a new node takes is its handle. Leaving connections aside, all that an
edit does to the slots is to empty some of them, or to append one. So handles are given out in
order, and a handle that has been given out stands for the node that was added with it until the
slot is emptied, and then for none.
-/

namespace AudioPatch

/-! ### Slots that are emptied -/

/-- Slots of which some have been emptied since. -/
def Emptied (now before : List (Option Node)) : Prop :=
  List.Forall₂ (fun s s' => s = none ∨ s = s') now before

namespace Emptied

variable {now before before' slots : List (Option Node)} {k : Nat}

theorem refl (slots : List (Option Node)) :
  Emptied slots slots
  := List.forall₂_same.mpr fun _ _ => .inr rfl

theorem trans (h : Emptied now before) (h' : Emptied before before') :
  Emptied now before'
  := by
  induction h generalizing before' with
  | nil => exact h'
  | cons hs _ ih =>
      cases h' with
      | cons hs' hrest' =>
          refine .cons ?_ (ih hrest')
          rcases hs with hs | hs
          · exact .inl hs
          · rw [hs]
            exact hs'

theorem append (h : Emptied now before) (slots : List (Option Node)) :
  Emptied (now ++ slots) (before ++ slots)
  := List.rel_append h (refl slots)

/-- Slots of nodes with some ids are emptied. -/
theorem lost (lost : NodeId → Bool) (slots : List (Option Node)) :
  Emptied (slots.map (·.bind fun n => if lost n.id then none else some n)) slots
  := by
  apply List.forall₂_map_left_iff.mpr
  apply List.forall₂_same.mpr
  intro s _
  cases s with
  | none => exact .inl rfl
  | some n => cases h : lost n.id <;> simp [h]

theorem getElem? (h : Emptied now before) (hk : k < before.length) :
  now[k]? = some none ∨ now[k]? = before[k]?
  := by
  obtain ⟨hlength, hget⟩ := List.forall₂_iff_get.mp h
  have hk' : k < now.length := by rwa [hlength]
  rw [List.getElem?_eq_getElem hk, List.getElem?_eq_getElem hk']
  rcases hget k hk' hk with hs | hs
  · exact .inl (congrArg some hs)
  · exact .inr (congrArg some hs)

end Emptied

/-! ### Edits -/

/-- Whether an edit takes away the node with an id. -/
def Edit.takes : Edit → NodeId → Bool
  | .delete id, id' => id' = id
  | .trim ids, id' => id' ∉ ids
  | _, _ => false

/-- A run of edits gives out places step by step. -/
theorem Store.additions_append {σ κ : Type} [Store σ κ] (s : σ) (edits later : List Edit) :
  additions s (edits ++ later) = additions s edits ++ additions (afterAll s edits) later
  := by
  induction edits generalizing s with
  | nil => rfl
  | cons edit rest ih =>
      rw [List.cons_append, additions, ih, additions, List.append_assoc]
      rfl

namespace Patch

variable {p q : Patch} {e : Edge} {edges : List Edge} {n : Node} {k : Nat} {edit : Edit}

theorem addition?_add :
  p.addition? (.add n) = (p.add n).toOption.map fun r => (r.1, n)
  := rfl

theorem additions_cons {rest : List Edit} :
  p.additions (edit :: rest) = (p.addition? edit).toList ++ (p.after edit).additions rest
  := rfl

/-- A node with a new id takes a slot at the end. -/
theorem add_eq_ok_iff :
  p.add n = .ok (k, q) ↔
    ¬ p.contains n.id ∧ k = p.slots.length ∧ q.slots = p.slots ++ [some n.bare]
  := by
  by_cases h : p.contains n.id
  · simp [add_of_contains h, h]
  · rw [add_of_not_contains h, Except.ok.injEq, Prod.mk.injEq]
    constructor
    · rintro ⟨rfl, rfl⟩
      exact ⟨h, rfl, rfl⟩
    · rintro ⟨-, rfl, hslots⟩
      exact ⟨rfl, eq_of_slots hslots.symm⟩

theorem bareSlots_append (h : ¬ p.contains n.id) :
  (p.append n h).bareSlots = p.bareSlots ++ [some n.bare]
  := by
  rw [bareSlots, append, List.map_append, bareSlots]
  rfl

theorem bareSlots_connect (h : p.connect e = .ok q) :
  q.bareSlots = p.bareSlots
  := by
  obtain ⟨_, -, ⟨-, rfl⟩ | ⟨-, -, rfl⟩⟩ := connect_eq_ok_iff.mp h
  · rfl
  · apply bareSlots_modifyEnds

theorem bareSlots_disconnect (h : p.disconnect e = .ok q) :
  q.bareSlots = p.bareSlots
  := by
  obtain ⟨-, -, rfl⟩ := disconnect_eq_ok_iff.mp h
  apply bareSlots_modifyEnds

theorem bareSlots_unlinkAll :
  (p.unlinkAll edges).bareSlots = p.bareSlots
  := by
  induction edges generalizing p with
  | nil => rfl
  | cons e rest ih => rw [unlinkAll, List.foldl_cons, ← unlinkAll, ih, unlink, bareSlots_modifyEnds]

/-- What an edit does to the slots. -/
theorem Consistent.bareSlots_edit (hp : p.Consistent) (h : p.edit edit = .ok q) :
  q.bareSlots = (p.bareSlots.map (·.bind fun n => if edit.takes n.id then none else some n)) ++
    (p.addition? edit).toList.map fun a => some a.2.bare
  := by
  cases edit with
  | add n =>
      obtain ⟨hid, rfl⟩ := edit_add_eq_ok_iff.mp h
      rw [addition?_add, add_of_not_contains hid, bareSlots_append (n := n.bare) hid]
      simp [Edit.takes, Except.toOption]
  | connect e => simp [bareSlots_connect h, addition?, Store.addition?, Edit.takes]
  | disconnect e => simp [bareSlots_disconnect h, addition?, Store.addition?, Edit.takes]
  | disconnectNodes source sink =>
      obtain ⟨hsource, hsink⟩ := hp.disconnectNodes_ok_iff.mp ⟨q, h⟩
      obtain ⟨n, hn⟩ := mem_ids_iff.mp hsource
      obtain rfl := Except.ok.inj ((hp.disconnectNodes_eq hn hsink).symm.trans h)
      simp [bareSlots_unlinkAll, addition?, Store.addition?, Edit.takes]
  | delete id =>
      obtain ⟨m, hdelete⟩ := edit_delete_eq_ok_iff.mp h
      obtain ⟨n, hn⟩ := mem_ids_iff.mp (hp.delete_ok_iff.mp ⟨_, hdelete⟩)
      obtain ⟨m', -, hdelete'⟩ := hp.delete_eq hn
      cases hdelete'.symm.trans hdelete
      rw [bareSlots_vacate, bareSlots_unlinkAll]
      simp [addition?, Store.addition?, Edit.takes]
  | trim ids =>
      rw [edit_trim] at h
      obtain rfl := Except.ok.inj h
      rw [trim_eq_without, bareSlots_without]
      simp [addition?, Store.addition?, Edit.takes]

/-- A refused edit gives out no handle. -/
theorem addition?_eq_none {reason : PatchError} (h : p.edit edit = .error reason) :
  p.addition? edit = none
  := by
  cases edit with
  | add n =>
      rw [edit_add] at h
      cases hadd : p.add n with
      | error _ => rw [addition?_add, hadd, Except.toOption, Option.map_none]
      | ok r =>
          rw [hadd] at h
          cases h
  | _ => rfl

/-- After an edit, some slots are empty that were not, and there may be one more. -/
theorem Consistent.emptied_after (hp : p.Consistent) (edit : Edit) :
  Emptied (p.after edit).bareSlots
    (p.bareSlots ++ (p.addition? edit).toList.map fun a => some a.2.bare)
  := by
  rw [hp.after_eq]
  cases h : p.edit edit with
  | ok q =>
      rw [Except.toOption, Option.getD_some, hp.bareSlots_edit h]
      apply (Emptied.lost edit.takes p.bareSlots).append
  | error reason =>
      rw [addition?_eq_none h, Option.toList_none, List.map_nil, List.append_nil]
      apply Emptied.refl

theorem length_bareSlots :
  p.bareSlots.length = p.slots.length
  := List.length_map _

theorem Consistent.length_slots_after (hp : p.Consistent) (edit : Edit) :
  (p.after edit).slots.length = p.slots.length + (p.addition? edit).toList.length
  := by
  have hlength := (hp.emptied_after edit).length_eq
  rwa [List.length_append, List.length_map, length_bareSlots, length_bareSlots] at hlength

/-- The handle that is given out is the number of slots before. -/
theorem fst_of_addition? {a : Nat × Node} (h : p.addition? edit = some a) :
  a.1 = p.slots.length
  := by
  cases edit with
  | add n =>
      rw [addition?_add] at h
      cases hadd : p.add n with
      | error _ =>
          rw [hadd] at h
          cases h
      | ok r =>
          obtain ⟨-, hk, -⟩ := add_eq_ok_iff.mp hadd
          rw [hadd] at h
          obtain rfl := Option.some.inj h
          apply hk
  | _ => cases h

/-! ### Runs of edits -/

theorem afterAll_append (p : Patch) (edits later : List Edit) :
  p.afterAll (edits ++ later) = (p.afterAll edits).afterAll later
  := List.foldl_append

theorem additions_append (p : Patch) (edits later : List Edit) :
  p.additions (edits ++ later) = p.additions edits ++ (p.afterAll edits).additions later
  := Store.additions_append p edits later

/-- What a run of edits does to the slots: each node that is added takes a slot at the end, and some
slots are emptied. -/
theorem Consistent.emptied_afterAll (hp : p.Consistent) (edits : List Edit) :
  Emptied (p.afterAll edits).bareSlots
    (p.bareSlots ++ (p.additions edits).map fun a => some a.2.bare)
  := by
  induction edits generalizing p with
  | nil =>
      show Emptied p.bareSlots (p.bareSlots ++ [])
      rw [List.append_nil]
      apply Emptied.refl
  | cons edit rest ih =>
      apply (ih (hp.after edit)).trans
      rw [additions_cons, List.map_append, ← List.append_assoc]
      apply (hp.emptied_after edit).append

theorem Consistent.length_slots_afterAll (hp : p.Consistent) (edits : List Edit) :
  (p.afterAll edits).slots.length = p.slots.length + (p.additions edits).length
  := by
  have hlength := (hp.emptied_afterAll edits).length_eq
  rwa [List.length_append, List.length_map, length_bareSlots, length_bareSlots] at hlength

/-- Handles are given out in order. -/
theorem Consistent.map_fst_additions (hp : p.Consistent) (edits : List Edit) :
  (p.additions edits).map Prod.fst = List.range' p.slots.length (p.additions edits).length
  := by
  induction edits generalizing p with
  | nil => rfl
  | cons edit rest ih =>
      rw [additions_cons, List.map_append, ih (hp.after edit), hp.length_slots_after,
        List.length_append]
      cases h : p.addition? edit with
      | none => simp
      | some a => simp [fst_of_addition? h, Nat.add_comm 1, List.range'_succ]

theorem add_mem_of_mem_additions {a : Nat × Node} {edits : List Edit} (ha : a ∈ p.additions edits) :
  .add a.2 ∈ edits
  := by
  induction edits generalizing p with
  | nil => cases ha
  | cons edit rest ih =>
      rcases List.mem_append.mp ha with ha | ha
      · cases edit with
        | add n =>
            obtain ⟨r, -, rfl⟩ := Option.map_eq_some_iff.mp (Option.mem_toList.mp ha)
            apply List.mem_cons_self
        | _ => cases ha
      · apply List.mem_cons_of_mem _ (ih ha)

/-! ### What handles stand for -/

theorem map_bare_at? :
  (p.at? k).map Node.bare = (p.bareSlots[k]?).join
  := by
  rw [at?, bareSlots, List.getElem?_map]
  cases p.slots[k]? <;> rfl

/-- Up to its connections, a slot holds what it held, or nothing. -/
theorem at?_of_emptied {before : List (Option Node)} (h : Emptied p.bareSlots before)
    (hk : k < before.length) :
  p.at? k = none ∨ (p.at? k).map Node.bare = (before[k]?).join
  := by
  rw [← Option.map_eq_none_iff (f := Node.bare), map_bare_at?]
  rcases h.getElem? hk with hnone | hsame
  · rw [hnone]
    exact .inl rfl
  · exact .inr (congrArg Option.join hsame)

theorem Consistent.getElem?_of_mem_additions (hp : p.Consistent) {edits : List Edit}
    (ha : (k, n) ∈ p.additions edits) :
  ∃ i, k = p.slots.length + i ∧ (p.additions edits)[i]? = some (k, n)
  := by
  obtain ⟨i, hi⟩ := List.mem_iff_getElem?.mp ha
  refine ⟨i, ?_, hi⟩
  have hfst : ((p.additions edits).map Prod.fst)[i]? = some k := by
    rw [List.getElem?_map, hi, Option.map_some]
  rw [hp.map_fst_additions, List.getElem?_range'] at hfst
  · simpa using hfst.symm
  · apply (List.getElem?_eq_some_iff.mp hi).1

theorem Consistent.lt_length_of_mem_additions (hp : p.Consistent) {edits : List Edit}
    (ha : (k, n) ∈ p.additions edits) :
  k < (p.afterAll edits).slots.length
  := by
  obtain ⟨i, rfl, hi⟩ := hp.getElem?_of_mem_additions ha
  rw [hp.length_slots_afterAll]
  apply Nat.add_lt_add_left (List.getElem?_eq_some_iff.mp hi).1

/-- A handle stands for the node that was added with it, or for none. -/
theorem Consistent.at?_of_mem_additions (hp : p.Consistent) {edits : List Edit}
    (ha : (k, n) ∈ p.additions edits) :
  (p.afterAll edits).at? k = none ∨ ((p.afterAll edits).at? k).map Node.bare = some n.bare
  := by
  obtain ⟨i, rfl, hi⟩ := hp.getElem?_of_mem_additions ha
  have hslot : (p.bareSlots ++ (p.additions edits).map fun a => some a.2.bare)[p.slots.length + i]? =
      some (some n.bare) := by
    rw [← length_bareSlots, List.getElem?_append_right (Nat.le_add_right _ _),
      Nat.add_sub_cancel_left, List.getElem?_map, hi, Option.map_some]
  have hat := at?_of_emptied (hp.emptied_afterAll edits) (List.getElem?_eq_some_iff.mp hslot).1
  rwa [hslot] at hat

/-- A node that is added is found under its handle. -/
theorem at?_of_add (h : p.add n = .ok (k, q)) :
  k = p.slots.length ∧ q.at? k = some n.bare
  := by
  obtain ⟨-, rfl, hslots⟩ := add_eq_ok_iff.mp h
  rw [at?_eq_some_iff, hslots, List.getElem?_concat_length]
  exact ⟨rfl, rfl⟩

/-- A slot that is empty stays empty. -/
theorem Consistent.at?_afterAll_of_none (hp : p.Consistent) (hk : k < p.slots.length)
    (h : p.at? k = none) (edits : List Edit) :
  (p.afterAll edits).at? k = none
  := by
  have hlength : k < p.bareSlots.length := by rwa [length_bareSlots]
  have hat := at?_of_emptied (hp.emptied_afterAll edits) (k := k) (by simp; omega)
  rw [List.getElem?_append_left hlength, ← map_bare_at?, h, Option.map_none,
    Option.map_eq_none_iff, or_self] at hat
  apply hat

/-- A handle comes to stand for none by the edits that take its node away. -/
theorem Consistent.at?_after_eq_none_iff (hp : p.Consistent) (hn : p.at? k = some n)
    (edit : Edit) :
  (p.after edit).at? k = none ↔ edit.takes n.id
  := by
  rw [hp.after_eq]
  cases h : p.edit edit with
  | ok q =>
      rw [Except.toOption, Option.getD_some]
      have hk : k < p.bareSlots.length := by
        rw [length_bareSlots]
        apply (List.getElem?_eq_some_iff.mp (at?_eq_some_iff.mp hn)).1
      have hslot : (p.bareSlots[k]?).join = some n.bare := by
        rw [← map_bare_at?, hn, Option.map_some]
      rw [← Option.map_eq_none_iff (f := Node.bare), map_bare_at?, hp.bareSlots_edit h,
        List.getElem?_append_left (by simpa using hk), List.getElem?_map,
        Option.join_eq_some_iff.mp hslot]
      cases ht : edit.takes n.id <;> simp [ht]
  | error reason =>
      rw [Except.toOption, Option.getD_none, hn]
      apply iff_of_false (Option.some_ne_none n)
      intro htakes
      cases edit with
      | delete id =>
          obtain rfl : n.id = id := of_decide_eq_true htakes
          obtain ⟨r, hr⟩ := hp.delete_ok_iff.mpr (List.mem_map_of_mem (mem_nodes_of_at? hn))
          rw [edit_delete, hr] at h
          cases h
      | trim ids => cases h
      | _ => cases htakes

/-- Every node was added by one of the edits. -/
theorem exists_add_of_mem_nodes {edits : List Edit} (hn : n ∈ (empty.afterAll edits).nodes) :
  ∃ m, .add m ∈ edits ∧ n.bare = m.bare
  := by
  rw [nodes_eq_filterMap_at?] at hn
  obtain ⟨k, hk, hn⟩ := List.mem_filterMap.mp hn
  rw [List.mem_range, ← length_bareSlots, (consistent_empty.emptied_afterAll _).length_eq] at hk
  rcases at?_of_emptied (consistent_empty.emptied_afterAll _) hk with hat | hat
  · cases hn.symm.trans hat
  · change _ = (((empty.additions edits).map fun a => some a.2.bare)[k]?).join at hat
    rw [hn, Option.map_some, List.getElem?_map] at hat
    cases ha : (empty.additions edits)[k]? with
    | none =>
        rw [ha] at hat
        cases hat
    | some a =>
        rw [ha] at hat
        exact ⟨a.2, add_mem_of_mem_additions (List.mem_of_getElem? ha), Option.some.inj hat⟩

/-! ### Handles of ids -/

variable {id id' : NodeId}

theorem id_of_at? {m : Node} (h : p.at? k = none ∨ (p.at? k).map Node.bare = some n.bare)
    (hm : p.at? k = some m) :
  m.id = n.id
  := by
  rw [hm, Option.map_some, Option.some.injEq] at h
  have hbare : m.bare = n.bare := h.resolve_left nofun
  rw [← Node.id_bare, hbare, Node.id_bare]

/-- While a handle stands for a node, it is the handle of the node's id. -/
theorem isSome_at?_iff (h : p.at? k = none ∨ (p.at? k).map Node.bare = some n.bare) :
  (p.at? k).isSome ↔ p.slot? n.id = some k
  := by
  rw [slot?_eq_some_iff, Option.isSome_iff_exists]
  constructor
  · rintro ⟨m, hm⟩
    exact ⟨m, hm, id_of_at? h hm⟩
  · rintro ⟨m, hm, -⟩
    exact ⟨m, hm⟩

/-- Handles do not depend on connections. -/
theorem slot?_congr (h : q.bareSlots = p.bareSlots) :
  q.slot? id = p.slot? id
  := by
  have hslot : ∀ p : Patch,
      p.slot? id = p.bareSlots.findIdx? fun s => s.any fun n => decide (n.id = id) := by
    intro p
    rw [slot?, bareSlots, List.findIdx?_map]
    congr 1
    funext s
    cases s <;> rfl
  rw [hslot, hslot, h]

theorem slot?_vacate :
  (p.vacate id).slot? id' = if id' = id then none else p.slot? id'
  := by
  have hslots : (p.vacate id).bareSlots = (p.without (· = id) fun _ => false).bareSlots := by
    rw [bareSlots_vacate, bareSlots_without]
  rw [slot?_congr hslots, slot?_without]
  simp

end Patch

end AudioPatch
