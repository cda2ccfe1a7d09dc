import AudioPatch.Proofs.Patch.Ends

/-!
# Slots

A node is in the slot that is found for its id. To change or to take out the node with an id is to
do so in its slot, and a change that keeps the id leaves all the slots where they are.
-/

namespace AudioPatch

namespace Patch

variable {p : Patch} {id id' : NodeId} {n n' : Node} {k k' : Nat}

/-! ### Nodes in slots -/

theorem at?_eq_some_iff :
  p.at? k = some n ↔ p.slots[k]? = some (some n)
  := by
  rw [at?, Option.join_eq_some_iff]

theorem mem_nodes_of_slots (h : some n ∈ p.slots) :
  n ∈ p.nodes
  := List.mem_filterMap.mpr ⟨some n, h, rfl⟩

theorem mem_nodes_of_at? (h : p.at? k = some n) :
  n ∈ p.nodes
  := mem_nodes_of_slots (List.mem_of_getElem? (at?_eq_some_iff.mp h))

/-- The nodes are those in the slots, in the order of the slots. -/
theorem nodes_eq_filterMap_at? :
  p.nodes = (List.range p.slots.length).filterMap p.at?
  := by
  have hslots : p.slots = (List.range p.slots.length).map p.at? := by
    apply List.ext_getElem
    · simp
    · intro k hk _
      simp [at?, hk]
  calc p.nodes = ((List.range p.slots.length).map p.at?).filterMap id :=
        congrArg (List.filterMap id) hslots
    _ = (List.range p.slots.length).filterMap p.at? := by
        rw [List.filterMap_map]
        rfl

/-- Two slots do not hold nodes with one id. -/
theorem eq_of_at? (hn : p.at? k = some n) (hn' : p.at? k' = some n') (hid : n.id = n'.id) :
  k = k'
  := by
  have hpairs : p.slots.Pairwise fun s s' => ∀ n ∈ s, ∀ n' ∈ s', n.id ≠ n'.id := by
    have hids : p.nodes.Pairwise fun n n' => n.id ≠ n'.id := List.pairwise_map.mp p.nodup_ids
    rw [nodes, List.pairwise_filterMap] at hids
    apply hids
  rw [at?_eq_some_iff, List.getElem?_eq_some_iff] at hn hn'
  obtain ⟨hlt, hk⟩ := hn
  obtain ⟨hlt', hk'⟩ := hn'
  rw [List.pairwise_iff_getElem] at hpairs
  rcases Nat.lt_trichotomy k k' with h | h | h
  · cases hpairs k k' hlt hlt' h n hk n' hk' hid
  · apply h
  · cases hpairs k' k hlt' hlt h n' hk' n hk hid.symm

/-! ### The slot of an id -/

/-- The slot of an id holds the node with this id, and a node is found in the slot that it is in. -/
theorem slot?_eq_some_iff :
  p.slot? id = some k ↔ ∃ n, p.at? k = some n ∧ n.id = id
  := by
  have hslot : ∀ k, p.slot? id = some k → ∃ n, p.at? k = some n ∧ n.id = id := by
    intro k hk
    rw [slot?, List.findIdx?_eq_some_iff_getElem] at hk
    obtain ⟨hlt, hany, -⟩ := hk
    cases hn : p.slots[k] with
    | none =>
        rw [hn] at hany
        cases hany
    | some n =>
        rw [hn] at hany
        refine ⟨n, ?_, of_decide_eq_true hany⟩
        rw [at?_eq_some_iff, List.getElem?_eq_some_iff]
        exact ⟨hlt, hn⟩
  constructor
  · apply hslot
  · rintro ⟨n, hn, rfl⟩
    cases hk : p.slot? n.id with
    | none =>
        have hnone := List.findIdx?_eq_none_iff.mp hk (some n)
          (List.mem_of_getElem? (at?_eq_some_iff.mp hn))
        simp at hnone
    | some k' =>
        obtain ⟨n', hn', hid⟩ := hslot k' hk
        rw [eq_of_at? hn hn' hid.symm]

/-- Two ids do not share a slot. -/
theorem eq_of_slot? {id' : NodeId} (h : p.slot? id = some k) (h' : p.slot? id' = some k) :
  id = id'
  := by
  obtain ⟨n, hn, rfl⟩ := slot?_eq_some_iff.mp h
  obtain ⟨n', hn', rfl⟩ := slot?_eq_some_iff.mp h'
  rw [Option.some.inj (hn.symm.trans hn')]

/-- The node with an id is the one in the slot of the id. -/
theorem find?_eq_bind_slot? :
  p.find? id = (p.slot? id).bind p.at?
  := by
  apply Option.ext
  intro n
  rw [Option.bind_eq_some_iff]
  constructor
  · intro hn
    have hmem := mem_nodes_of_find? hn
    rw [nodes_eq_filterMap_at?] at hmem
    obtain ⟨k, -, hk⟩ := List.mem_filterMap.mp hmem
    exact ⟨k, slot?_eq_some_iff.mpr ⟨n, hk, id_of_find? hn⟩, hk⟩
  · rintro ⟨k, hslot, hk⟩
    obtain ⟨m, hm, rfl⟩ := slot?_eq_some_iff.mp hslot
    obtain rfl := Option.some.inj (hm.symm.trans hk)
    apply find?_of_mem (mem_nodes_of_at? hm)

theorem find?_eq_some_iff_slot :
  p.find? id = some n ↔ ∃ k, p.slot? id = some k ∧ p.at? k = some n
  := by
  rw [find?_eq_bind_slot?, Option.bind_eq_some_iff]

theorem isSome_slot?_iff :
  (p.slot? id).isSome ↔ id ∈ p.ids
  := by
  rw [mem_ids_iff, find?_eq_bind_slot?, Option.isSome_iff_exists]
  constructor
  · rintro ⟨k, hslot⟩
    obtain ⟨n, hn, -⟩ := slot?_eq_some_iff.mp hslot
    exact ⟨n, Option.bind_eq_some_iff.mpr ⟨k, hslot, hn⟩⟩
  · rintro ⟨n, hn⟩
    obtain ⟨k, hslot, -⟩ := Option.bind_eq_some_iff.mp hn
    exact ⟨k, hslot⟩

theorem exists_slot (h : id ∈ p.ids) :
  ∃ k, p.slot? id = some k
  := Option.isSome_iff_exists.mp (isSome_slot?_iff.mpr h)

theorem mem_ids_of_slot? (h : p.slot? id = some k) :
  id ∈ p.ids
  := isSome_slot?_iff.mp (Option.isSome_iff_exists.mpr ⟨k, h⟩)

theorem lt_length_of_slot? (h : p.slot? id = some k) :
  k < p.slots.length
  := (List.findIdx?_eq_some_iff_getElem.mp h).1

theorem slot?_append (h : ¬ p.contains n.id) :
  (p.append n h).slot? id = if id = n.id then some p.slots.length else p.slot? id
  := by
  rw [slot?, append, List.findIdx?_append, ← slot?]
  by_cases hid : id = n.id
  · have hnone : p.slot? id = none := by
      rw [← Option.not_isSome_iff_eq_none, isSome_slot?_iff, hid, ← contains_iff]
      apply h
    rw [if_pos hid, hnone, hid]
    simp
  · rw [if_neg hid]
    simp [Ne.symm hid]

/-- A change that keeps the id of a node keeps the slots of all ids. -/
theorem slot?_modify {f : Node → Node} (hf : ∀ n, (f n).id = n.id) :
  (p.modify id f hf).slot? id' = p.slot? id'
  := by
  rw [slot?, modify, mapNodes, List.findIdx?_map, slot?]
  congr 1
  funext s
  cases s with
  | none => rfl
  | some n => by_cases h : n.id = id <;> simp [h, hf]

theorem slot?_relink {side : Side} {f : Links → Links} :
  (p.relink k side f).slot? id = p.slot? id
  := by
  rw [relink]
  cases p.at? k with
  | none => rfl
  | some n => apply slot?_modify

/-! ### Changes in a slot -/

/-- The node in the slot of an id changed, or taken out. -/
theorem modify_slots_eq {k : Nat} (hslot : p.slot? id = some k) {f g : Node → Option Node}
    (hhere : ∀ n, n.id = id → g n = f n) (helse : ∀ n, n.id ≠ id → g n = some n) :
  p.slots.modify k (·.bind f) = p.slots.map (·.bind g)
  := by
  apply List.ext_getElem?
  intro j
  rw [List.getElem?_modify, List.getElem?_map]
  cases hs : p.slots[j]? with
  | none => rfl
  | some s =>
      cases s with
      | none => by_cases hj : k = j <;> simp [hj]
      | some n =>
          have hn : p.at? j = some n := at?_eq_some_iff.mpr hs
          by_cases hid : n.id = id
          · have hj : k = j := by
              rw [slot?_eq_some_iff.mpr ⟨n, hn, hid⟩] at hslot
              apply (Option.some.inj hslot).symm
            simp [hj, hhere n hid]
          · have hj : k ≠ j := by
              rintro rfl
              obtain ⟨m, hm, hmid⟩ := slot?_eq_some_iff.mp hslot
              obtain rfl := Option.some.inj (hn.symm.trans hm)
              apply hid hmid
            simp [hj, helse n hid]

/-- In a slot without a node nothing changes. -/
theorem modify_slots_of_none (h : p.at? k = none) (f : Node → Option Node) :
  p.slots.modify k (·.bind f) = p.slots
  := by
  apply List.ext_getElem?
  intro j
  rw [List.getElem?_modify]
  by_cases hj : k = j
  · rw [at?, hj] at h
    cases hs : p.slots[j]? with
    | none => rfl
    | some s =>
        rw [hs] at h
        obtain rfl : s = none := h
        simp
  · simp [hj]

theorem slots_modify {k : Nat} (hslot : p.slot? id = some k) {f : Node → Node}
    (hf : ∀ n, (f n).id = n.id) :
  (p.modify id f hf).slots = p.slots.modify k (·.bind fun n => some (f n))
  := by
  symm
  apply modify_slots_eq hslot
  · intro n hn
    rw [if_pos hn]
  · intro n hn
    rw [if_neg hn]

theorem slots_vacate {k : Nat} (hslot : p.slot? id = some k) :
  (p.vacate id).slots = p.slots.modify k (·.bind fun _ => none)
  := by
  symm
  apply modify_slots_eq hslot
  · intro n hn
    rw [if_neg (not_not.mpr hn)]
  · intro n hn
    rw [if_pos hn]

end Patch

end AudioPatch
