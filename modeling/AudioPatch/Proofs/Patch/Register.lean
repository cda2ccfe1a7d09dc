import AudioPatch.Proofs.Patch.Arena
import AudioPatch.Proofs.Patch.Loading

/-!
# Registers that agree with their cells

The register of an arena *agrees* with the cells if the id of every node leads to the cell of the
node, and every id in the register leads to a node. Then the arena represents the patch of its
cells, so all that edits do to patches they do to arenas.

Handles are machine words. An arena keeps its register in agreement with its cells as long as there
is a handle for every cell. One cell more gets a handle that is another cell's.
-/

namespace AudioPatch

namespace Arena

variable {a b : Arena} {p q : Patch} {n : Node} {nodes : List Node}

/-- The register and the cells agree. -/
structure Agrees (a : Arena) : Prop where
  /-- The id of a node leads to the cell of the node. -/
  cell : ∀ k n, a.cells[k]? = some (some n) → (a.handle? n.id).map UInt32.toNat = some k
  /-- An id leads to a node with this id. -/
  node : ∀ id handle, a.handle? id = some handle → ∃ n, a.at? handle = some n ∧ n.id = id
  /-- No two nodes share an id. -/
  nodup_ids : (a.nodes.map Node.id).Nodup

/-- Whether they agree is found by going through the cells and the register. -/
theorem agrees_iff :
  a.Agrees ↔
    (∀ e ∈ a.cells.zipIdx, ∀ n ∈ e.1, (a.handle? n.id).map UInt32.toNat = some e.2) ∧
      (∀ e ∈ a.register.entries, ∃ n ∈ a.at? e.2, n.id = e.1) ∧ (a.nodes.map Node.id).Nodup
  := by
  constructor
  · rintro ⟨hcell, hnode, hids⟩
    refine ⟨?_, ?_, hids⟩
    · rintro ⟨s, k⟩ hk n rfl
      apply hcell k n (List.mem_zipIdx_iff_getElem?.mp hk)
    · rintro ⟨id, handle⟩ hhandle
      apply hnode id handle (Table.find?_eq_some_iff.mpr hhandle)
  · rintro ⟨hcell, hnode, hids⟩
    constructor
    case cell =>
      intro k n hn
      apply hcell (some n, k) (List.mem_zipIdx_iff_getElem?.mpr hn) n rfl
    case node =>
      intro id handle hhandle
      apply hnode (id, handle) (Table.find?_eq_some_iff.mp hhandle)
    case nodup_ids => exact hids

instance : Decidable a.Agrees := decidable_of_iff' _ agrees_iff

/-- The patch with the cells of an arena as its slots. -/
def patch (a : Arena) (h : a.Agrees) : Patch := ⟨a.cells, h.nodup_ids⟩

theorem Agrees.represents (h : a.Agrees) :
  a.Represents (a.patch h)
  := by
  constructor
  case cells_eq => rfl
  case map_handle? =>
    intro id
    cases hhandle : a.handle? id with
    | some handle =>
        obtain ⟨n, hn, hid⟩ := h.node id handle hhandle
        have hslot : (a.patch h).slot? id = some handle.toNat :=
          Patch.slot?_eq_some_iff.mpr ⟨n, hn, hid⟩
        rw [hslot, Option.map_some]
    | none =>
        cases hslot : (a.patch h).slot? id with
        | none => rfl
        | some k =>
            obtain ⟨n, hn, rfl⟩ := Patch.slot?_eq_some_iff.mp hslot
            have hcell := h.cell k n (Patch.at?_eq_some_iff.mp hn)
            rw [hhandle] at hcell
            cases hcell

theorem Represents.agrees (h : a.Represents p) :
  a.Agrees
  := by
  constructor
  case cell =>
    intro k n hn
    rw [h.cells_eq] at hn
    rw [h.map_handle?]
    apply Patch.slot?_eq_some_iff.mpr ⟨n, Patch.at?_eq_some_iff.mpr hn, rfl⟩
  case node =>
    intro id handle hhandle
    have hslot := h.map_handle? id
    rw [hhandle, Option.map_some] at hslot
    obtain ⟨n, hn, hid⟩ := Patch.slot?_eq_some_iff.mp hslot.symm
    exact ⟨n, (h.at?_eq handle).trans hn, hid⟩
  case nodup_ids =>
    rw [h.nodes_eq]
    apply p.nodup_ids

theorem Represents.patch_eq (h : a.Represents p) :
  a.patch h.agrees = p
  := Patch.eq_of_slots h.cells_eq

/-- There are no more nodes than handles, however many cells have been emptied. -/
theorem Agrees.length_nodes_le (h : a.Agrees) :
  a.nodes.length ≤ UInt32.size
  := by
  have hnone : (a.cells.drop UInt32.size).filterMap id = [] := by
    apply List.filterMap_eq_nil_iff.mpr
    intro s hs
    obtain ⟨k, hk⟩ := List.getElem?_of_mem hs
    rw [List.getElem?_drop] at hk
    cases s with
    | none => rfl
    | some n =>
        obtain ⟨handle, -, hhandle⟩ := Option.map_eq_some_iff.mp (h.cell _ n hk)
        have := handle.toNat_lt_size
        omega
  rw [nodes, ← List.take_append_drop UInt32.size a.cells, List.filterMap_append, hnone,
    List.append_nil]
  exact Nat.le_trans (List.length_filterMap_le _ _) (List.length_take_le _ _)

/-! ### Arenas of nodes that come with their connections -/

theorem Represents.place (h : a.Represents p) (hroom : p.slots.length < UInt32.size) :
  SameOutcome (fun b q => b.Represents q ∧ q.slots.length = p.slots.length + 1)
    (Store.place a n) (Store.place p n)
  := by
  have hcontains := congrFun h.same.contains_eq n.id
  by_cases hn : p.contains n.id
  · have hn' : Store.contains a n.id := hcontains.trans hn
    rw [Patch.place_of_contains hn, Store.place, Store.insert_of_contains hn']
    exact .error
  · have hn' : ¬ Store.contains a n.id := by rwa [hcontains]
    rw [Patch.place_of_not_contains hn, Store.place, Store.insert_of_not_contains hn']
    exact .ok ⟨(h.append hn hroom).2, List.length_append⟩

theorem Represents.foldlM_place (h : a.Represents p)
    (hroom : p.slots.length + nodes.length ≤ UInt32.size) :
  SameOutcome Represents (nodes.foldlM Store.place a) (nodes.foldlM Store.place p)
  := by
  induction nodes generalizing a p with
  | nil => exact .ok h
  | cons n rest ih =>
      rw [List.length_cons] at hroom
      rw [List.foldlM_cons, List.foldlM_cons]
      apply (h.place (by omega)).bind
      rintro b q ⟨h, hlength⟩
      apply ih h
      omega

/-- Nodes make an arena exactly if they make a patch, and the arena represents the patch. -/
theorem sameOutcome_ofNodes (hroom : nodes.length ≤ UInt32.size) :
  SameOutcome Represents (ofNodes nodes) (Patch.ofNodes nodes)
  := by
  have hroom : Patch.empty.slots.length + nodes.length ≤ UInt32.size := by
    simpa [Patch.empty] using hroom
  apply (represents_empty.foldlM_place hroom).bind
  intro a p h
  rw [h.same.validate_eq]
  apply (SameOutcome.of_eq rfl).bind
  intro _ _ _
  exact .ok h

end Arena

/-! ### Runs of edits -/

/-- The clock and the bell in an arena. -/
def Chime.arena : Arena := ⟨[some clock, some bell], .ofList [("clock", 0), ("bell", 1)]⟩

namespace Arena

open Store (outcome delete disconnectNodes)

end Arena

end AudioPatch
