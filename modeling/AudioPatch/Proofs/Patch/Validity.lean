import AudioPatch.Proofs.Patch.Handles
import AudioPatch.Proofs.Patch.Loading

/-!
# Patches that pass the check

A patch that edits have led to passes the check as far as its connections go: both ends of each of
them agree. What the check can still find is a portlet that is listed under a number that is not its
own. Edits do not look at portlets, so such a node can be added, and then it is the only thing that
the check finds.
-/

namespace AudioPatch

namespace Node

variable {n m : Node} {side : Side} {k : PortletId}

theorem kindAt?_eq :
  n.kindAt? side k = ((n.portletsOn side).find? k).map Portlet.kind
  := by
  cases side <;> rfl

theorem mem_keys_of_kindAt? {kind : PortletKind} (h : n.kindAt? side k = some kind) :
  k ∈ (n.portletsOn side).keys
  := by
  rw [kindAt?_eq] at h
  obtain ⟨portlet, hportlet, -⟩ := Option.map_eq_some_iff.mp h
  apply Table.mem_keys_of_find? hportlet

theorem labelled_bare :
  n.bare.Labelled ↔ n.Labelled
  := Iff.rfl

theorem labelled_iff :
  n.Labelled ↔ ∀ side, (n.portletsOn side).Labelled
  := by
  constructor
  · rintro ⟨hinlets, houtlets⟩ side
    cases side with
    | inlet => exact hinlets
    | outlet => exact houtlets
  · intro h
    exact ⟨h .inlet, h .outlet⟩

/-- Where connections are listed, there are some. -/
theorem Tidy.exists_mem_ends (hn : n.Tidy) (hk : k ∈ (n.linksOn side).keys) :
  ∃ far, far ∈ (n.linksOn side).ends k
  := by
  obtain ⟨ends, hends⟩ := Option.isSome_iff_exists.mp (Table.isSome_find?_iff.mpr hk)
  rw [Links.ends_of_find? hends]
  apply List.exists_mem_of_ne_nil _ (hn side k ends hends)

end Node

namespace Patch

open Store (checkPortlets checkSinks checkSources checkNode)

variable {p : Patch} {n : Node} {side : Side} {k : PortletId} {far : Endpoint}

/-! ### Connections that pass the check -/

/-- A connection is seen from either side. -/
theorem lists_ofEnds (hn : n ∈ p.nodes) (hfar : far ∈ (n.linksOn side).ends k) :
  p.Lists side (.ofEnds side ⟨n.id, k⟩ far)
  := by
  rw [ends_eq_farEnds hn] at hfar
  cases side <;> apply hfar

namespace Consistent

/-- The portlet of a connection is declared. -/
theorem exists_kindAt? (hp : p.Consistent) (hn : n ∈ p.nodes)
    (hfar : far ∈ (n.linksOn side).ends k) :
  ∃ kind, n.kindAt? side k = some kind
  := by
  have hlists := lists_ofEnds hn hfar
  obtain ⟨kind, hkind⟩ := hp.joined _ ((hp.lists_iff side).mp hlists)
  obtain ⟨hnear, -⟩ := Edge.ofEnds_eq_iff.mp (Eq.refl (Edge.ofEnds side ⟨n.id, k⟩ far))
  have hkind := hkind side
  rw [← hnear, kindAt?_of_find? (find?_of_mem hn)] at hkind
  exact ⟨kind, hkind⟩

theorem declared (hp : p.Consistent) (htidy : p.Tidy) (hn : n ∈ p.nodes) (side : Side)
    (hk : k ∈ (n.linksOn side).keys) :
  k ∈ (n.portletsOn side).keys
  := by
  obtain ⟨far, hfar⟩ := (htidy n hn).exists_mem_ends hk
  obtain ⟨kind, hkind⟩ := hp.exists_kindAt? hn hfar
  apply Node.mem_keys_of_kindAt? hkind

/-- Connections that leave a node of a consistent patch pass the check. -/
theorem checkSinks_eq (hp : p.Consistent) (htidy : p.Tidy) (hn : n ∈ p.nodes) :
  checkSinks p n = .ok ()
  := by
  apply checkSinks_eq_ok_iff_declared.mpr
  refine ⟨fun o => hp.declared htidy hn .outlet, ?_⟩
  intro o far hfar
  have hlists : p.Lists .outlet ⟨⟨n.id, o⟩, far⟩ := lists_ofEnds hn hfar
  obtain ⟨kind, hkind⟩ := hp.joined _ hlists
  obtain ⟨m, hm, hinlet⟩ := Option.bind_eq_some_iff.mp (hkind .inlet)
  obtain ⟨n', hn', houtlet⟩ := Option.bind_eq_some_iff.mp (hkind .outlet)
  obtain rfl := Option.some.inj ((find?_of_mem hn).symm.trans hn')
  refine ⟨m, mem_nodes_of_find? hm, id_of_find? hm, ⟨kind, houtlet, hinlet⟩, ?_⟩
  apply (lists_inlet_iff hm).mp ((hp.mirrored _).mp hlists)

/-- Connections that arrive at a node of a consistent patch pass the check. -/
theorem checkSources_eq (hp : p.Consistent) (htidy : p.Tidy) (hn : n ∈ p.nodes) :
  checkSources p n = .ok ()
  := by
  apply checkSources_eq_ok_iff_declared.mpr
  refine ⟨fun i => hp.declared htidy hn .inlet, ?_, ?_⟩
  · intro i far hfar
    have hlists : p.Lists .outlet ⟨far, n.id, i⟩ := (hp.mirrored _).mpr (lists_ofEnds hn hfar)
    obtain ⟨m, hm⟩ := mem_ids_iff.mp (hp.mem_ids hlists).1
    refine ⟨m, mem_nodes_of_find? hm, id_of_find? hm, ?_⟩
    apply (lists_outlet_iff hm).mp hlists
  · intro i hi
    have hsingle := hp.single ⟨n.id, i⟩
    rw [kindAt?_of_find? (find?_of_mem hn), farEnds_of_find? (find?_of_mem hn)] at hsingle
    apply hsingle hi

end Consistent

/-! ### What the check finds -/

/-- A portlet is listed under a number that is not its own. -/
def Misplaced (p : Patch) (reason : PatchError) : Prop :=
  ∃ n ∈ p.nodes, ∃ side, ∃ entry ∈ (n.portletsOn side).entries, entry.1 ≠ entry.2.id ∧
    reason = .flawed (.misplaced n.id side entry.1 entry.2.id)

theorem meets_checkPortlets (hn : n ∈ p.nodes) (side : Side) :
  Meets (checkPortlets n.id side (n.portletsOn side)) (fun _ => (n.portletsOn side).Labelled)
    p.Misplaced
  := by
  apply Meets.forM
  rintro ⟨key, portlet⟩ hmem
  dsimp only
  by_cases hkey : key = portlet.id
  · rw [if_pos hkey]
    exact hkey.symm
  · rw [if_neg hkey]
    exact ⟨n, hn, side, _, hmem, hkey, rfl⟩

/-- In a consistent patch, the check finds nothing but portlets under numbers that are not theirs. -/
theorem Consistent.meets_validate (hp : p.Consistent) (htidy : p.Tidy) :
  Meets p.validate (fun _ => ∀ n ∈ p.nodes, n.Labelled) p.Misplaced
  := by
  apply Meets.forM
  intro n hn
  rw [checkNode, hp.checkSinks_eq htidy hn, hp.checkSources_eq htidy hn]
  apply (meets_checkPortlets hn .inlet).bind
  rintro _ - hinlets
  apply (meets_checkPortlets hn .outlet).bind
  rintro _ - houtlets
  exact ⟨hinlets, houtlets⟩

theorem Consistent.validate_eq_ok_iff (hp : p.Consistent) (htidy : p.Tidy) :
  p.validate = .ok () ↔ ∀ n ∈ p.nodes, n.Labelled
  := by
  have hmeets := hp.meets_validate htidy
  constructor
  · intro hvalid
    apply hmeets.of_eq_ok hvalid
  · intro hlabelled
    cases hvalid : p.validate with
    | ok _ => rfl
    | error reason =>
        obtain ⟨n, hn, side, entry, hentry, hkey, -⟩ := hmeets.of_eq_error hvalid
        cases hkey (Node.labelled_iff.mp (hlabelled n hn) side entry hentry).symm

/-- The nodes of a patch can be loaded exactly if the patch passes the check. -/
theorem exists_ofNodes_iff :
  (∃ q, ofNodes p.nodes = .ok q) ↔ p.validate = .ok ()
  := by
  constructor
  · rintro ⟨q, hq⟩
    obtain ⟨hslots, hvalid⟩ := ofNodes_eq_ok_iff.mp hq
    rw [← hvalid]
    exact (store_same_of_nodes (nodes_of_slots hslots).symm).validate_eq
  · intro hvalid
    obtain ⟨q, hq, -⟩ := exists_ofNodes hvalid
    exact ⟨q, hq⟩

/-! ### Patches that edits lead to -/

/-- A patch that edits have led to passes the check, and can be loaded again from its nodes, exactly
if every portlet is listed under its own number. If it does not pass, the check reports such a
portlet. Portlets are as they were when the nodes were added, so a patch that is made of nodes with
portlets under their own numbers passes. -/
theorem validate_afterAll_iff_labelled (edits : List Edit) :
  ((afterAll empty edits).validate = .ok () ↔ ∀ n ∈ (afterAll empty edits).nodes, n.Labelled) ∧
    ((∃ q, ofNodes (afterAll empty edits).nodes = .ok q) ↔
      ∀ n ∈ (afterAll empty edits).nodes, n.Labelled) ∧
    (∀ reason, (afterAll empty edits).validate = .error reason →
      (afterAll empty edits).Misplaced reason) ∧
    (∀ n ∈ (afterAll empty edits).nodes, ∃ m, .add m ∈ edits ∧ n.bare = m.bare) ∧
    ((∀ m, .add m ∈ edits → m.Labelled) → (afterAll empty edits).validate = .ok ())
  := by
  have hp := consistent_empty.afterAll edits
  have htidy := tidy_empty.afterAll consistent_empty edits
  have hvalid := hp.validate_eq_ok_iff htidy
  refine ⟨hvalid, exists_ofNodes_iff.trans hvalid, ?_, fun n => exists_add_of_mem_nodes, ?_⟩
  · intro reason
    apply (hp.meets_validate htidy).of_eq_error
  · intro hlabelled
    apply hvalid.mpr
    intro n hn
    obtain ⟨m, hm, hbare⟩ := exists_add_of_mem_nodes hn
    rw [← Node.labelled_bare, hbare, Node.labelled_bare]
    apply hlabelled m hm

end Patch

/-- A bell whose inlet is listed under a number that is not its own. -/
def Chime.askew : Node :=
  { id := "bell", type := "strike", inlets := .ofList [(0, ⟨1, .message⟩)] }

/-- A node is added as it is, and the patch that it makes need not pass the check. -/
theorem Patch.not_forall_validate_afterAll :
  (¬ ∀ edits, (afterAll empty edits).validate = .ok ()) ∧
    ¬ ∀ edits, ∃ q, ofNodes (afterAll empty edits).nodes = .ok q
  := by
  have hflawed : (afterAll empty [.add Chime.askew]).validate ≠ .ok () := by decide
  constructor
  · intro h
    apply hflawed (h _)
  · intro h
    apply hflawed (exists_ofNodes_iff.mp (h _))

end AudioPatch
