import AudioPatch.Proofs.Compile.Wiring

/-!
# What the passes give

A pass goes through the portlets that it is for and gives something to each of them. What it gives
is found before it starts, and stands in the names and in the program of the node when it is done.
-/

namespace AudioPatch

/-! ### Writing a list of values -/

section Writing

variable {S K V W : Type} [DecidableEq K] {write : S → K × V → S}
  {value : V → W} {l : List (K × V)} {s : S} {k : K} {v : V}

/-- What is read at a key at which nothing is written has not changed. -/
theorem read_foldl_of_not_mem (read : S → K → Option W)
    (hread : ∀ s k v k', read (write s (k, v)) k' = if k' = k then some (value v) else read s k')
    (h : k ∉ l.map Prod.fst) :
  read (l.foldl write s) k = read s k
  := by
  induction l generalizing s with
  | nil => rfl
  | cons e rest ih =>
      rw [List.map_cons, List.mem_cons, not_or] at h
      rw [List.foldl_cons, ih h.2, hread, if_neg h.1]

/-- What is written at a key is read there, if nothing else is written at it. -/
theorem read_foldl_of_mem (read : S → K → Option W)
    (hread : ∀ s k v k', read (write s (k, v)) k' = if k' = k then some (value v) else read s k')
    (hnodup : (l.map Prod.fst).Nodup) (h : (k, v) ∈ l) :
  read (l.foldl write s) k = some (value v)
  := by
  induction l generalizing s with
  | nil => cases h
  | cons e rest ih =>
      rw [List.map_cons, List.nodup_cons] at hnodup
      rw [List.foldl_cons]
      rcases List.mem_cons.mp h with rfl | h
      · rw [read_foldl_of_not_mem read hread hnodup.1, hread, if_pos rfl]
      · apply ih hnodup.2 h

end Writing

/-! ### One pass -/

/-- What is read of the names of a node does not depend on the symbols of a kind. -/
theorem Names.Rewires.bind_node_eq {α : Type} {kind : SymbolKind} {names names' : Names}
    (h : names.Rewires kind names') (id : NodeId) (read : NodeNames → Except CompileError α)
    (hread : ∀ own s, read (own.withScope s kind) = read own) :
  (do read (← names'.node id) : Except CompileError α) = (do read (← names.node id))
  := by
  obtain ⟨s, hs⟩ := h.node_eq id
  rw [hs]
  cases names.node id with
  | error e => rfl
  | ok own => apply hread own s

namespace Pass

variable {σ : Type} {pass : Pass σ} {d d' d'' : Draft} {n : Node} {id : NodeId} {q : PortletId}
  {found : σ} {given : NodeId → List (PortletId × σ)}

/-- A program of a node with all that a pass gives to its portlets. -/
def putAll (pass : Pass σ) (given : List (PortletId × σ)) (program : NodeProgram) : NodeProgram :=
  given.foldl (fun program e => pass.put e.1 e.2 program) program

/-- The names of a node with the symbols of all that a pass gives to its portlets. -/
def nameAll (pass : Pass σ) (given : List (PortletId × σ)) (own : NodeNames) : NodeNames :=
  own.withScope
    (given.foldl (fun scope e => scope.put (toString e.1) (pass.symbol e.2)) (own.scope pass.kind))
    pass.kind

/-- What the pass does not put into a program has not changed. -/
theorem view_putAll {α : Type} (view : NodeProgram → α)
    (hview : ∀ q found program, view (pass.put q found program) = view program)
    (given : List (PortletId × σ)) (program : NodeProgram) :
  view (pass.putAll given program) = view program
  := by
  induction given generalizing program with
  | nil => rfl
  | cons e rest ih =>
      show view (pass.putAll rest _) = _
      rw [ih, hview]

/-- The symbol of what is given to a portlet. -/
theorem get?_nameAll {given : List (PortletId × σ)} (hnodup : (given.map Prod.fst).Nodup)
    (h : (q, found) ∈ given) (own : NodeNames) :
  ((pass.nameAll given own).scope pass.kind).get? (toString q) = some (pass.symbol found)
  := by
  rw [nameAll, NodeNames.scope_withScope_self]
  apply read_foldl_of_mem (fun s q => Scope.get? s (toString q)) _ hnodup h
  intro s q found q'
  apply Scope.get?_put_portlet

/-- A portlet that is given nothing has the symbol that it had. -/
theorem get?_nameAll_of_not_mem {given : List (PortletId × σ)} (h : q ∉ given.map Prod.fst)
    (own : NodeNames) :
  ((pass.nameAll given own).scope pass.kind).get? (toString q) =
    (own.scope pass.kind).get? (toString q)
  := by
  rw [nameAll, NodeNames.scope_withScope_self]
  exact read_foldl_of_not_mem (fun s q => Scope.get? s (toString q))
    (fun _ _ _ _ => Scope.get?_put_portlet) h

/-- A draft in which a pass has given something to portlets of the nodes. -/
structure Given (pass : Pass σ) (given : NodeId → List (PortletId × σ)) (d d' : Draft) : Prop where
  rewires : d.names.Rewires pass.kind d'.names
  names : ∀ id, isNamePart id →
    d'.names.nodes.get? id = (d.names.nodes.get? id).map (pass.nameAll (given id))
  programs : ∀ id, d'.nodes.find? id = (d.nodes.find? id).map (pass.putAll (given id))

theorem given_nil (pass : Pass σ) (d : Draft) :
  pass.Given (fun _ => []) d d
  := by
  constructor
  · apply Names.Rewires.refl
  · intro id _
    cases d.names.nodes.get? id with
    | none => rfl
    | some own => simp [nameAll]
  · intro id
    cases d.nodes.find? id with
    | none => rfl
    | some program => rfl

/-- One more portlet is given something. -/
theorem Given.wire (h : pass.Given given d d') (hid : isNamePart id)
    (hwire : d'.wire id pass.kind q (pass.symbol found) (pass.put q found) = .ok d'') :
  pass.Given (Function.update given id (given id ++ [(q, found)])) d d''
  := by
  obtain ⟨names, hnames, hwire⟩ := bind_eq_ok_iff.mp hwire
  obtain ⟨nodes, hnodes, ⟨⟩⟩ := bind_eq_ok_iff.mp hwire
  obtain rfl := eq_modify_of_reviseProgram hnodes
  obtain ⟨own, hown, rfl⟩ := Names.exists_of_declareSymbol (liftSymbol_eq_ok_iff.mp hnames)
  constructor
  · apply h.rewires.trans (Names.rewires_put hown _ _)
  · intro id' hid'
    rw [Scope.get?_put, canonicalKey_of_isNamePart hid, canonicalKey_of_isNamePart hid']
    by_cases heq : id' = id
    · subst heq
      rw [h.names id' hid'] at hown
      obtain ⟨own', hown', rfl⟩ := Option.map_eq_some_iff.mp hown
      rw [if_pos rfl, Function.update_self, hown', Option.map_some, nameAll, nameAll,
        NodeNames.scope_withScope_self, NodeNames.withScope_withScope, List.foldl_append]
      rfl
    · rw [if_neg heq, Function.update_of_ne heq, h.names id' hid']
  · intro id'
    rw [Table.find?_modify, h.programs id', Option.map_map]
    by_cases heq : id' = id
    · subst heq
      rw [Function.update_self]
      congr 1
      funext program
      simp [putAll]
    · rw [Function.update_of_ne heq]
      congr 1
      funext program
      simp [heq]

/-- What a pass finds for a portlet does not depend on the symbols that it assigns. -/
def Steady (pass : Pass σ) (n : Node) : Prop :=
  ∀ names names', names.Rewires pass.kind names' → ∀ q,
    pass.find names' n q = pass.find names n q

/-- What a pass finds for the portlets of a node. -/
def FindsAll (pass : Pass σ) (names : Names) (n : Node) :
    List Portlet → List (PortletId × σ) → Prop :=
  List.Forall₂ fun portlet e => e.1 = portlet.id ∧ pass.find names n portlet.id = .ok e.2

theorem FindsAll.map_fst {names : Names} {portlets : List Portlet} {found : List (PortletId × σ)}
    (h : pass.FindsAll names n portlets found) :
  found.map Prod.fst = portlets.map Portlet.id
  := by
  induction h with
  | nil => rfl
  | cons he _ ih => rw [List.map_cons, List.map_cons, he.1, ih]

/-- What a pass has given to a portlet is what it finds for it, and stands in the names and in the
program of the node. -/
theorem Given.exists_found (h : pass.Given given d d') {α : Type}
    (read : NodeProgram → PortletId → Option α) (value : σ → α)
    (hread : ∀ program q found q', read (pass.put q found program) q' =
      if q' = q then some (value found) else read program q')
    (hid : isNamePart n.id) (hfinds : pass.FindsAll d.names n (pass.portlets n) (given n.id))
    (hnodup : ((pass.portlets n).map Portlet.id).Nodup) {own : NodeNames}
    (hown : d.names.nodes.get? n.id = some own) {program : NodeProgram}
    (hprogram : d.nodes.find? n.id = some program) {portlet : Portlet}
    (hportlet : portlet ∈ pass.portlets n) :
  ∃ found own' program', pass.find d.names n portlet.id = .ok found ∧
    d'.names.nodes.get? n.id = some own' ∧
    (own'.scope pass.kind).get? (toString portlet.id) = some (pass.symbol found) ∧
    d'.nodes.find? n.id = some program' ∧ read program' portlet.id = some (value found)
  := by
  obtain ⟨⟨q, found⟩, hmem, rfl, hfound⟩ := exists_of_mem_forall₂ hfinds hportlet
  rw [← hfinds.map_fst] at hnodup
  refine ⟨found, pass.nameAll (given n.id) own, pass.putAll (given n.id) program, hfound, ?_,
    get?_nameAll hnodup hmem own, ?_, ?_⟩
  · rw [h.names n.id hid, hown]
    rfl
  · rw [h.programs, hprogram]
    rfl
  · apply read_foldl_of_mem _ _ hnodup hmem
    intro program q found q'
    apply hread

/-- A pass gives to the portlets of a node what it finds for them. -/
theorem Given.run (h : pass.Given given d d') (hid : isNamePart n.id) (hsteady : pass.Steady n)
    (hnew : given n.id = []) :
  Meets (pass.run d' n)
    (fun d'' => ∃ found, pass.FindsAll d.names n (pass.portlets n) found ∧
      pass.Given (Function.update given n.id found) d d'')
    (fun _ => True)
  := by
  have hahead : Meets (pass.lookAhead d' n) (fun _ => True) (fun _ => True) := by
    cases pass.lookAhead d' n <;> trivial
  apply hahead.bind
  rintro ⟨⟩ - -
  apply Meets.foldlM fun done d'' => ∃ found, pass.FindsAll d.names n done found ∧
    pass.Given (Function.update given n.id found) d d''
  · refine ⟨[], .nil, ?_⟩
    rw [← hnew, Function.update_eq_self]
    apply h
  · rintro done portlet rest - d₁ ⟨founds, hfounds, hgiven⟩
    cases hfound : pass.find d₁.names n portlet.id with
    | error e => trivial
    | ok found =>
        cases hwire : d₁.wire n.id pass.kind portlet.id (pass.symbol found)
            (pass.put portlet.id found) with
        | error e =>
            show Meets (d₁.wire _ _ _ _ _) _ _
            rw [hwire]
            trivial
        | ok d₂ =>
            show Meets (d₁.wire _ _ _ _ _) _ _
            rw [hwire]
            refine ⟨founds ++ [(portlet.id, found)], ?_, ?_⟩
            · apply List.rel_append hfounds
              rw [hsteady d.names d₁.names hgiven.rewires] at hfound
              exact .cons ⟨rfl, hfound⟩ .nil
            · have hnext := hgiven.wire hid hwire
              rw [Function.update_self, Function.update_idem] at hnext
              apply hnext

end Pass

namespace Plan

variable {plan : Plan Patch} {σ : Type} {pass : Pass σ} {d d' : Draft}

/-- A pass that has been at all nodes has given to their portlets what it finds for them. -/
theorem Sound.exists_given (hsound : plan.Sound) (hvalid : ∀ n ∈ plan.patch.nodes, isNamePart n.id)
    (hsteady : ∀ n, pass.Steady n) (h : plan.forNodes d pass.run = .ok d') :
  ∃ given, pass.Given given d d' ∧
    ∀ n ∈ plan.patch.nodes, pass.FindsAll d.names n (pass.portlets n) (given n.id)
  := by
  have hall : Meets (plan.forNodes d pass.run)
      (fun d' => ∃ given, pass.Given given d d' ∧ (∀ id ∉ plan.order, given id = []) ∧
        ∀ n ∈ plan.patch.nodes, n.id ∈ plan.order →
          pass.FindsAll d.names n (pass.portlets n) (given n.id))
      (fun _ => True) := by
    apply hsound.meets_forNodes fun done d' => ∃ given, pass.Given given d d' ∧
      (∀ id ∉ done, given id = []) ∧ ∀ n ∈ plan.patch.nodes, n.id ∈ done →
        pass.FindsAll d.names n (pass.portlets n) (given n.id)
    · exact ⟨fun _ => [], pass.given_nil d, by simp, by simp⟩
    · rintro done n rest - hnew hn d₁ - ⟨given, hgiven, hnone, hfound⟩
      apply (hgiven.run (hvalid n hn) (hsteady n) (hnone n.id hnew)).imp_good
      rintro d₂ ⟨found, hown, hgiven'⟩
      refine ⟨_, hgiven', ?_, ?_⟩
      · intro id hid
        rw [List.mem_append, List.mem_singleton, not_or] at hid
        rw [Function.update_of_ne hid.2]
        apply hnone id hid.1
      · intro m hm hid
        rcases mem_done_or_eq hn hm hid with hdone | rfl
        · rw [Function.update_of_ne (ne_of_mem_of_not_mem hdone hnew)]
          apply hfound m hm hdone
        · rw [Function.update_self]
          apply hown
  obtain ⟨given, hgiven, -, hfound⟩ := hall.of_eq_ok h
  exact ⟨given, hgiven, fun n hn => hfound n hn (hsound.mem_order hn)⟩

end Plan

end AudioPatch
