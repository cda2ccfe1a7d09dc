import AudioPatch.Proofs.ListOrder
import AudioPatch.Proofs.Symbol.Scope
import AudioPatch.Symbol.Names

/-!
# What declarations do to the names

For every declaration: when it fails, and what is found in the names after it.
-/

namespace AudioPatch

/-! ### The names of one node -/

namespace NodeNames

variable {n : NodeNames} {s s' : Scope String} {kind kind' : SymbolKind}

@[simp]
theorem scope_withScope_self :
  (n.withScope s kind).scope kind = s
  := by cases kind <;> rfl

theorem scope_withScope_of_ne (h : kind' ≠ kind) :
  (n.withScope s kind).scope kind' = n.scope kind'
  := by
  cases kind with
  | signalOut => cases kind' <;> first | rfl | exact absurd rfl h
  | signalIn => cases kind' <;> first | rfl | exact absurd rfl h
  | receiver => cases kind' <;> first | rfl | exact absurd rfl h
  | sender => cases kind' <;> first | rfl | exact absurd rfl h
  | state => cases kind' <;> first | rfl | exact absurd rfl h

@[simp]
theorem withScope_withScope :
  (n.withScope s kind).withScope s' kind = n.withScope s' kind
  := by cases kind <;> rfl

@[simp]
theorem withScope_scope :
  n.withScope (n.scope kind) kind = n
  := by cases kind <;> rfl

@[simp]
theorem stateName_withScope :
  (n.withScope s kind).stateName = n.stateName
  := by cases kind <;> rfl

@[simp]
theorem stem_withScope :
  (n.withScope s kind).stem = n.stem
  := by cases kind <;> rfl

/-- A node has a state object if its type has a state, with the fields of that. -/
structure HasState (fields : Option (List String)) (n : NodeNames) : Prop where
  stateName : n.stateName.isSome = fields.isSome
  state : ∀ f, (n.scope .state).contains f ↔
    ∃ shape, fields = some shape ∧ canonicalKey f ∈ shape.map canonicalKey

theorem HasState.withScope {fields : Option (List String)} (h : n.HasState fields)
    (hkind : kind ≠ .state) :
  (n.withScope s kind).HasState fields
  := by
  constructor
  · rw [stateName_withScope, h.stateName]
  · intro f
    rw [scope_withScope_of_ne hkind.symm]
    apply h.state f

/-- A node has no symbols but those of the fields of its state. -/
structure Fresh (fields : Option (List String)) (n : NodeNames) : Prop where
  unassigned : ∀ kind, kind ≠ .state → ∀ key, (n.scope kind).get? key = none
  hasState : n.HasState fields

/-- A node has no symbols but those of some fields of its state. -/
structure HasFields (id stem : String) (shape : List String) (n : NodeNames) : Prop where
  stem : n.stem = stem
  name : n.state.name = s!"nodes.{id}.state"
  nodup : (shape.map canonicalKey).Nodup
  unassigned : ∀ kind, kind ≠ .state → ∀ key, (n.scope kind).get? key = none
  state : ∀ f, (n.state.get? f).isSome ↔ canonicalKey f ∈ shape.map canonicalKey

theorem hasFields_empty (id stem : String) :
  HasFields id stem [] (empty id stem)
  := by
  constructor
  · rfl
  · rfl
  · apply List.nodup_nil
  · intro kind _ key
    cases kind <;> rfl
  · intro f
    rw [show (empty id stem).state.get? f = none from rfl]
    simp

/-- One more field is declared, unless there is one with its key. -/
theorem HasFields.meets_declareField {id stem : String} {shape : List String}
    (h : n.HasFields id stem shape) (object field : String) :
  Meets (declareField object n field) (HasFields id stem (shape ++ [field]))
    (fun e => canonicalKey field ∈ shape.map canonicalKey ∧
      e = .alreadyAssigned s!"nodes.{id}.state" (canonicalKey field))
  := by
  rw [declareField, NodeNames.declare, Meets.map_iff]
  apply (Scope.meets_declare n.state field _).imp
  · rintro state' ⟨hnone, rfl⟩
    have hnew : canonicalKey field ∉ shape.map canonicalKey := by
      rw [← h.state, hnone]
      simp
    constructor
    · apply h.stem
    · apply h.name
    · rw [List.map_append]
      apply List.Nodup.append h.nodup (List.nodup_singleton _)
      simpa using hnew
    · intro kind hkind key
      rw [scope_withScope_of_ne hkind]
      apply h.unassigned kind hkind
    · intro f
      rw [withScope, Scope.get?_put, List.map_append, List.mem_append, ← h.state]
      by_cases hf : canonicalKey f = canonicalKey field
      · simp [hf]
      · simp [hf]
  · rintro e ⟨hsome, rfl⟩
    rw [← h.name]
    exact ⟨(h.state field).mp hsome, rfl⟩

/-- The fields of a state are declared unless two of them have one key. -/
theorem meets_declareFields (id stem object : String) (shape : List String) :
  Meets (shape.foldlM (declareField object) (empty id stem)) (HasFields id stem shape)
    (fun e => ∃ key, [key, key].Sublist (shape.map canonicalKey) ∧
      e = .alreadyAssigned s!"nodes.{id}.state" key)
  := by
  apply Meets.foldlM (HasFields id stem) (hasFields_empty id stem)
  rintro done field rest rfl n hn
  apply (hn.meets_declareField object field).imp
  · intro n' hn'
    apply hn'
  · rintro e ⟨hmem, rfl⟩
    use canonicalKey field
    rw [List.map_append]
    exact ⟨twice_sublist hmem, rfl⟩

/-- The names of a node can be made unless two of its state fields have one key. -/
theorem meets_ofFields (id stem : String) (fields : Option (List String)) :
  Meets (ofFields id stem fields)
    (fun n => n.stem = stem ∧ n.Fresh fields ∧
      ∀ shape, fields = some shape → (shape.map canonicalKey).Nodup)
    (fun e => ∃ shape key, fields = some shape ∧ [key, key].Sublist (shape.map canonicalKey) ∧
      e = .alreadyAssigned s!"nodes.{id}.state" key)
  := by
  have hempty := hasFields_empty id stem
  cases fields with
  | none =>
      refine ⟨rfl, ?_, nofun⟩
      constructor
      · apply hempty.unassigned
      · constructor
        · rfl
        · intro f
          rw [Scope.contains_eq_isSome, NodeNames.scope, hempty.state]
          simp
  | some shape =>
      rw [ofFields, Meets.map_iff]
      apply (meets_declareFields id stem _ shape).imp
      · intro n hn
        refine ⟨hn.stem, ?_, ?_⟩
        · constructor
          · intro kind hkind key
            cases kind with
            | state => exact absurd rfl hkind
            | _ => apply hn.unassigned _ hkind
          · constructor
            · rfl
            · intro f
              rw [Scope.contains_eq_isSome, NodeNames.scope, hn.state]
              simp
        · rintro _ ⟨⟩
          apply hn.nodup
      · rintro e ⟨key, hkey, rfl⟩
        exact ⟨shape, key, rfl, hkey, rfl⟩

/-- The names of a node start with its stem, and no symbols but the state object and the fields of
the state. -/
theorem of_ofFields {id stem : String} {fields : Option (List String)}
    (h : ofFields id stem fields = .ok n) :
  n.stem = stem ∧ (∀ kind, kind ≠ .state → (n.scope kind).entries = .empty) ∧
    n.stateName = fields.map fun _ => s!"{stem}_STATE"
  := by
  have hempty : ∀ kind, ((empty id stem).scope kind).entries = .empty := by
    intro kind
    cases kind <;> rfl
  cases fields with
  | none =>
      obtain rfl := Except.ok.inj h
      exact ⟨rfl, fun kind _ => hempty kind, rfl⟩
  | some shape =>
      have hfields : Meets (shape.foldlM (declareField s!"{stem}_STATE") (empty id stem))
          (fun n => n.stem = stem ∧ ∀ kind, kind ≠ .state → (n.scope kind).entries = .empty)
          (fun _ => True) := by
        apply Meets.foldlM fun _ (n : NodeNames) =>
          n.stem = stem ∧ ∀ kind, kind ≠ .state → (n.scope kind).entries = .empty
        · exact ⟨rfl, fun kind _ => hempty kind⟩
        · rintro done field rest - n ⟨hstem, hscopes⟩
          rw [declareField, NodeNames.declare, Meets.map_iff]
          apply (Scope.meets_declare n.state field _).imp
          · rintro s -
            refine ⟨stem_withScope.trans hstem, ?_⟩
            intro kind hkind
            rw [scope_withScope_of_ne hkind]
            apply hscopes kind hkind
          · exact fun _ _ => trivial
      rw [ofFields] at h
      cases hresult : shape.foldlM (declareField s!"{stem}_STATE") (empty id stem) with
      | error e =>
          simp only [hresult] at h
          cases h
      | ok m =>
          simp only [hresult] at h
          obtain rfl := Except.ok.inj h
          obtain ⟨hstem, hscopes⟩ := hfields.of_eq_ok hresult
          refine ⟨hstem, ?_, rfl⟩
          intro kind hkind
          cases kind with
          | state => exact absurd rfl hkind
          | _ => apply hscopes _ hkind

end NodeNames

/-! ### Nodes -/

/-- A node has a stem if its id can be part of a name. -/
theorem meets_nodeStem (debug : Bool) (id type : String) :
  Meets (nodeStem debug id type) (fun _ => isNamePart id)
    (fun e => ¬ isNamePart id ∧ e = .invalidNamePart id)
  := by
  rw [nodeStem, checkNamePart]
  by_cases h : isNamePart id
  · rw [if_pos h]
    apply h
  · rw [if_neg h]
    exact ⟨h, rfl⟩

namespace Names

variable {names : Names} {id : String}

theorem node_eq_ok_iff {n : NodeNames} :
  names.node id = .ok n ↔ names.nodes.get? id = some n
  := Scope.get_eq_ok_iff

/-- Why a node cannot be declared. -/
inductive Refuses (names : Names) (id type : String) (fields : Option (List String)) :
    SymbolError → Prop where
  | invalidId (h : ¬ isNamePart id) : Refuses names id type fields (.invalidNamePart id)
  | stemTaken {stem : String} (h : nodeStem names.debug id type = .ok stem)
      (htaken : stem ∈ names.stems) :
      Refuses names id type fields (.alreadyAssigned "nodes" stem)
  | fieldTwice {shape : List String} {key : String} (h : fields = some shape)
      (htwice : [key, key].Sublist (shape.map canonicalKey)) :
      Refuses names id type fields (.alreadyAssigned s!"nodes.{id}.state" key)

/-- A node that is not declared yet gets a new stem, and symbols for the fields of its
state. -/
theorem meets_declareNode (names : Names) (id type : String) (fields : Option (List String))
    (hnew : isNamePart id → names.nodes.get? id = none) :
  Meets (names.declareNode id type fields).1
    (fun stem => ∃ n : NodeNames,
      (isNamePart id ∧ nodeStem names.debug id type = .ok stem ∧ stem ∉ names.stems) ∧
      (n.stem = stem ∧ n.Fresh fields ∧
        ∀ shape, fields = some shape → (shape.map canonicalKey).Nodup) ∧
      (names.declareNode id type fields).2 =
        { names with stems := stem :: names.stems, nodes := names.nodes.put id n })
    (names.Refuses id type fields)
  := by
  have hvalid := meets_nodeStem names.debug id type
  have hfields := fun stem => NodeNames.meets_ofFields id stem fields
  have hdeclare := fun n => names.nodes.meets_declare id n
  rw [declareNode]
  cases hstem : nodeStem names.debug id type with
  | error e =>
      rw [hstem] at hvalid
      obtain ⟨hid, rfl⟩ := hvalid
      apply Refuses.invalidId hid
  | ok stem =>
      rw [hstem] at hvalid
      by_cases htaken : stem ∈ names.stems
      · simp only [if_pos htaken]
        apply Refuses.stemTaken hstem htaken
      · simp only [if_neg htaken]
        specialize hfields stem
        cases hn : NodeNames.ofFields id stem fields with
        | error e =>
            rw [hn] at hfields
            obtain ⟨shape, key, hshape, htwice, rfl⟩ := hfields
            apply Refuses.fieldTwice hshape htwice
        | ok n =>
            rw [hn] at hfields
            specialize hdeclare n
            cases hnodes : names.nodes.declare id n with
            | error e =>
                rw [hnodes] at hdeclare
                rw [hnew hvalid] at hdeclare
                cases hdeclare.1
            | ok nodes =>
                rw [hnodes] at hdeclare
                obtain ⟨-, rfl⟩ := hdeclare
                simp only [hnodes]
                exact ⟨n, ⟨hvalid, rfl, htaken⟩, hfields, rfl⟩

/-- A node that is declared was not known, and has a new stem. -/
theorem exists_of_declareNode {type stem : String} {fields : Option (List String)}
    (h : (names.declareNode id type fields).1 = .ok stem) :
  ∃ n, isNamePart id ∧ nodeStem names.debug id type = .ok stem ∧ stem ∉ names.stems ∧
    names.nodes.get? id = none ∧ NodeNames.ofFields id stem fields = .ok n ∧
    (names.declareNode id type fields).2 =
      { names with stems := stem :: names.stems, nodes := names.nodes.put id n }
  := by
  have hvalid := meets_nodeStem names.debug id type
  have hdeclare := fun n => names.nodes.meets_declare id n
  rw [declareNode] at h ⊢
  cases hstem : nodeStem names.debug id type with
  | error e =>
      simp only [hstem] at h
      cases h
  | ok stem' =>
      simp only [hstem] at h ⊢
      by_cases htaken : stem' ∈ names.stems
      · simp only [if_pos htaken] at h
        cases h
      · simp only [if_neg htaken] at h ⊢
        cases hn : NodeNames.ofFields id stem' fields with
        | error e =>
            simp only [hn] at h
            cases h
        | ok n =>
            simp only [hn] at h ⊢
            cases hnodes : names.nodes.declare id n with
            | error e =>
                simp only [hnodes] at h
                cases h
            | ok nodes =>
                simp only [hnodes] at h ⊢
                obtain rfl := Except.ok.inj h
                obtain ⟨hnone, rfl⟩ := (hdeclare n).of_eq_ok hnodes
                exact ⟨n, hvalid.of_eq_ok hstem, rfl, htaken, hnone, hn, rfl⟩

/-- A symbol of a node is declared at a key that has none. -/
theorem declareSymbol_eq_ok {n : NodeNames} {kind : SymbolKind} {key value : String}
    (hn : names.nodes.get? id = some n) (hkey : (n.scope kind).get? key = none) :
  names.declareSymbol id kind key value = .ok
    { names with nodes :=
      names.nodes.put id (n.withScope ((n.scope kind).put key value) kind) }
  := by
  have hdeclare : n.declare kind key value
      = .ok (n.withScope ((n.scope kind).put key value) kind) := by
    rw [NodeNames.declare, Scope.declare, Scope.contains_eq_isSome, hkey]
    rfl
  have hsome : (names.nodes.get? id).isSome := by simp [hn]
  simp only [declareSymbol, Scope.get_eq_ok_iff.mpr hn]
  show (n.declare kind key value >>= _) = _
  rw [hdeclare]
  show (names.nodes.set id _ >>= _) = _
  rw [Scope.set_eq_ok hsome]
  rfl

/-- If a symbol of a node is declared, the node is known. -/
theorem exists_of_declareSymbol {kind : SymbolKind} {key value : String} {names' : Names}
    (h : names.declareSymbol id kind key value = .ok names') :
  ∃ n, names.nodes.get? id = some n ∧ names' =
    { names with nodes :=
      names.nodes.put id (n.withScope ((n.scope kind).put key value) kind) }
  := by
  obtain ⟨n, hn, h⟩ := bind_eq_ok_iff.mp h
  obtain ⟨n', hdeclare, h⟩ := bind_eq_ok_iff.mp h
  obtain ⟨nodes, hset, ⟨⟩⟩ := bind_eq_ok_iff.mp h
  rw [Scope.get_eq_ok_iff] at hn
  rw [Scope.set_eq_ok (by rw [hn]; rfl)] at hset
  obtain rfl := Except.ok.inj hset
  have hkey := (n.scope kind).meets_declare key value
  rw [NodeNames.declare] at hdeclare
  cases hscope : (n.scope kind).declare key value with
  | error e =>
      rw [hscope] at hdeclare
      cases hdeclare
  | ok scope =>
      rw [hscope] at hdeclare hkey
      obtain rfl := Except.ok.inj hdeclare
      obtain ⟨-, rfl⟩ := hkey
      exact ⟨n, hn, rfl⟩

/-! ### Symbols of nodes -/

/-- A portlet of a node has a symbol of a kind. -/
def Assigns (names : Names) (id : String) (kind : SymbolKind) (q : UInt32) : Prop :=
  ∃ n, names.nodes.get? id = some n ∧ ((n.scope kind).get? (toString q)).isSome

/-- Names that differ in the symbols of one kind at most. -/
structure Rewires (kind : SymbolKind) (names names' : Names) : Prop where
  nodes : ∀ id, ∃ s, names'.nodes.get? id = (names.nodes.get? id).map (·.withScope s kind)
  name : names'.nodes.name = names.nodes.name
  rest : names' = { names with nodes := names'.nodes }

namespace Rewires

variable {kind kind' : SymbolKind} {names' names'' : Names}

theorem refl (kind : SymbolKind) (names : Names) :
  Rewires kind names names
  := by
  constructor
  · intro id
    cases h : names.nodes.get? id with
    | none => exact ⟨.empty "", rfl⟩
    | some n =>
        use n.scope kind
        simp
  · rfl
  · rfl

theorem trans (h : Rewires kind names names') (h' : Rewires kind names' names'') :
  Rewires kind names names''
  := by
  constructor
  · intro id
    obtain ⟨s, hs⟩ := h.nodes id
    obtain ⟨s', hs'⟩ := h'.nodes id
    use s'
    rw [hs', hs, Option.map_map]
    congr 1
    funext n
    simp
  · rw [h'.name, h.name]
  · rw [h'.rest, h.rest]

/-- The same nodes are known. -/
theorem isSome_iff (h : Rewires kind names names') :
  (names'.nodes.get? id).isSome ↔ (names.nodes.get? id).isSome
  := by
  obtain ⟨s, hs⟩ := h.nodes id
  rw [hs, Option.isSome_map]

/-- The names of a node are the same but for the symbols of the kind. -/
theorem node_eq (h : Rewires kind names names') (id : String) :
  ∃ s, names'.node id = (names.node id).map (·.withScope s kind)
  := by
  obtain ⟨s, hs⟩ := h.nodes id
  use s
  rw [node, node, Scope.get, Scope.get, hs, h.name]
  cases names.nodes.get? id with
  | none => rfl
  | some n => rfl

/-- Symbols of other kinds are the same. -/
theorem assigns_iff (h : Rewires kind names names') (hkind : kind' ≠ kind) {q : UInt32} :
  names'.Assigns id kind' q ↔ names.Assigns id kind' q
  := by
  obtain ⟨s, hs⟩ := h.nodes id
  rw [Assigns, Assigns, hs]
  cases names.nodes.get? id with
  | none => simp
  | some n => simp [NodeNames.scope_withScope_of_ne hkind]

theorem hooks_eq (h : Rewires kind names names') (side : Side) :
  names'.hooks side = names.hooks side
  := by
  rw [h.rest]
  cases side <;> rfl

theorem coldGroups_eq (h : Rewires kind names names') :
  names'.coldGroups = names.coldGroups
  := by rw [h.rest]

end Rewires

/-- The symbols of one kind of a node are replaced. -/
theorem rewires_put {n : NodeNames} (hn : names.nodes.get? id = some n) (kind : SymbolKind)
    (s : Scope String) :
  Rewires kind names { names with nodes := names.nodes.put id (n.withScope s kind) }
  := by
  constructor
  · intro id'
    rw [Scope.get?_put]
    split
    · rename_i heq
      use s
      rw [Scope.get?_congr heq, hn]
      rfl
    · apply (Rewires.refl kind names).nodes id'
  · rfl
  · rfl

/-- A node that is known gets one more symbol. -/
theorem meets_declareSymbol {kind : SymbolKind} {q : UInt32} {value : String}
    (hid : isNamePart id) (hknown : (names.nodes.get? id).isSome)
    (hnew : ¬ names.Assigns id kind q) :
  Meets (names.declareSymbol id kind (toString q) value)
    (fun names' => Rewires kind names names' ∧ ∀ id' q', isNamePart id' →
      (names'.Assigns id' kind q' ↔ names.Assigns id' kind q' ∨ id' = id ∧ q' = q))
    (fun _ => False)
  := by
  obtain ⟨n, hn⟩ := Option.isSome_iff_exists.mp hknown
  have hkey : (n.scope kind).get? (toString q) = none := by
    rw [← Option.not_isSome_iff_eq_none]
    intro hsome
    apply hnew ⟨n, hn, hsome⟩
  rw [declareSymbol_eq_ok hn hkey]
  constructor
  · apply rewires_put hn
  · intro id' q' hid'
    rw [Assigns, Assigns, Scope.get?_put, canonicalKey_of_isNamePart hid,
      canonicalKey_of_isNamePart hid']
    by_cases heq : id' = id
    · subst heq
      rw [if_pos rfl, hn]
      simp only [Option.some.injEq, exists_eq_left', NodeNames.scope_withScope_self, Scope.get?_put,
        canonicalKey_portlet, toString_portlet_injective.eq_iff]
      by_cases hq : q' = q
      · simp [hq]
      · simp [hq]
    · rw [if_neg heq]
      simp [heq]

/-! ### Cold groups -/

/-- The function of a cold group is named unless it is already. -/
theorem declareColdGroup_eq {index : Nat}
    (h : names.coldGroups.get? (toString index) = none) :
  names.declareColdGroup index = (.ok s!"COLD_{index}",
    { names with coldGroups := names.coldGroups.put (toString index) s!"COLD_{index}" })
  := by
  rw [declareColdGroup, Scope.declare, Scope.contains_eq_isSome, h]
  rfl

theorem of_declareColdGroup {index : Nat} {symbol : String}
    (h : (names.declareColdGroup index).1 = .ok symbol) :
  symbol = s!"COLD_{index}" ∧ (names.declareColdGroup index).2 =
    { names with coldGroups := names.coldGroups.put (toString index) symbol }
  := by
  cases hget : names.coldGroups.get? (toString index) with
  | none =>
      rw [declareColdGroup_eq hget] at h ⊢
      obtain rfl := Except.ok.inj h
      exact ⟨rfl, rfl⟩
  | some taken =>
      rw [declareColdGroup, Scope.declare, Scope.contains_eq_isSome, hget] at h
      cases h

/-! ### Hooks -/

/-- The value of a key in the inner scope of a node. -/
def innerGet? (outer : Scope (Scope String)) (id key : String) : Option String :=
  (outer.get? id).bind fun inner => inner.get? key

variable {side : Side}

/-- The symbol of a hook. -/
def hookSymbol (side : Side) (id : String) (q : UInt32) : String := s!"{hookStem side}_{id}_{q}"

/-- A scope assigns symbols to some hooks. -/
structure Hooked (side : Side) (outer : Scope (Scope String)) (hooks : List (String × UInt32)) :
    Prop where
  get?_eq : ∀ id q, isNamePart id → innerGet? outer id (toString q) =
    if (id, q) ∈ hooks then some (hookSymbol side id q) else none
  inner_name : ∀ id inner, isNamePart id → outer.get? id = some inner →
    inner.name = s!"{outer.name}.{id}"

theorem hooked_empty (side : Side) (name : String) :
  Hooked side (.empty name) []
  := by
  constructor
  · intro id q _
    simp [innerGet?]
  · nofun

theorem Hooked.isSome_iff {outer : Scope (Scope String)} {hooks : List (String × UInt32)}
    (h : Hooked side outer hooks) (hid : isNamePart id) (q : UInt32) :
  (innerGet? outer id (toString q)).isSome ↔ (id, q) ∈ hooks
  := by
  rw [h.get?_eq id q hid]
  by_cases hq : (id, q) ∈ hooks
  · simp [hq]
  · simp [hq]

/-- One more hook is assigned in the inner scope of its node. -/
theorem Hooked.put {outer outer' : Scope (Scope String)} {hooks : List (String × UInt32)}
    (h : Hooked side outer hooks) (hid : isNamePart id) {inner : Scope String}
    (hname : outer'.name = outer.name)
    (hother : ∀ id', canonicalKey id' ≠ canonicalKey id → outer'.get? id' = outer.get? id')
    (hinner : ∀ key, inner.get? key = innerGet? outer id key)
    (hinnerName : inner.name = s!"{outer.name}.{id}") (q : UInt32) :
  Hooked side (outer'.put id (inner.put (toString q) (hookSymbol side id q))) (hooks ++ [(id, q)])
  := by
  have hne : ∀ {id'}, isNamePart id' → id' ≠ id → canonicalKey id' ≠ canonicalKey id := by
    intro id' hid' hne
    rw [canonicalKey_of_isNamePart hid, canonicalKey_of_isNamePart hid']
    apply hne
  constructor
  · intro id' q' hid'
    have hold := h.get?_eq id' q' hid'
    by_cases heq : id' = id
    · subst heq
      rw [innerGet?, Scope.get?_put_self, Option.bind_some, Scope.get?_put, hinner,
        canonicalKey_portlet, canonicalKey_portlet, hold]
      by_cases hq : q' = q
      · simp [hq]
      · have hkey : toString q' ≠ toString q := fun heq => hq (toString_portlet_injective heq)
        rw [if_neg hkey]
        simp [hq]
    · rw [innerGet?, Scope.get?_put_of_ne (hne hid' heq), hother id' (hne hid' heq), ← innerGet?,
        hold]
      simp [heq]
  · intro id' inner' hid' hinner'
    rw [Scope.name_put, hname]
    by_cases heq : id' = id
    · subst heq
      rw [Scope.get?_put_self] at hinner'
      obtain rfl := Option.some.inj hinner'
      apply hinnerName
    · rw [Scope.get?_put_of_ne (hne hid' heq), hother id' (hne hid' heq)] at hinner'
      apply h.inner_name id' inner' hid' hinner'

/-- A hook is named unless it is already. -/
theorem Hooked.meets_declareInner {outer : Scope (Scope String)} {hooks : List (String × UInt32)}
    (h : Hooked side outer hooks) (hid : isNamePart id) (q : UInt32) :
  Meets (declareInner outer id (toString q) (hookSymbol side id q)).1
    (fun symbol => symbol = hookSymbol side id q ∧ (id, q) ∉ hooks ∧
      (declareInner outer id (toString q) (hookSymbol side id q)).2.name = outer.name ∧
      Hooked side (declareInner outer id (toString q) (hookSymbol side id q)).2
        (hooks ++ [(id, q)]))
    (fun e => (id, q) ∈ hooks ∧ e = .alreadyAssigned s!"{outer.name}.{id}" (toString q))
  := by
  have hiff := h.isSome_iff hid q
  rw [declareInner, Scope.getOrDeclare]
  cases hget : outer.get? id with
  | none =>
      have hinner : ∀ key, (Scope.empty s!"{outer.name}.{id}" : Scope String).get? key
          = innerGet? outer id key := by
        intro key
        rw [innerGet?, hget]
        rfl
      have hnew : (id, q) ∉ hooks := by
        rw [← hiff, innerGet?, hget]
        simp
      refine ⟨rfl, hnew, rfl, ?_⟩
      apply h.put hid _ _ hinner
      · rfl
      · rfl
      · intro id' hne
        apply Scope.get?_put_of_ne hne
  | some inner =>
      have hinner : ∀ key, inner.get? key = innerGet? outer id key := by
        intro key
        rw [innerGet?, hget]
        rfl
      have hinnerName := h.inner_name id inner hid hget
      rw [← hinner] at hiff
      have hdeclare := inner.meets_declare (toString q) (hookSymbol side id q)
      simp only
      cases hresult : inner.declare (toString q) (hookSymbol side id q) with
      | error e =>
          rw [hresult] at hdeclare
          obtain ⟨hsome, rfl⟩ := hdeclare
          rw [canonicalKey_portlet, hinnerName]
          exact ⟨hiff.mp hsome, rfl⟩
      | ok inner' =>
          rw [hresult] at hdeclare
          obtain ⟨hnone, rfl⟩ := hdeclare
          refine ⟨rfl, ?_, rfl, ?_⟩
          · rw [← hiff, hnone]
            simp
          · apply h.put hid rfl _ hinner hinnerName
            intro id' _
            rfl

variable {scope : Scope (Scope String)}

@[simp]
theorem hooks_withHooks_self :
  (names.withHooks scope side).hooks side = scope
  := by cases side <;> rfl

@[simp]
theorem withHooks_withHooks {scope' : Scope (Scope String)} :
  (names.withHooks scope side).withHooks scope' side = names.withHooks scope' side
  := by cases side <;> rfl

@[simp]
theorem withHooks_hooks :
  names.withHooks (names.hooks side) side = names
  := by cases side <;> rfl

theorem declareHook_eq (hid : isNamePart id) (side : Side) (q : UInt32) :
  names.declareHook side id q =
    ((declareInner (names.hooks side) id (toString q) (hookSymbol side id q)).1,
      names.withHooks (declareInner (names.hooks side) id (toString q) (hookSymbol side id q)).2 side)
  := by
  rw [declareHook, checkNamePart_of_isNamePart hid]
  rfl

theorem exists_declareHook_eq (names : Names) (side : Side) (id : String) (q : UInt32) :
  ∃ hooks, (names.declareHook side id q).2 = names.withHooks hooks side
  := by
  by_cases hid : isNamePart id
  · rw [declareHook_eq hid]
    exact ⟨_, rfl⟩
  · use names.hooks side
    rw [declareHook, checkNamePart, if_neg hid, withHooks_hooks]

/-- A hook that is named has its symbol. -/
theorem Hooked.hook_eq_ok {hooks : List (String × UInt32)} (h : Hooked side (names.hooks side) hooks)
    (hid : isNamePart id) {q : UInt32} (hq : (id, q) ∈ hooks) :
  names.hook side id q = .ok (hookSymbol side id q)
  := by
  have hsymbol := h.get?_eq id q hid
  rw [if_pos hq] at hsymbol
  obtain ⟨inner, hinner, hget⟩ := Option.bind_eq_some_iff.mp hsymbol
  rw [hook, Scope.get_eq_ok_iff.mpr hinner]
  apply Scope.get_eq_ok_iff.mpr hget

end Names

end AudioPatch
