import AudioPatch.Proofs.Compile.Stages
import AudioPatch.Proofs.Symbol.Spelling

/-!
# Names and programs in step

Names and programs of nodes are written side by side while a patch is compiled, and are in step all
the time: they are for the same nodes, a program has the symbols that its node is assigned, and the
symbols that belong to a node are spelled with its stem, which no other node has. This holds of any
patch, valid or not.
-/

namespace AudioPatch

variable {plan : Plan Patch} {d d' : Draft} {n : Node} {program : NodeProgram} {own : NodeNames}
  {q : PortletId} {symbol stem : String}

/-! ### One node -/

/-- A scope assigns to the numbers of portlets what a table has at the portlets, and nothing else. -/
def Scope.Lists (s : Scope String) (t : Table PortletId String) : Prop :=
  ∀ key symbol, s.entries.find? key = some symbol ↔
    ∃ q, key = toString q ∧ t.find? q = some symbol

theorem Scope.lists_empty {s : Scope String} (h : s.entries = .empty) :
  s.Lists .empty
  := by
  intro key symbol
  rw [h]
  constructor
  · nofun
  · rintro ⟨q, -, hq⟩
    cases hq

/-- Both get one more symbol. -/
theorem Scope.Lists.put {s : Scope String} {t t' : Table PortletId String} (h : s.Lists t)
    (ht' : ∀ q', t'.find? q' = if q' = q then some symbol else t.find? q') :
  (s.put (toString q) symbol).Lists t'
  := by
  intro key symbol'
  rw [Scope.put, canonicalKey_portlet, Table.find?_insert]
  by_cases hkey : key = toString q
  · rw [if_pos hkey]
    constructor
    · intro hsymbol
      exact ⟨q, hkey, by rw [ht', if_pos rfl, hsymbol]⟩
    · rintro ⟨q', hq', hfind⟩
      rw [ht', if_pos (toString_portlet_injective (hq'.symm.trans hkey))] at hfind
      apply hfind
  · rw [if_neg hkey, h]
    have hne : ∀ q', key = toString q' → q' ≠ q := by
      rintro q' hq' rfl
      apply hkey hq'
    constructor
    · rintro ⟨q', hq', hfind⟩
      exact ⟨q', hq', by rw [ht', if_neg (hne q' hq'), hfind]⟩
    · rintro ⟨q', hq', hfind⟩
      rw [ht', if_neg (hne q' hq')] at hfind
      exact ⟨q', hq', hfind⟩

theorem Scope.Lists.find?_eq {s : Scope String} {t : Table PortletId String} (h : s.Lists t)
    (q : PortletId) :
  t.find? q = s.get? (toString q)
  := by
  apply Option.ext
  intro symbol
  rw [Scope.get?, canonicalKey_portlet, h]
  constructor
  · intro hq
    exact ⟨q, rfl, hq⟩
  · rintro ⟨q', hkey, hq'⟩
    rw [toString_portlet_injective hkey, hq']

namespace NodeProgram

/-- The symbols of one kind at the portlets of a node. -/
def symbolsOf (program : NodeProgram) : SymbolKind → Table PortletId String
  | .signalOut => program.signalOuts
  | .signalIn => program.signalIns
  | .receiver => program.receivers.map fun _ receiver => receiver.name
  | .sender => program.senders.map fun _ sender => sender.name
  | .state => .empty

/-- The symbols that belong to a node are spelled with its stem. -/
structure Spelled (program : NodeProgram) (stem : String) : Prop where
  signalOut : ∀ q symbol, program.signalOuts.find? q = some symbol →
    symbol = (Label.portlet stem .signalOut q).symbol
  receiver : ∀ q receiver, program.receivers.find? q = some receiver →
    receiver.name = (Label.portlet stem .receiver q).symbol
  sender : ∀ q sender, program.senders.find? q = some sender → sender.kind = .synthesized →
    sender.name = (Label.portlet stem .sender q).symbol
  state : ∀ state, program.state = some state → state.name = (Label.state stem).symbol

/-- A program has the symbols that its node is assigned. -/
structure InStep (program : NodeProgram) (own : NodeNames) : Prop where
  lists : ∀ kind, kind ≠ .state → (own.scope kind).Lists (program.symbolsOf kind)
  spelled : program.Spelled own.stem
  stateName : ∀ name, own.stateName = some name → name = (Label.state own.stem).symbol

end NodeProgram

/-- A node that has just been named is in step with a program that is blank. -/
theorem NodeProgram.inStep_blank {id type : String} {fields : Option (List String)}
    (h : NodeNames.ofFields id stem fields = .ok own) :
  InStep { type := type } own
  := by
  obtain ⟨rfl, hscopes, hstate⟩ := NodeNames.of_ofFields h
  constructor
  · intro kind hkind
    have hblank : ∀ kind, symbolsOf { type := type } kind = .empty := by
      intro kind
      cases kind <;> rfl
    rw [hblank]
    apply Scope.lists_empty (hscopes kind hkind)
  · constructor <;> nofun
  · intro name hname
    rw [hstate] at hname
    obtain ⟨-, -, rfl⟩ := Option.map_eq_some_iff.mp hname
    rw [Label.symbol_state]

/-! ### Passes -/

/-- A pass puts into a program what it assigns, and nothing else, with symbols that are spelled as
they should be. -/
structure Pass.InStep {σ : Type} (pass : Pass σ) : Prop where
  kind_ne : pass.kind ≠ .state
  find?_put : ∀ q found program q', ((pass.put q found program).symbolsOf pass.kind).find? q' =
    if q' = q then some (pass.symbol found) else (program.symbolsOf pass.kind).find? q'
  put_other : ∀ q found program kind, kind ≠ pass.kind →
    (pass.put q found program).symbolsOf kind = program.symbolsOf kind
  spelled : ∀ names n q found own program, pass.find names n q = .ok found →
    names.nodes.get? n.id = some own → program.Spelled own.stem →
    (pass.put q found program).Spelled own.stem

namespace Plan

theorem inStep_signalOuts :
  signalOuts.InStep
  := by
  constructor
  case kind_ne => exact SymbolKind.noConfusion
  case find?_put => exact fun _ _ _ _ => Table.find?_insert
  case put_other =>
    intro q found program kind hkind
    cases kind with
    | signalOut => exact absurd rfl hkind
    | _ => rfl
  case spelled =>
    intro names n q found own program hfound hown h
    obtain ⟨own', hown', hsymbol⟩ := bind_eq_ok_iff.mp hfound
    rw [liftSymbol_eq_ok_iff, Names.node_eq_ok_iff, hown] at hown'
    obtain rfl := Option.some.inj hown'
    obtain rfl := Except.ok.inj hsymbol
    constructor
    · intro q' symbol hsymbol
      rcases Table.find?_insert_eq_some_iff.mp hsymbol with ⟨rfl, rfl⟩ | ⟨-, hold⟩
      · apply own.portletSymbol_eq .signalOut
      · apply h.signalOut q' symbol hold
    · apply h.receiver
    · apply h.sender
    · apply h.state

theorem inStep_signalIns :
  signalIns.InStep
  := by
  constructor
  case kind_ne => exact SymbolKind.noConfusion
  case find?_put => exact fun _ _ _ _ => Table.find?_insert
  case put_other =>
    intro q found program kind hkind
    cases kind with
    | signalIn => exact absurd rfl hkind
    | _ => rfl
  case spelled =>
    intro names n q found own program _ _ h
    exact ⟨h.signalOut, h.receiver, h.sender, h.state⟩

theorem inStep_receivers (plan : Plan Patch) :
  plan.receivers.InStep
  := by
  constructor
  case kind_ne => exact SymbolKind.noConfusion
  case find?_put =>
    intro q found program q'
    show ((program.receivers.insert q { name := found }).map _).find? q' =
      if q' = q then some found else (program.receivers.map _).find? q'
    rw [Table.find?_map, Table.find?_map, Table.find?_insert, apply_ite (Option.map _)]
    rfl
  case put_other =>
    intro q found program kind hkind
    cases kind with
    | receiver => exact absurd rfl hkind
    | _ => rfl
  case spelled =>
    intro names n q found own program hfound hown h
    obtain ⟨own', hown', hsymbol⟩ := bind_eq_ok_iff.mp hfound
    rw [liftSymbol_eq_ok_iff, Names.node_eq_ok_iff, hown] at hown'
    obtain rfl := Option.some.inj hown'
    obtain rfl := Except.ok.inj hsymbol
    constructor
    · apply h.signalOut
    · intro q' receiver hreceiver
      rcases Table.find?_insert_eq_some_iff.mp hreceiver with ⟨rfl, rfl⟩ | ⟨-, hold⟩
      · apply own.portletSymbol_eq .receiver
      · apply h.receiver q' receiver hold
    · apply h.sender
    · apply h.state

theorem inStep_senders (plan : Plan Patch) :
  plan.senders.InStep
  := by
  constructor
  case kind_ne => exact SymbolKind.noConfusion
  case find?_put =>
    intro q found program q'
    show ((program.senders.insert q found).map _).find? q' =
      if q' = q then some found.name else (program.senders.map _).find? q'
    rw [Table.find?_map, Table.find?_map, Table.find?_insert, apply_ite (Option.map _)]
    rfl
  case put_other =>
    intro q found program kind hkind
    cases kind with
    | sender => exact absurd rfl hkind
    | _ => rfl
  case spelled =>
    intro names n q found own program hfound hown h
    obtain ⟨-, hcases⟩ := senderOf_cases hown hfound
    constructor
    · apply h.signalOut
    · apply h.receiver
    · intro q' sender hsender hkind
      rcases Table.find?_insert_eq_some_iff.mp hsender with ⟨rfl, rfl⟩ | ⟨-, hold⟩
      · rcases hcases with ⟨-, -, hname⟩ | ⟨-, -, hdirect⟩ | ⟨-, -, hnull, -⟩
        · rw [hname]
          apply own.portletSymbol_eq .sender
        · cases hkind.symm.trans hdirect
        · cases hkind.symm.trans hnull
      · apply h.sender q' sender hold hkind
    · apply h.state

end Plan

/-- A node and its program get a symbol. -/
theorem NodeProgram.InStep.put {σ : Type} {pass : Pass σ} (h : program.InStep own)
    (hpass : pass.InStep) {names : Names} {found : σ} (hfound : pass.find names n q = .ok found)
    (hown : names.nodes.get? n.id = some own) :
  (pass.put q found program).InStep
    (own.withScope ((own.scope pass.kind).put (toString q) (pass.symbol found)) pass.kind)
  := by
  constructor
  · intro kind hkind
    by_cases hsame : kind = pass.kind
    · subst hsame
      rw [NodeNames.scope_withScope_self]
      apply (h.lists pass.kind hkind).put
      apply hpass.find?_put
    · rw [NodeNames.scope_withScope_of_ne hsame, hpass.put_other q found program kind hsame]
      apply h.lists kind hkind
  · rw [NodeNames.stem_withScope]
    apply hpass.spelled names n q found own program hfound hown h.spelled
  · rw [NodeNames.stateName_withScope, NodeNames.stem_withScope]
    apply h.stateName

/-! ### Drafts -/

/-- Nodes have names that start with stems in use, each with its own. -/
structure Stemmed (nodes : Table NodeId NodeNames) (stems : List String) (ids : List NodeId) :
    Prop where
  mem_keys_iff : ∀ id, id ∈ nodes.keys ↔ id ∈ ids
  valid : ∀ id ∈ ids, isNamePart id
  identifier : ∀ id own, nodes.find? id = some own → isIdentifier own.stem
  mem_stems : ∀ id own, nodes.find? id = some own → own.stem ∈ stems
  stems_differ : ∀ id id' own own', nodes.find? id = some own → nodes.find? id' = some own' →
    own.stem = own'.stem → id = id'

namespace Stemmed

variable {nodes : Table NodeId NodeNames} {stems : List String} {ids : List NodeId} {id : NodeId}
  {own own' : NodeNames}

/-- One more node gets a stem that is not in use. -/
theorem insert_new (h : Stemmed nodes stems ids) (hid : isNamePart id)
    (hidentifier : isIdentifier own.stem) (hnew : own.stem ∉ stems) :
  Stemmed (nodes.insert id own) (own.stem :: stems) (ids ++ [id])
  := by
  constructor
  case mem_keys_iff =>
    intro id'
    rw [Table.mem_keys_insert_iff, h.mem_keys_iff, List.mem_append, List.mem_singleton, or_comm]
  case valid =>
    intro id' hid'
    rcases List.mem_append.mp hid' with hold | hlast
    · apply h.valid id' hold
    · rw [List.mem_singleton.mp hlast]
      apply hid
  case identifier =>
    intro id' own' hown'
    rcases Table.find?_insert_eq_some_iff.mp hown' with ⟨rfl, rfl⟩ | ⟨-, hold⟩
    · apply hidentifier
    · apply h.identifier id' own' hold
  case mem_stems =>
    intro id' own' hown'
    rcases Table.find?_insert_eq_some_iff.mp hown' with ⟨rfl, rfl⟩ | ⟨-, hold⟩
    · apply List.mem_cons_self
    · apply List.mem_cons_of_mem _ (h.mem_stems id' own' hold)
  case stems_differ =>
    intro id₁ id₂ own₁ own₂ hown₁ hown₂ hstem
    rcases Table.find?_insert_eq_some_iff.mp hown₁ with ⟨rfl, rfl⟩ | ⟨-, hold₁⟩
    · rcases Table.find?_insert_eq_some_iff.mp hown₂ with ⟨rfl, -⟩ | ⟨-, hold₂⟩
      · rfl
      · cases hnew (hstem ▸ h.mem_stems id₂ own₂ hold₂)
    · rcases Table.find?_insert_eq_some_iff.mp hown₂ with ⟨rfl, rfl⟩ | ⟨-, hold₂⟩
      · cases hnew (hstem ▸ h.mem_stems id₁ own₁ hold₁)
      · apply h.stems_differ id₁ id₂ own₁ own₂ hold₁ hold₂ hstem

/-- The names of a node change, but not their stem. -/
theorem insert_known (h : Stemmed nodes stems ids) (hown : nodes.find? id = some own)
    (hstem : own'.stem = own.stem) :
  Stemmed (nodes.insert id own') stems ids
  := by
  have hold : ∀ id₁ own₁, (nodes.insert id own').find? id₁ = some own₁ →
      ∃ old, nodes.find? id₁ = some old ∧ own₁.stem = old.stem := by
    intro id₁ own₁ hown₁
    rcases Table.find?_insert_eq_some_iff.mp hown₁ with ⟨rfl, rfl⟩ | ⟨-, hold⟩
    · exact ⟨own, hown, hstem⟩
    · exact ⟨own₁, hold, rfl⟩
  have hid : id ∈ nodes.keys := by
    rw [← Table.isSome_find?_iff, hown]
    rfl
  constructor
  case mem_keys_iff =>
    intro id'
    rw [Table.mem_keys_insert_iff, ← h.mem_keys_iff]
    apply or_iff_right_of_imp
    rintro rfl
    apply hid
  case valid => apply h.valid
  case identifier =>
    intro id₁ own₁ hown₁
    obtain ⟨old, hfind, hsame⟩ := hold id₁ own₁ hown₁
    rw [hsame]
    apply h.identifier id₁ old hfind
  case mem_stems =>
    intro id₁ own₁ hown₁
    obtain ⟨old, hfind, hsame⟩ := hold id₁ own₁ hown₁
    rw [hsame]
    apply h.mem_stems id₁ old hfind
  case stems_differ =>
    intro id₁ id₂ own₁ own₂ hown₁ hown₂ hstem
    obtain ⟨old₁, hfind₁, hsame₁⟩ := hold id₁ own₁ hown₁
    obtain ⟨old₂, hfind₂, hsame₂⟩ := hold id₂ own₂ hown₂
    apply h.stems_differ id₁ id₂ old₁ old₂ hfind₁ hfind₂
    rw [← hsame₁, hstem, hsame₂]

end Stemmed

/-- The names and the programs of some nodes in a draft are in step. -/
structure Draft.InStep (d : Draft) (ids : List NodeId) : Prop where
  stemmed : Stemmed d.names.nodes.entries d.names.stems ids
  mem_keys_iff : ∀ id, id ∈ d.nodes.keys ↔ id ∈ ids
  program : ∀ id own program, d.names.nodes.entries.find? id = some own →
    d.nodes.find? id = some program → program.InStep own
  coldGroup : ∀ (i : Nat) symbol, d.names.coldGroups.get? (toString i) = some symbol →
    symbol = (Label.coldGroup i).symbol
  globals_eq : d.names.globals = {}

namespace Draft.InStep

variable {ids : List NodeId}

theorem blank (debug : Bool) :
  InStep { names := { debug := debug } } []
  := by
  constructor
  case stemmed =>
    constructor
    case mem_keys_iff => exact fun _ => Iff.rfl
    all_goals nofun
  case mem_keys_iff => exact fun _ => Iff.rfl
  case globals_eq => rfl
  all_goals nofun

theorem get?_eq (h : d.InStep ids) {id : NodeId} (hid : id ∈ ids) :
  d.names.nodes.get? id = d.names.nodes.entries.find? id
  := by
  rw [Scope.get?, canonicalKey_of_isNamePart (h.stemmed.valid id hid)]

/-- One more node is registered. -/
theorem declareNode (h : d.InStep ids) (hdeclare : plan.declareNode d n = .ok d') :
  d'.InStep (ids ++ [n.id])
  := by
  obtain ⟨i, -, hdeclare⟩ := bind_eq_ok_iff.mp hdeclare
  obtain ⟨_, hdeclared, ⟨⟩⟩ := bind_eq_ok_iff.mp hdeclare
  obtain ⟨stem, hstem, ⟨⟩⟩ := bind_eq_ok_iff.mp hdeclared
  rw [liftSymbol_eq_ok_iff] at hstem
  obtain ⟨own, hid, hnodeStem, hnew, -, hfields, hnames⟩ := Names.exists_of_declareNode hstem
  obtain ⟨rfl, -⟩ := NodeNames.of_ofFields hfields
  constructor
  case stemmed =>
    rw [hnames]
    show Stemmed (d.names.nodes.entries.insert (canonicalKey n.id) own) _ _
    rw [canonicalKey_of_isNamePart hid]
    apply h.stemmed.insert_new hid (isIdentifier_of_nodeStem hnodeStem) hnew
  case mem_keys_iff =>
    intro id
    rw [Table.mem_keys_insert_iff, h.mem_keys_iff, List.mem_append, List.mem_singleton, or_comm]
  case program =>
    intro id own' program hown' hprogram
    rw [hnames] at hown'
    replace hown' : (d.names.nodes.entries.insert (canonicalKey n.id) own).find? id = some own' :=
      hown'
    rw [canonicalKey_of_isNamePart hid] at hown'
    rcases Table.find?_insert_eq_some_iff.mp hown' with ⟨rfl, rfl⟩ | ⟨hne, hold⟩
    · rw [Table.find?_insert_self] at hprogram
      obtain rfl := Option.some.inj hprogram
      apply NodeProgram.inStep_blank hfields
    · rw [Table.find?_insert_of_ne hne] at hprogram
      apply h.program id own' program hold hprogram
  case coldGroup =>
    rw [hnames]
    apply h.coldGroup
  case globals_eq =>
    rw [hnames]
    apply h.globals_eq

/-- One more cold group is named. -/
theorem declareColdGroup (h : d.InStep ids) {i : Nat} {result : String × Draft}
    (hdeclare : d.declare (d.names.declareColdGroup i) = .ok result) :
  result.2.InStep ids
  := by
  obtain ⟨symbol, hsymbol, ⟨⟩⟩ := bind_eq_ok_iff.mp hdeclare
  rw [liftSymbol_eq_ok_iff] at hsymbol
  obtain ⟨rfl, hnames⟩ := Names.of_declareColdGroup hsymbol
  rw [hnames]
  constructor
  case stemmed => apply h.stemmed
  case mem_keys_iff => apply h.mem_keys_iff
  case program => apply h.program
  case coldGroup =>
    intro j symbol hsymbol
    rw [Scope.get?_put, canonicalKey_toString, canonicalKey_toString] at hsymbol
    by_cases hj : toString j = toString i
    · rw [if_pos hj] at hsymbol
      obtain rfl := Option.some.inj hsymbol
      rw [toString_nat_injective hj]
      rfl
    · rw [if_neg hj] at hsymbol
      apply h.coldGroup j symbol hsymbol
  case globals_eq => apply h.globals_eq

/-- One more hook is named. -/
theorem declareHook (h : d.InStep ids) {side : Side} {id : NodeId} {result : String × Draft}
    (hdeclare : d.declare (d.names.declareHook side id q) = .ok result) :
  result.2.InStep ids
  := by
  obtain ⟨symbol, -, ⟨⟩⟩ := bind_eq_ok_iff.mp hdeclare
  obtain ⟨hooks, hnames⟩ := d.names.exists_declareHook_eq side id q
  rw [hnames]
  cases side with
  | inlet => exact ⟨h.stemmed, h.mem_keys_iff, h.program, h.coldGroup, h.globals_eq⟩
  | outlet => exact ⟨h.stemmed, h.mem_keys_iff, h.program, h.coldGroup, h.globals_eq⟩

/-- One more portlet gets a symbol. -/
theorem wire {σ : Type} {pass : Pass σ} {found : σ} (h : d.InStep ids) (hpass : pass.InStep)
    (hid : n.id ∈ ids) (hfound : pass.find d.names n q = .ok found)
    (hwire : d.wire n.id pass.kind q (pass.symbol found) (pass.put q found) = .ok d') :
  d'.InStep ids
  := by
  obtain ⟨names, hnames, hwire⟩ := bind_eq_ok_iff.mp hwire
  obtain ⟨nodes, hnodes, ⟨⟩⟩ := bind_eq_ok_iff.mp hwire
  obtain rfl := eq_modify_of_reviseProgram hnodes
  obtain ⟨own, hown, rfl⟩ := Names.exists_of_declareSymbol (liftSymbol_eq_ok_iff.mp hnames)
  have hkey := canonicalKey_of_isNamePart (h.stemmed.valid n.id hid)
  have hfind := (h.get?_eq hid).symm.trans hown
  constructor
  case stemmed =>
    show Stemmed (d.names.nodes.entries.insert (canonicalKey n.id) _) _ _
    rw [hkey]
    apply h.stemmed.insert_known hfind
    apply NodeNames.stem_withScope
  case mem_keys_iff =>
    intro id
    rw [Table.keys_modify, h.mem_keys_iff]
  case program =>
    intro id own' program hown' hprogram
    replace hown' : (d.names.nodes.entries.insert (canonicalKey n.id) _).find? id = some own' :=
      hown'
    rw [hkey] at hown'
    rw [Table.find?_modify, Option.map_eq_some_iff] at hprogram
    obtain ⟨program', hprogram', rfl⟩ := hprogram
    rcases Table.find?_insert_eq_some_iff.mp hown' with ⟨rfl, rfl⟩ | ⟨hne, hold⟩
    · rw [if_pos rfl]
      apply (h.program n.id own program' hfind hprogram').put hpass hfound hown
    · rw [if_neg hne]
      apply h.program id own' program' hold hprogram'
  case coldGroup => apply h.coldGroup
  case globals_eq => apply h.globals_eq

/-- A pass is run at a node. -/
theorem run {σ : Type} {pass : Pass σ} (h : d.InStep ids) (hpass : pass.InStep)
    (hid : n.id ∈ ids) (hrun : pass.run d n = .ok d') :
  d'.InStep ids
  := by
  apply foldlM_keeps (fun d => d.InStep ids) (Pass.foldlM_of_run hrun) h
  intro portlet _ d₁ d₂ hround hd₁
  obtain ⟨found, hfound, hwire⟩ := bind_eq_ok_iff.mp hround
  apply hd₁.wire hpass hid hfound hwire

end Draft.InStep

/-! ### Code of nodes -/

/-- The state object of a node has the name that it is assigned. -/
theorem Plan.name_of_stateOf {i : Implementation} {c : NodeContext} {state : StateObject}
    (h : stateOf i c = .ok (some state)) :
  c.names.stateName = some state.name
  := by
  obtain ⟨fields, -, h⟩ := bind_eq_ok_iff.mp h
  rw [stateObject] at h
  split at h
  · split at h <;> cases h
  · rename_i name hname
    split at h
    · cases h
    · cases h
      apply hname

/-- A node gets its code. -/
theorem Draft.InStep.generate {ids : List NodeId} (h : d.InStep ids) (hid : n.id ∈ ids)
    (hgenerate : plan.generate d n = .ok d') :
  d'.InStep ids
  := by
  obtain ⟨i, -, hgenerate⟩ := bind_eq_ok_iff.mp hgenerate
  obtain ⟨c, hc, hgenerate⟩ := bind_eq_ok_iff.mp hgenerate
  obtain ⟨state, hstate, hgenerate⟩ := bind_eq_ok_iff.mp hgenerate
  obtain ⟨initialization, -, hgenerate⟩ := bind_eq_ok_iff.mp hgenerate
  obtain ⟨loop, -, hgenerate⟩ := bind_eq_ok_iff.mp hgenerate
  obtain ⟨loops, -, hgenerate⟩ := bind_eq_ok_iff.mp hgenerate
  obtain ⟨⟨⟩, -, hgenerate⟩ := bind_eq_ok_iff.mp hgenerate
  obtain ⟨bodies, -, hgenerate⟩ := bind_eq_ok_iff.mp hgenerate
  obtain ⟨nodes, hnodes, ⟨⟩⟩ := bind_eq_ok_iff.mp hgenerate
  obtain rfl := eq_modify_of_reviseProgram hnodes
  constructor
  case stemmed => apply h.stemmed
  case mem_keys_iff =>
    intro id
    rw [Table.keys_modify, h.mem_keys_iff]
  case program =>
    intro id own program hown hprogram
    rw [Table.find?_modify, Option.map_eq_some_iff] at hprogram
    obtain ⟨program', hprogram', rfl⟩ := hprogram
    have hold := h.program id own program' hown hprogram'
    by_cases hne : id = n.id
    · subst hne
      rw [if_pos rfl]
      obtain ⟨own', hown', ⟨⟩⟩ := bind_eq_ok_iff.mp hc
      rw [liftSymbol_eq_ok_iff, Names.node_eq_ok_iff, h.get?_eq hid, hown] at hown'
      obtain rfl := Option.some.inj hown'
      constructor
      case lists =>
        intro kind hkind
        cases kind with
        | receiver =>
            rw [NodeProgram.symbolsOf, Table.map_map]
            apply hold.lists .receiver hkind
        | _ => apply hold.lists _ hkind
      case spelled =>
        constructor
        case signalOut => apply hold.spelled.signalOut
        case receiver =>
          intro q receiver hreceiver
          rw [Table.find?_map, Option.map_eq_some_iff] at hreceiver
          obtain ⟨receiver', hreceiver', rfl⟩ := hreceiver
          apply hold.spelled.receiver q receiver' hreceiver'
        case sender => apply hold.spelled.sender
        case state =>
          rintro state' rfl
          apply hold.stateName state'.name (Plan.name_of_stateOf hstate)
      case stateName => apply hold.stateName
    · rw [if_neg hne]
      apply hold
  case coldGroup => apply h.coldGroup
  case globals_eq => apply h.globals_eq

/-! ### Whole compilations -/

namespace Plan

variable {ids : List NodeId}

/-- A pass at all nodes leaves the draft in step if it does so at each of them. -/
theorem inStep_forNodes {pass : Draft → Node → Except CompileError Draft}
    (h : d.InStep plan.order) (hpass : ∀ n d d', n.id ∈ plan.order → pass d n = .ok d' →
      d.InStep plan.order → d'.InStep plan.order)
    (hrun : plan.forNodes d pass = .ok d') :
  d'.InStep plan.order
  := by
  apply foldlM_keeps (fun d => d.InStep plan.order) hrun h
  intro id hid d₁ d₂ hround hd₁
  obtain ⟨n, hn, hat⟩ := bind_eq_ok_iff.mp hround
  rw [liftPatch_eq_ok_iff, Patch.store_node, Patch.node_eq_ok_iff] at hn
  obtain rfl := Patch.id_of_find? hn
  apply hpass n d₁ d₂ hid hat hd₁

/-- All nodes are registered. -/
theorem inStep_declareNodes
    (hrun : plan.forNodes { names := { debug := plan.settings.debug } } plan.declareNode = .ok d) :
  d.InStep plan.order
  := by
  have hall : Meets (plan.forNodes { names := { debug := plan.settings.debug } } plan.declareNode)
      (fun d => d.InStep plan.order) (fun _ => True) := by
    apply Meets.foldlM fun done (d : Draft) => d.InStep done
    · apply Draft.InStep.blank
    · rintro done id rest - d₁ hd₁
      cases hround : plan.atNode plan.declareNode d₁ id with
      | error e => trivial
      | ok d₂ =>
          obtain ⟨n, hn, hat⟩ := bind_eq_ok_iff.mp hround
          rw [liftPatch_eq_ok_iff, Patch.store_node, Patch.node_eq_ok_iff] at hn
          obtain rfl := Patch.id_of_find? hn
          apply hd₁.declareNode hat
  apply hall.of_eq_ok hrun

theorem inStep_declareHooks {side : Side} {result : List (Endpoint × String) × Draft}
    (h : d.InStep ids) (hrun : plan.declareHooks side d = .ok result) :
  result.2.InStep ids
  := by
  apply foldlM_keeps (fun r => r.2.InStep ids) hrun h
  rintro ⟨id, q⟩ - ⟨named, d₁⟩ _ hround hd₁
  obtain ⟨⟨name, d₂⟩, hdeclare, ⟨⟩⟩ := bind_eq_ok_iff.mp hround
  apply hd₁.declareHook hdeclare

theorem inStep_named {listeners : List Listener} (h : plan.named = .ok (listeners, d)) :
  d.InStep plan.order
  := by
  obtain ⟨d₁, hnodes, h⟩ := bind_eq_ok_iff.mp h
  obtain ⟨d₂, hgroups, h⟩ := bind_eq_ok_iff.mp h
  obtain ⟨⟨heard, d₃⟩, hlisteners, h⟩ := bind_eq_ok_iff.mp h
  obtain ⟨⟨called, d₄⟩, hcallers, ⟨⟩⟩ := bind_eq_ok_iff.mp h
  have hd₂ : d₂.InStep plan.order := by
    apply foldlM_keeps (fun d => d.InStep plan.order) hgroups (inStep_declareNodes hnodes)
    intro i _ d d' hround hd
    obtain ⟨result, hdeclare, ⟨⟩⟩ := bind_eq_ok_iff.mp hround
    apply hd.declareColdGroup hdeclare
  apply inStep_declareHooks (inStep_declareHooks hd₂ hlisteners) hcallers

theorem inStep_connected (h : d.InStep plan.order) (hrun : plan.connected d = .ok d') :
  d'.InStep plan.order
  := by
  have hpass : ∀ {σ : Type} {pass : Pass σ} {d d' : Draft}, pass.InStep → d.InStep plan.order →
      plan.forNodes d pass.run = .ok d' → d'.InStep plan.order := by
    intro σ pass d d' hpass hd
    apply inStep_forNodes hd
    intro n d₁ d₂ hid hround hd₁
    apply hd₁.run hpass hid hround
  obtain ⟨d₁, hsignalOuts, hrun⟩ := bind_eq_ok_iff.mp hrun
  obtain ⟨d₂, hsignalIns, hrun⟩ := bind_eq_ok_iff.mp hrun
  obtain ⟨d₃, hreceivers, hsenders⟩ := bind_eq_ok_iff.mp hrun
  have hd₁ := hpass inStep_signalOuts h hsignalOuts
  have hd₂ := hpass inStep_signalIns hd₁ hsignalIns
  have hd₃ := hpass plan.inStep_receivers hd₂ hreceivers
  apply hpass plan.inStep_senders hd₃ hsenders

variable {whole : Program} {names : Names}

/-- The names and the programs that a compilation answers are in step. -/
theorem ComesTo.inStep (h : plan.ComesTo d d' whole names) :
  Draft.InStep ⟨names, whole.nodes⟩ whole.order
  := by
  obtain ⟨⟨listeners, d₁⟩, hnamed, hwired⟩ := bind_eq_ok_iff.mp h.wired
  obtain ⟨d₂, hconnected, ⟨⟩⟩ := bind_eq_ok_iff.mp hwired
  have hd := inStep_connected (inStep_named hnamed) hconnected
  have hd' : d'.InStep plan.order := by
    apply inStep_forNodes hd _ h.generated
    intro n d₁ d₂ hid hround hd₁
    apply hd₁.generate hid hround
  rw [h.nodes_eq, h.order_eq, h.sameButGlobal]
  exact ⟨hd'.stemmed, hd'.mem_keys_iff, hd'.program, hd'.coldGroup, hd'.globals_eq⟩

/-- The functions of the cold groups are named by their places. -/
theorem ComesTo.coldNames_eq (h : plan.ComesTo d d' whole names) :
  whole.cold.map ColdFunction.name =
    (List.range whole.cold.length).map fun i => (Label.coldGroup i).symbol
  := by
  have hgroups : names.coldGroups = d'.names.coldGroups := by rw [h.sameButGlobal]
  have hall : List.Forall₂ (fun (f : ColdFunction) (e : ColdGroup × Nat) =>
      f.name = (Label.coldGroup e.2).symbol) whole.cold plan.schedule.cold.zipIdx := by
    apply (mapM_eq_ok_iff.mp h.cold).flip.imp
    rintro f ⟨g, i⟩ hf
    obtain ⟨-, -, hname, -⟩ := of_coldFunction hf
    rw [← hgroups] at hname
    apply h.inStep.coldGroup i f.name hname
  have hlength : whole.cold.length = plan.schedule.cold.length := by
    rw [hall.length_eq, List.length_zipIdx]
  calc whole.cold.map ColdFunction.name
      = plan.schedule.cold.zipIdx.map fun e => (Label.coldGroup e.2).symbol := by
        rw [← List.forall₂_eq_eq_eq, List.forall₂_map_left_iff, List.forall₂_map_right_iff]
        apply hall
    _ = (plan.schedule.cold.zipIdx.map Prod.snd).map fun i => (Label.coldGroup i).symbol := by
        rw [List.map_map]
        rfl
    _ = _ := by rw [List.zipIdx_map_snd, hlength, List.range_eq_range']

end Plan

end AudioPatch
