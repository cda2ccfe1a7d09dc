import AudioPatch.Proofs.Compile.Arena
import AudioPatch.Proofs.Document.Reordering
import AudioPatch.Proofs.Numeral.Decimal

/-!
# Loading what was saved

A valid arena that is saved and loaded again has the same nodes in the same order, whatever the
order in which the fields of the saved tables come. The empty cells are gone, so handles and bits
are others than before, but the arena is walked through and compiled to the same.
-/

namespace AudioPatch

open Value

variable {v : Value}

/-! ### Numbers -/

theorem uint32?_ofUInt32 (n : UInt32) :
  uint32? (.ofUInt32 n) = some n
  := by
  have hsize : (n.toNat : Int) < UInt32.size := by exact_mod_cast n.toNat_lt
  rw [Value.ofUInt32, uint32?, if_pos ⟨by omega, hsize⟩]
  simp

/-- The number of a portlet is read from its digits. -/
theorem PortletId.ofName?_name (q : PortletId) :
  PortletId.ofName? (PortletId.name q) = some q
  := by
  have hdigits : (PortletId.name q).toList = Nat.toDigits 10 q.toNat := Nat.toList_repr
  rw [PortletId.ofName?, hdigits, if_pos, ofDigits_toDigits]
  · apply uint32?_ofUInt32
  · refine ⟨Nat.toDigits_ne_nil, ?_, ?_⟩
    · rw [List.all_eq_true]
      intro c hc
      apply Nat.isDigit_of_mem_toDigits (by decide) (by decide) hc
    · rcases Nat.eq_zero_or_pos q.toNat with hzero | hpos
      · rw [hzero]
        decide
      · exact .inr (head?_toDigits_ne hpos)

/-! ### Parts of nodes -/

/-- A table is read entry by entry, and its entries find their places by themselves. -/
theorem loadPortletTable?_eq {α : Type} {save : α → Value} {load? : Value → Option α}
    {t : Table PortletId α} (h : (savePortletTable save t).Reorders v)
    (hload : ∀ a v, (save a).Reorders v → load? v = some a) :
  loadPortletTable? load? v = some t
  := by
  obtain ⟨fields, rfl, moved, hfields, hmoved⟩ := h.exists_of_table
  rw [List.forall₂_map_left_iff] at hfields
  have hread : Relation.Comp (List.Forall₂ fun e f =>
      (do return (← PortletId.ofName? f.1, ← load? f.2)) = some e) List.Perm t.entries fields := by
    refine ⟨moved, hfields.imp ?_, hmoved⟩
    rintro ⟨q, a⟩ f hf
    cases hf with
    | mk _ hv =>
        rw [PortletId.ofName?_name, hload a _ hv]
        rfl
  rw [List.forall₂_comp_perm_eq_perm_comp_forall₂] at hread
  obtain ⟨entries, hentries, hread⟩ := hread
  have hmap := mapM_eq_some_of_forall₂ hread
  rw [loadPortletTable?, table?]
  simp only [Option.bind_eq_bind, Option.bind_some] at hmap ⊢
  rw [hmap, Option.bind_some, Table.ofList_eq hentries]
  rfl

section Scalars

variable {saved fields : List (String × Value)} {name : String}
  (h : FieldsReorder saved fields) (hnames : (saved.map Prod.fst).Nodup)

include h hnames

theorem required?_string {s : String} (hs : (name, .string s) ∈ saved) :
  required? fields name string? = some s
  := by
  apply h.required?_eq hnames hs
  rintro _ ⟨⟩
  rfl

theorem required?_uint32 {n : UInt32} (hn : (name, .ofUInt32 n) ∈ saved) :
  required? fields name uint32? = some n
  := by
  apply h.required?_eq hnames hn
  rintro _ ⟨⟩
  apply uint32?_ofUInt32

theorem optional?_bool {b default : Bool} (hb : (name, .bool b) ∈ saved) :
  optional? fields name default bool? = some b
  := by
  apply h.optional?_eq hnames hb
  rintro _ ⟨⟩
  rfl

end Scalars

theorem Portlet.load?_eq {p : Portlet} (h : p.save.Reorders v) :
  Portlet.load? v = some p
  := by
  obtain ⟨fields, rfl, hfields⟩ := h.exists_of_table
  have hnames : ["id", "type"].Nodup := by decide
  have hid : required? fields "id" uint32? = some p.id :=
    required?_uint32 hfields hnames (by simp)
  have hkind : required? fields "type" PortletKind.load? = some p.kind := by
    apply hfields.required?_eq hnames (v := .string p.kind.name) (by simp)
    rintro _ ⟨⟩
    cases p.kind <;> rfl
  rw [Portlet.load?, record?]
  simp only [Option.bind_eq_bind, Option.bind_some, hid, hkind]
  rfl

theorem Endpoint.load?_eq {e : Endpoint} (h : e.save.Reorders v) :
  Endpoint.load? v = some e
  := by
  obtain ⟨fields, rfl, hfields⟩ := h.exists_of_table
  have hnames : ["nodeId", "portletId"].Nodup := by decide
  have hnode : required? fields "nodeId" string? = some e.node :=
    required?_string hfields hnames (by simp)
  have hportlet : required? fields "portletId" uint32? = some e.portlet :=
    required?_uint32 hfields hnames (by simp)
  rw [Endpoint.load?, record?]
  simp only [Option.bind_eq_bind, Option.bind_some, hnode, hportlet]
  rfl

/-- Numbers and texts are told apart without a label. -/
theorem Argument.load?_eq {a : Argument} (ha : ∀ x, a = .number x → x.isFinite)
    (h : a.save.Reorders v) :
  Argument.load? v = some a
  := by
  cases a with
  | number x =>
      rw [Argument.save, if_pos (ha x rfl)] at h
      cases h
      rfl
  | symbol s =>
      cases h
      rfl

theorem Portlets.load?_eq {portlets : Portlets}
    (h : (savePortletTable Portlet.save portlets).Reorders v) :
  loadPortletTable? Portlet.load? v = some portlets
  := by
  apply loadPortletTable?_eq h
  intro p v hp
  apply Portlet.load?_eq hp

theorem Links.load?_eq {links : Links}
    (h : (savePortletTable (fun ends => .list (ends.map Endpoint.save)) links).Reorders v) :
  Links.load? v = some links
  := by
  apply loadPortletTable?_eq h
  intro ends v hv
  apply hv.mapM_list
  intro e _ v he
  apply Endpoint.load?_eq he

/-! ### Nodes -/

/-- The numbers among the arguments are finite. -/
def Node.Finite (n : Node) : Prop := ∀ x, .number x ∈ n.args → x.isFinite

theorem Node.load?_eq {n : Node} (hn : n.Finite) (h : n.save.Reorders v) :
  Node.load? v = some n
  := by
  obtain ⟨fields, rfl, hfields⟩ := h.exists_of_table
  have hnames : Node.fieldNames.Nodup := by decide
  have hid : required? fields "id" string? = some n.id := required?_string hfields hnames (by simp)
  have htype : required? fields "type" string? = some n.type :=
    required?_string hfields hnames (by simp)
  have hargs : optional? fields "args" [] (fun v => (list? v).bind (List.mapM Argument.load?))
      = some n.args := by
    apply hfields.optional?_eq hnames (v := .list (n.args.map Argument.save)) (by simp)
    intro v hv
    apply hv.mapM_list
    intro a ha v
    apply Argument.load?_eq
    rintro x rfl
    apply hn x ha
  have hinlets : optional? fields "inlets" .empty (loadPortletTable? Portlet.load?)
      = some n.inlets :=
    hfields.optional?_eq hnames (by simp) fun _ => Portlets.load?_eq
  have houtlets : optional? fields "outlets" .empty (loadPortletTable? Portlet.load?)
      = some n.outlets :=
    hfields.optional?_eq hnames (by simp) fun _ => Portlets.load?_eq
  have hsources : optional? fields "sources" .empty Links.load? = some n.sources :=
    hfields.optional?_eq hnames (by simp) fun _ => Links.load?_eq
  have hsinks : optional? fields "sinks" .empty Links.load? = some n.sinks :=
    hfields.optional?_eq hnames (by simp) fun _ => Links.load?_eq
  have hpulls : optional? fields "isPullingSignal" false bool? = some n.pulls :=
    optional?_bool hfields hnames (by simp)
  have hpushes : optional? fields "isPushingMessages" false bool? = some n.pushes :=
    optional?_bool hfields hnames (by simp)
  rw [Node.load?, record?]
  simp only [Option.bind_eq_bind, Option.bind_some, hid, htype, hargs, hinlets, houtlets, hsources,
    hsinks, hpulls, hpushes]
  rfl

/-! ### Two tones that are mixed -/

namespace Mixer

/-- The number 440. -/
def pitch : Binary .double := ⟨0x407B800000000000⟩

/-- A tone, at outlets whose numbers have another order as texts. -/
def tone : Node :=
  { id := "tone", type := "osc~", args := [.number pitch, .symbol "sine"]
    outlets := .ofList [(2, ⟨2, .signal⟩), (10, ⟨10, .signal⟩)]
    sinks := .ofList [(2, [⟨"mix", 0⟩]), (10, [⟨"mix", 1⟩])] }

def mix : Node :=
  { id := "mix", type := "+~", pulls := true
    inlets := .ofList [(0, ⟨0, .signal⟩), (1, ⟨1, .signal⟩)]
    sources := .ofList [(0, [⟨"tone", 2⟩]), (1, [⟨"tone", 10⟩])] }

/-- A node between the two has been deleted. -/
def arena : Arena := ⟨[some tone, none, some mix], .ofList [("tone", 0), ("mix", 2)]⟩

theorem finite :
  ∀ n ∈ arena.nodes, n.Finite
  := by
  have hnumbers : ∀ n ∈ arena.nodes, ∀ x, .number x ∈ n.args → x = pitch := by
    simp [arena, Arena.nodes, tone, mix]
  intro n hn x hx
  rw [hnumbers n hn x hx]
  decide

/-- The saved arena with outlets in the order of their texts, and the type of a node first. -/
def document : Value :=
  .list
    [.table
      [("type", .string "osc~"), ("id", .string "tone"),
       ("args", .list [.float pitch, .string "sine"]),
       ("inlets", .table []),
       ("outlets", .table [("10", Portlet.save ⟨10, .signal⟩), ("2", Portlet.save ⟨2, .signal⟩)]),
       ("sources", .table []),
       ("sinks", .table
        [("10", .list [Endpoint.save ⟨"mix", 1⟩]), ("2", .list [Endpoint.save ⟨"mix", 0⟩])]),
       ("isPullingSignal", .bool false), ("isPushingMessages", .bool false)],
     mix.save]

theorem save_reorders :
  (Store.save arena).Reorders document
  := by
  have hswap : ∀ f g : String × Value, (Value.table [f, g]).Reorders (.table [g, f]) :=
    fun f g => .table (.cons (.refl f) (.cons (.refl g) .nil)) (.swap g f [])
  apply Reorders.list
  apply List.Forall₂.cons
  · apply Reorders.table _ (.swap _ _ _)
    exact .cons (.refl _) (.cons (.refl _) (.cons (.refl _) (.cons (.refl _)
      (.cons (.mk _ (hswap _ _)) (.cons (.refl _) (.cons (.mk _ (hswap _ _))
        (.cons (.refl _) (.cons (.refl _) .nil))))))))
  · exact .cons (.refl _) .nil

end Mixer

/-! ### Stores -/

/-- What is saved of a store is loaded as its nodes, whatever the order of fields. -/
theorem Store.load_save {σ κ τ ι : Type} [Store σ κ] [Store τ ι] {s : σ} {t : τ}
    (hfinite : ∀ n ∈ nodes s, n.Finite) (hv : (save s).Reorders v)
    (ht : ofNodes (nodes s) = .ok t) :
  load v = .ok t
  := by
  have hload : (do (← list? v).mapM Node.load?) = some (nodes s) := by
    apply hv.mapM_list
    intro n hn v
    apply Node.load?_eq (hfinite n hn)
  rw [load, hload]
  simp only [ht]

namespace Arena

variable {a : Arena}

/-- An arena that is valid, with a register that agrees and finite numbers, can be loaded from what
is saved of it, whatever the order of fields. It has the same nodes in the same order, at handles
that are counted from zero without a gap, and the same connections. The walks go from handle to
handle, and these are others now, but the nodes are walked through, asked about and compiled as
before. -/
theorem exists_load_save (h : a.Agrees) (hvalid : a.validate = .ok ())
    (hfinite : ∀ n ∈ a.nodes, n.Finite) (hv : (Store.save a).Reorders v) :
  ∃ b : Arena, Store.load v = .ok b ∧ b.Agrees ∧ b.nodes = a.nodes ∧
    (∀ i n, a.nodes[i]? = some n → ∃ handle, handle.toNat = i ∧ b.handle? n.id = some handle ∧
      b.at? handle = some n) ∧
    Store.edges b = Store.edges a ∧ b.signalOrder = a.signalOrder ∧
    (∀ seeds descend, (b.signalWalk seeds descend).map HandleWalk.questions =
      (a.signalWalk seeds descend).map HandleWalk.questions) ∧
    b.messageOrder = a.messageOrder ∧ b.participants = a.participants ∧ b.compile = a.compile
  := by
  have ha := h.represents
  obtain ⟨q, hq, hslots⟩ := Patch.exists_ofNodes (ha.same.validate_eq.symm.trans hvalid)
  obtain ⟨b, hb, hrepresents⟩ := (hq ▸ sameOutcome_ofNodes h.length_nodes_le).exists_ok
  have hnodes : q.nodes = (a.patch h).nodes := Patch.nodes_of_slots hslots
  have hsame : Graph.Same b a :=
    hrepresents.graph_same.trans ((Patch.same_of_nodes hnodes).trans ha.graph_same.symm)
  refine ⟨b, Store.load_save hfinite hv hb, hrepresents.agrees, hsame.nodes_eq, ?_, hsame.edges_eq,
    hsame.signalOrder_eq, ?_, hsame.messageOrder_eq, hsame.participants_eq, ?_⟩
  · intro i n hn
    have hat : q.at? i = some n := by
      have hn : (a.patch h).nodes[i]? = some n := hn
      rw [Patch.at?_eq_some_iff, hslots, List.getElem?_map, hn, Option.map_some]
    have hslot := hrepresents.map_handle? n.id
    rw [Patch.slot?_eq_some_iff.mpr ⟨n, hat, rfl⟩] at hslot
    obtain ⟨handle, hhandle, rfl⟩ := Option.map_eq_some_iff.mp hslot
    exact ⟨handle, rfl, hhandle, (hrepresents.at?_eq handle).trans hat⟩
  · intro seeds descend
    rw [hrepresents.map_questions, ha.map_questions, Patch.signalWalk_congr hnodes]
  · rw [hrepresents.compile_eq, ha.compile_eq, Patch.compile_congr hnodes]

/-- The mixer moves up to the cell that was empty. -/
theorem exists_load_save_mixer :
  Mixer.arena.Agrees ∧ Mixer.arena.validate = .ok () ∧ (∀ n ∈ Mixer.arena.nodes, n.Finite) ∧
    (Store.save Mixer.arena).Reorders Mixer.document ∧ Mixer.arena.handle? "mix" = some 2 ∧
    ∃ b : Arena, Store.load Mixer.document = .ok b ∧ b.nodes = [Mixer.tone, Mixer.mix] ∧
      b.handle? "mix" = some 1 ∧ b.signalOrder = Mixer.arena.signalOrder ∧
      b.compile = Mixer.arena.compile
  := by
  have hagrees : Mixer.arena.Agrees := by decide
  have hvalid : Mixer.arena.validate = .ok () := by decide
  obtain ⟨b, hload, -, hnodes, hhandles, -, horder, -, -, -, hcompile⟩ :=
    exists_load_save hagrees hvalid Mixer.finite Mixer.save_reorders
  obtain ⟨handle, hone, hhandle, -⟩ := hhandles 1 Mixer.mix rfl
  obtain rfl : handle = 1 := UInt32.toNat_inj.mp hone
  exact ⟨hagrees, hvalid, Mixer.finite, Mixer.save_reorders, by decide, b, hload, hnodes, hhandle,
    horder, hcompile⟩

end Arena

end AudioPatch
