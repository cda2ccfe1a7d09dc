import AudioPatch.Proofs.Compile.Stages
import AudioPatch.Settings.Saved
import Mathlib.Data.List.Count

/-!
# Hooks from two places

The hooks of one side are given in a table of their own and among the ports of the host. A pair of
a node and a portlet is a hook if either place lists it. What the ports of the host add is listed
once, however often it is repeated there or in the other table. But the table of the hooks is taken
as it is: a pair that it repeats stays repeated, and then the hook cannot be named.
-/

namespace AudioPatch

namespace Hooks

variable {hooks more : Hooks} {id : NodeId} {q : PortletId}

/-! ### How often a pair is listed -/

theorem count_pairs (hooks : Hooks) (id : NodeId) (q : PortletId) :
  hooks.pairs.count (id, q) = ((hooks.find? id).getD []).count q
  := by
  cases h : hooks.find? id with
  | none =>
      rw [Option.getD_none, List.count_nil, List.count_eq_zero, Hooks.mem_pairs_iff]
      rintro ⟨portlets, hportlets, -⟩
      cases h.symm.trans hportlets
  | some portlets =>
      calc hooks.pairs.count (id, q)
        _ = (hooks.pairs.filter fun e => e.1 = id).count (id, q) := by
          rw [List.count_filter (by simp)]
        _ = (portlets.map fun q => (id, q)).count (id, q) := by rw [Hooks.filter_pairs h]
        _ = portlets.count q := List.count_map_of_injective _ _ (Prod.mk_right_injective id) q

/-- A portlet is listed once if it is added to those that do not list it. -/
theorem count_listed (listed : List PortletId) (q q' : PortletId) :
  (if q ∈ listed then listed else listed ++ [q]).count q' =
    max (listed.count q') (if q' = q then 1 else 0)
  := by
  by_cases hq : q' = q
  · subst hq
    by_cases hlisted : q' ∈ listed
    · have hpos := List.count_pos_iff.mpr hlisted
      simp only [if_pos hlisted, if_pos]
      omega
    · have hzero := List.count_eq_zero.mpr hlisted
      simp [hlisted, hzero]
  · rw [if_neg hq, Nat.max_zero]
    split
    · rfl
    · simp [Ne.symm hq]

theorem count_add (hooks : Hooks) (id : NodeId) (q : PortletId) (e : NodeId × PortletId) :
  (hooks.add id q).pairs.count e = max (hooks.pairs.count e) (if e = (id, q) then 1 else 0)
  := by
  obtain ⟨id', q'⟩ := e
  rw [count_pairs, count_pairs, add, Table.find?_insert]
  by_cases hid : id' = id
  · subst hid
    rw [if_pos rfl, Option.getD_some, count_listed]
    simp only [Prod.mk.injEq, true_and]
  · rw [if_neg hid, if_neg fun heq => hid (Prod.mk.inj heq).1, Nat.max_zero]

/-- Hooks that are added one after the other are listed once, if they are not listed already. -/
theorem count_foldl_add (hooks : Hooks) (added : List (NodeId × PortletId))
    (e : NodeId × PortletId) :
  (added.foldl (fun hooks e => hooks.add e.1 e.2) hooks).pairs.count e =
    max (hooks.pairs.count e) (if e ∈ added then 1 else 0)
  := by
  induction added generalizing hooks with
  | nil => simp
  | cons a rest ih =>
      rw [List.foldl_cons, ih, count_add, max_assoc]
      by_cases ha : e = a
      · subst ha
        rw [if_pos rfl, if_pos List.mem_cons_self]
        split <;> rfl
      · simp [ha]

theorem nodup_foldl_add_iff (added : List (NodeId × PortletId)) :
  (added.foldl (fun hooks e => hooks.add e.1 e.2) hooks).pairs.Nodup ↔ hooks.pairs.Nodup
  := by
  simp only [List.nodup_iff_count_le_one, count_foldl_add]
  apply forall_congr'
  intro e
  split <;> omega

theorem mem_merge_iff {e : NodeId × PortletId} :
  e ∈ (hooks.merge more).pairs ↔ e ∈ hooks.pairs ∨ e ∈ more.pairs
  := by
  rw [← List.count_pos_iff, ← List.count_pos_iff (l := hooks.pairs), merge, count_foldl_add]
  split
  · simp [*]
  · simp [*]

end Hooks

namespace Settings

/-- The hooks of one side in their own table. -/
def ownHooks (s : Settings) : Side → Hooks
  | .inlet => s.callers
  | .outlet => s.listeners

/-- The hooks of one side among the ports of the host. -/
def hostHooks (s : Settings) : Side → Hooks
  | .inlet => s.host.receivers
  | .outlet => s.host.senders

theorem hooks_eq_merge (s : Settings) (side : Side) :
  s.hooks side = (s.ownHooks side).merge (s.hostHooks side)
  := by cases side <;> rfl

theorem count_hooks (s : Settings) (side : Side) (e : NodeId × PortletId) :
  (s.hooks side).pairs.count e =
    max ((s.ownHooks side).pairs.count e) (if e ∈ (s.hostHooks side).pairs then 1 else 0)
  := by
  rw [hooks_eq_merge, Hooks.merge, Hooks.count_foldl_add]

/-- A hook is only listed twice if its own table lists it twice. -/
theorem two_le_count_hooks_iff (s : Settings) (side : Side) (e : NodeId × PortletId) :
  2 ≤ (s.hooks side).pairs.count e ↔ 2 ≤ (s.ownHooks side).pairs.count e
  := by
  rw [count_hooks]
  split <;> omega

end Settings

/-! ### Hooks that cannot be named -/

theorem Hooks.two_le_count_iff {hooks : Hooks} {id : NodeId} {q : PortletId} :
  2 ≤ hooks.pairs.count (id, q)
    ↔ ∃ portlets, hooks.find? id = some portlets ∧ [q, q].Sublist portlets
  := by
  rw [← Hooks.twice_iff, ← List.replicate_sublist_iff]
  rfl

theorem Side.toList_hookScope_dot (side : Side) (id : String) :
  s!"{side.hookScope}.{id}".toList = side.hookScope.toList ++ '.' :: id.toList
  := by
  rw [String.toList_append, String.toList_append, List.append_assoc]
  rfl

theorem Side.hookScope_dot_inj {side other : Side} {id node : String}
    (h : s!"{side.hookScope}.{id}" = s!"{other.hookScope}.{node}") :
  side = other ∧ id = node
  := by
  have hlist := congrArg String.toList h
  rw [toList_hookScope_dot, toList_hookScope_dot] at hlist
  cases side with
  | inlet =>
      cases other with
      | inlet =>
          have hrest := (List.cons.inj (List.append_cancel_left hlist)).2
          exact ⟨rfl, String.toList_injective hrest⟩
      | outlet => cases (List.cons.inj hlist).1
  | outlet =>
      cases other with
      | inlet => cases (List.cons.inj hlist).1
      | outlet =>
          have hrest := (List.cons.inj (List.append_cancel_left hlist)).2
          exact ⟨rfl, String.toList_injective hrest⟩

/-- The scopes of hooks are not those of nodes. -/
theorem Side.hookScope_dot_ne (side : Side) (id : String) {s : String} {cs : List Char}
    (hs : s.toList = 'n' :: cs) :
  s!"{side.hookScope}.{id}" ≠ s
  := by
  rintro rfl
  rw [toList_hookScope_dot] at hs
  cases side with
  | inlet => cases (List.cons.inj hs).1
  | outlet => cases (List.cons.inj hs).1

section Naming

variable {p : Patch} {registry : Registry} {settings : Settings}

/-- If the name of a hook is taken, the hook is listed twice. -/
theorem Obstacle.two_le_count {side : Side} {id : NodeId} {q : PortletId}
    (h : Obstacle p registry settings
      (.symbol (.alreadyAssigned s!"{side.hookScope}.{id}" (toString q)))) :
  2 ≤ (settings.hooks side).pairs.count (id, q)
  := by
  generalize he : CompileError.symbol
    (.alreadyAssigned s!"{side.hookScope}.{id}" (toString q)) = e at h
  cases h with
  | sharedStem =>
      obtain ⟨hscope, -⟩ := SymbolError.alreadyAssigned.inj (CompileError.symbol.inj he)
      exact absurd hscope (side.hookScope_dot_ne id rfl)
  | @fieldTwice n =>
      obtain ⟨hscope, -⟩ := SymbolError.alreadyAssigned.inj (CompileError.symbol.inj he)
      have hlist : s!"nodes.{n.id}.state".toList =
          "nodes.".toList ++ n.id.toList ++ ".state".toList := by
        rw [String.toList_append, String.toList_append]
        rfl
      exact absurd hscope (side.hookScope_dot_ne id hlist)
  | hookTwice side' hpart hq htwice =>
      obtain ⟨hscope, hkey⟩ := SymbolError.alreadyAssigned.inj (CompileError.symbol.inj he)
      obtain ⟨rfl, rfl⟩ := Side.hookScope_dot_inj hscope
      obtain rfl := toString_portlet_injective hkey
      apply Hooks.two_le_count_iff.mpr ⟨_, hq, htwice⟩
  | _ => cases he

/-- If a patch is compiled, no hook of a node that takes part is listed twice. -/
theorem Patch.count_lt_of_compile (hp : p.validate = .ok ()) {result : Program × Names}
    (h : p.compile registry settings = .ok result) {side : Side} {n : Node}
    (hn : TakesPart p settings n) (q : PortletId) :
  (settings.hooks side).pairs.count (n.id, q) < 2
  := by
  obtain ⟨plan, d, d', hcompiled⟩ := Patch.exists_compiled hp h
  obtain ⟨m, hm, hid, -⟩ := hcompiled.isFor.exists_node hn
  have hmem := Patch.mem_ids_iff.mpr ⟨m, Patch.find?_of_mem hm⟩
  rw [hid] at hmem
  rw [← Nat.not_le, Hooks.two_le_count_iff, ← hcompiled.isFor.listed_twice_iff hmem]
  apply List.nodup_iff_sublist.mp (hcompiled.nameable.hooks side)

end Naming

/-! ### A buzzer that is hooked twice -/

namespace Buzzer

def buzzer : Node where
  id := "buzzer"
  type := "bang"
  inlets := .ofList [(0, ⟨0, .message⟩)]

def patch : Patch := ⟨[some buzzer], by decide⟩

def registry : Registry := .ofList [("bang", {})]

/-- Saved settings in which the host rings the buzzer, twice. -/
def document : Value :=
  .table [("inletCallerSpecs", .table [("buzzer", .list [.int 0, .int 0])])]

def settings : Settings where
  callers := .ofList [("buzzer", [0, 0])]

theorem valid :
  patch.validate = .ok ()
  := rfl

theorem responds :
  Responds patch registry settings
  := by
  have hdefault : ∀ type i, registry.find? type = some i → i = {} := by
    intro type i hi
    have hmem : (type, i) ∈ [("bang", ({} : Implementation))] := Table.mem_of_find? hi
    apply (Prod.mk.inj (List.mem_singleton.mp hmem)).2
  apply responds_of_total
  · intro type i hi c
    rw [hdefault type i hi]
    exact ⟨_, _, _, _, _, rfl, rfl, rfl, rfl, rfl⟩
  · intro type i hi
    rw [hdefault type i hi]

theorem participants_eq :
  patch.participants settings.allCallers.keys = .ok ["buzzer"]
  := by cbv

theorem takesPart :
  TakesPart patch settings buzzer
  := ⟨by simp [patch, Patch.nodes], ["buzzer"], participants_eq, List.mem_singleton_self _⟩

theorem schedule_eq :
  Schedule.make patch registry = .ok ⟨⟨[], []⟩, ⟨[], []⟩, []⟩
  := by cbv

theorem compile_eq :
  patch.compile registry settings =
    .error (.symbol (.alreadyAssigned s!"{Side.inlet.hookScope}.buzzer" (toString (0 : UInt32))))
  := by
  have hmake : Plan.make patch registry settings = .ok ⟨patch, registry, settings, ["buzzer"],
      ⟨⟨[], []⟩, ⟨[], []⟩, []⟩, settings.allCallers, settings.allListeners⟩ := by
    apply Plan.make_of_order participants_eq _ schedule_eq
    decide
  rw [Patch.compile, Graph.compile, hmake]
  rfl

theorem load_document :
  Settings.load Toml.layout document = .ok settings
  := rfl

end Buzzer

/-- A pair is a hook if either place lists it. It is listed as often as its own table lists it, and
at least once if it is among the ports of the host. So hooks are listed once if their own table
lists them once, as it does if they are added to it one at a time. If no hook is listed twice in
its own table none is found to be named already, and if one is that takes part the patch cannot be
compiled. -/
theorem Settings.hooks_unite (settings : Settings) (side : Side) :
  (∀ e, e ∈ (settings.hooks side).pairs
    ↔ e ∈ (settings.ownHooks side).pairs ∨ e ∈ (settings.hostHooks side).pairs) ∧
  (∀ e, (settings.hooks side).pairs.count e =
    max ((settings.ownHooks side).pairs.count e)
      (if e ∈ (settings.hostHooks side).pairs then 1 else 0)) ∧
  ((settings.hooks side).pairs.Nodup ↔ (settings.ownHooks side).pairs.Nodup) ∧
  (∀ added : List (NodeId × PortletId),
    (added.foldl (fun hooks e => hooks.add e.1 e.2) (settings.ownHooks side)).pairs.Nodup
      ↔ (settings.ownHooks side).pairs.Nodup) ∧
  ∀ (p : Patch) (registry : Registry), p.validate = .ok () →
    (Responds p registry settings → ∀ id q,
      p.compile registry settings =
        .error (.symbol (.alreadyAssigned s!"{side.hookScope}.{id}" (toString q))) →
      2 ≤ (settings.ownHooks side).pairs.count (id, q)) ∧
    ∀ n q, TakesPart p settings n → 2 ≤ (settings.ownHooks side).pairs.count (n.id, q) →
      ∃ e, p.compile registry settings = .error e
  := by
  refine ⟨?_, settings.count_hooks side, ?_, Hooks.nodup_foldl_add_iff, ?_⟩
  · intro e
    rw [hooks_eq_merge, Hooks.mem_merge_iff]
  · rw [hooks_eq_merge]
    apply Hooks.nodup_foldl_add_iff
  · intro p registry hp
    constructor
    · intro hresponds id q herror
      rw [← two_le_count_hooks_iff]
      have hcompile := Patch.meets_compile (Patch.coherent_of_validate hp) hresponds
      apply (hcompile.of_eq_error herror).two_le_count
    · intro n q hn htwice
      rw [← two_le_count_hooks_iff] at htwice
      rw [exists_error_iff]
      rintro ⟨result, hresult⟩
      exact absurd htwice (Nat.not_le.mpr (Patch.count_lt_of_compile hp hresult hn q))

theorem Settings.hooks_unite_buzzer :
  Buzzer.patch.validate = .ok () ∧
    Responds Buzzer.patch Buzzer.registry Buzzer.settings ∧
    TakesPart Buzzer.patch Buzzer.settings Buzzer.buzzer ∧
    Buzzer.patch.compile Buzzer.registry Buzzer.settings = .error (.symbol
      (.alreadyAssigned s!"{Side.inlet.hookScope}.buzzer" (toString (0 : UInt32)))) ∧
    2 ≤ (Buzzer.settings.ownHooks .inlet).pairs.count ("buzzer", 0) ∧
    ∃ e, Buzzer.patch.compile Buzzer.registry Buzzer.settings = .error e
  := by
  obtain ⟨-, -, -, -, hcompile⟩ := Settings.hooks_unite Buzzer.settings .inlet
  obtain ⟨htwice, hfails⟩ := hcompile Buzzer.patch Buzzer.registry Buzzer.valid
  have hcount := htwice Buzzer.responds "buzzer" 0 Buzzer.compile_eq
  exact ⟨Buzzer.valid, Buzzer.responds, Buzzer.takesPart, Buzzer.compile_eq, hcount,
    hfails Buzzer.buzzer 0 Buzzer.takesPart hcount⟩

/-- Hooks are not always listed once, nor is a hook always named if it is given several times. -/
theorem Settings.not_forall_hooks_nodup :
  Settings.load Toml.layout Buzzer.document = .ok Buzzer.settings ∧
    ¬ (Buzzer.settings.hooks .inlet).pairs.Nodup ∧
    Buzzer.patch.compile Buzzer.registry Buzzer.settings =
      .error (.symbol (.alreadyAssigned "inletCallers.buzzer" "0"))
  := ⟨Buzzer.load_document, by decide, Buzzer.compile_eq⟩

end AudioPatch
