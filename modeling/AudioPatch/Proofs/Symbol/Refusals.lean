import AudioPatch.Proofs.Symbol.GlobalCode

/-!
# Declarations that fail

A declaration that fails leaves the names as they were, with one exception. The stem of a node is
taken before the fields of its state and its id are declared, and it stays in use if one of these
is refused. Such a stem is the only thing that is left behind. It shows in the answers to later
declarations of nodes with that stem, and nowhere else.
-/

namespace AudioPatch.Names

/-! ### Calls -/

/-- A use of names: to declare something, to look at the names of a node, or to change them. -/
inductive Call where
  | declare (declaration : Declaration)
  | look (id : String)
  | change (id : String) (f : NodeNames → NodeNames)

/-- A symbol, or the names of a node. -/
abbrev Answer := Except SymbolError (String ⊕ NodeNames)

/-- The answer to a call, and the names after it. -/
def call (names : Names) : Call → Answer × Names
  | .declare declaration =>
      let (answer, names) := names.declare declaration
      (answer.map .inl, names)
  | .look id => ((names.node id).map .inr, names)
  | .change id f =>
      match names.node id with
      | .error e => (.error e, names)
      | .ok own => (.ok (.inr (f own)), { names with nodes := names.nodes.put id (f own) })

/-- The answers to calls, and the names after them. -/
def callAll (names : Names) (calls : List Call) : List Answer × Names := answerAll call names calls

/-- The names with other stems in use. -/
def withStems (names : Names) (stems : List String) : Names := { names with stems := stems }

/-- The names with one more stem in use. -/
def withStem (names : Names) (stem : String) : Names := names.withStems (stem :: names.stems)

/-- All that can be seen of names, which is everything but the stems in use. -/
def visible (names : Names) : Names := names.withStems []

/-- The stem of the node that is declared. -/
def Declaration.stem? (debug : Bool) : Declaration → Option String
  | .node id type _ => (nodeStem debug id type).toOption
  | _ => none

/-- The stem of the node that a call declares. -/
def Call.stem? (debug : Bool) : Call → Option String
  | .declare declaration => declaration.stem? debug
  | _ => none

/-- The stem that a declaration takes, if it is not in use. -/
def newStem? (names : Names) (declaration : Declaration) : Option String :=
  (declaration.stem? names.debug).filter fun stem => stem ∉ names.stems

variable {names names' : Names} {id type stem : String} {fields : Option (List String)}
  {declaration : Declaration} {e : SymbolError}

/-! ### Declarations of nodes -/

/-- The nodes with one more, once its stem is taken. -/
def entered (nodes : Scope NodeNames) (id stem : String) (fields : Option (List String)) :
    Except SymbolError (Scope NodeNames) := do
  nodes.declare id (← NodeNames.ofFields id stem fields)

theorem declareNode_of_invalid (h : nodeStem names.debug id type = .error e) :
  names.declareNode id type fields = (.error e, names)
  := by
  simp only [declareNode, h]

theorem declareNode_of_taken (h : nodeStem names.debug id type = .ok stem)
    (htaken : stem ∈ names.stems) :
  names.declareNode id type fields = (.error (.alreadyAssigned "nodes" stem), names)
  := by
  simp only [declareNode, h, if_pos htaken]

/-- A new stem stays in use, whether or not the node can be entered. -/
theorem declareNode_of_new (h : nodeStem names.debug id type = .ok stem)
    (hnew : stem ∉ names.stems) :
  names.declareNode id type fields =
    ((entered names.nodes id stem fields).map fun _ => stem,
      { names.withStem stem with
        nodes := (entered names.nodes id stem fields).toOption.getD names.nodes })
  := by
  simp only [declareNode, h, if_neg hnew, entered]
  cases NodeNames.ofFields id stem fields with
  | error e => rfl
  | ok node =>
      simp only [ok_bind]
      cases names.nodes.declare id node with
      | error e => rfl
      | ok nodes => rfl

theorem newStem?_of_taken (h : nodeStem names.debug id type = .ok stem)
    (htaken : stem ∈ names.stems) :
  names.newStem? (.node id type fields) = none
  := by
  rw [newStem?, Declaration.stem?, h]
  simp [Except.toOption, htaken]

theorem newStem?_of_invalid (h : nodeStem names.debug id type = .error e) :
  names.newStem? (.node id type fields) = none
  := by
  rw [newStem?, Declaration.stem?, h]
  rfl

theorem newStem?_node_eq_some_iff :
  names.newStem? (.node id type fields) = some stem
    ↔ nodeStem names.debug id type = .ok stem ∧ stem ∉ names.stems
  := by
  rw [newStem?, Declaration.stem?, Option.filter_eq_some_iff, decide_eq_true_iff]
  cases nodeStem names.debug id type with
  | error e => simp [Except.toOption]
  | ok stem' => simp [Except.toOption]

/-! ### What a failure leaves behind -/

theorem declareColdGroup_of_error {index : Nat} (h : (names.declareColdGroup index).1 = .error e) :
  (names.declareColdGroup index).2 = names
  := by
  rw [declareColdGroup] at h ⊢
  cases hgroups : names.coldGroups.declare (toString index) s!"COLD_{index}" with
  | error e' => rfl
  | ok groups =>
      simp only [hgroups] at h
      cases h

/-- If a key of an inner scope is taken, the inner scope was there. -/
theorem declareInner_of_error {outer : Scope (Scope String)} {key value : String}
    (h : (declareInner outer id key value).1 = .error e) :
  (declareInner outer id key value).2 = outer
  := by
  rw [declareInner, Scope.getOrDeclare] at h ⊢
  cases hinner : outer.get? id with
  | none =>
      simp only [hinner] at h
      cases h
  | some inner =>
      simp only [hinner] at h ⊢
      cases hdeclare : inner.declare key value with
      | error e' => rfl
      | ok inner' =>
          simp only [hdeclare] at h
          cases h

theorem declareHook_of_error {side : Side} {q : UInt32}
    (h : (names.declareHook side id q).1 = .error e) :
  (names.declareHook side id q).2 = names
  := by
  by_cases hid : isNamePart id
  · rw [declareHook_eq hid] at h ⊢
    rw [declareInner_of_error h, withHooks_hooks]
  · rw [declareHook, checkNamePart, if_neg hid]

theorem globalSymbol_of_error {space key : String}
    (h : (names.globalSymbol space key).1 = .error e) :
  (names.globalSymbol space key).2 = names
  := by
  by_cases hparts : isNamePart space ∧ isNamePart key
  · rw [globalSymbol_of_isNamePart hparts.1 hparts.2] at h
    cases h
  · rw [globalSymbol_of_not_isNamePart hparts]

/-- A declaration that fails leaves nothing behind but the stem that it takes. -/
theorem snd_declare_of_error (h : (names.declare declaration).1 = .error e) :
  (names.declare declaration).2 = (names.newStem? declaration).elim names names.withStem
  := by
  cases declaration with
  | node id type fields =>
      rw [declare] at h ⊢
      cases hstem : nodeStem names.debug id type with
      | error e' => rw [declareNode_of_invalid hstem, newStem?_of_invalid hstem, Option.elim_none]
      | ok stem =>
          by_cases htaken : stem ∈ names.stems
          · rw [declareNode_of_taken hstem htaken, newStem?_of_taken hstem htaken,
              Option.elim_none]
          · rw [declareNode_of_new hstem htaken] at h ⊢
            rw [newStem?_node_eq_some_iff.mpr ⟨hstem, htaken⟩, Option.elim_some]
            cases hentered : entered names.nodes id stem fields with
            | error e' => rfl
            | ok nodes =>
                rw [hentered] at h
                cases h
  | coldGroup index => apply declareColdGroup_of_error h
  | hook side id q => apply declareHook_of_error h
  | globalCode space key => apply globalSymbol_of_error h

/-! ### Calls that take no stem -/

/-- The stems in use make no difference to a use of names, and are not changed by it. -/
def StemFree {α : Type} (use : Names → α × Names) : Prop :=
  ∀ names stems, use (names.withStems stems) = ((use names).1, (use names).2.withStems stems)

theorem StemFree.stems_eq {α : Type} {use : Names → α × Names} (h : StemFree use)
    (names : Names) :
  (use names).2.stems = names.stems
  := by
  have hself : use names = ((use names).1, (use names).2.withStems names.stems) :=
    h names names.stems
  rw [hself]
  rfl

theorem stemFree_declareColdGroup (index : Nat) :
  StemFree fun names => names.declareColdGroup index
  := by
  intro names stems
  simp only [declareColdGroup, withStems]
  cases names.coldGroups.declare (toString index) s!"COLD_{index}" with
  | error e => rfl
  | ok groups => rfl

theorem stemFree_declareHook (side : Side) (id : String) (q : UInt32) :
  StemFree fun names => names.declareHook side id q
  := by
  intro names stems
  simp only [declareHook]
  cases checkNamePart id with
  | error e => rfl
  | ok _ => cases side <;> rfl

theorem stemFree_globalSymbol (space key : String) :
  StemFree fun names => names.globalSymbol space key
  := by
  intro names stems
  by_cases hparts : isNamePart space ∧ isNamePart key
  · simp only [globalSymbol_of_isNamePart hparts.1 hparts.2]
    rfl
  · simp only [globalSymbol_of_not_isNamePart hparts]

/-- Only the declaration of a node has to do with stems. -/
theorem stemFree_call {c : Call} (h : ∀ id type fields, c ≠ .declare (.node id type fields)) :
  StemFree fun names => names.call c
  := by
  intro names stems
  cases c with
  | declare declaration =>
      have hdeclare : StemFree fun names => names.declare declaration := by
        cases declaration with
        | node id type fields => exact absurd rfl (h id type fields)
        | coldGroup index => apply stemFree_declareColdGroup
        | hook side id q => apply stemFree_declareHook
        | globalCode space key => apply stemFree_globalSymbol
      simp only [call, hdeclare names stems]
  | look id => rfl
  | change id f =>
      have hnode : (names.withStems stems).node id = names.node id := rfl
      simp only [call, hnode]
      cases names.node id with
      | error e => rfl
      | ok own => rfl

theorem debug_declareNode (names : Names) (id type : String) (fields : Option (List String)) :
  (names.declareNode id type fields).2.debug = names.debug
  := by
  cases hstem : nodeStem names.debug id type with
  | error e => rw [declareNode_of_invalid hstem]
  | ok stem =>
      by_cases htaken : stem ∈ names.stems
      · rw [declareNode_of_taken hstem htaken]
      · rw [declareNode_of_new hstem htaken]
        rfl

/-- Whether names are readable never changes. -/
theorem debug_call (names : Names) (c : Call) :
  (names.call c).2.debug = names.debug
  := by
  cases c with
  | declare declaration =>
      cases declaration with
      | node id type fields => apply debug_declareNode
      | coldGroup index =>
          simp only [call, declare, declareColdGroup]
          cases names.coldGroups.declare (toString index) s!"COLD_{index}" with
          | error e => rfl
          | ok groups => rfl
      | hook side id q =>
          obtain ⟨hooks, hhooks⟩ := exists_declareHook_eq names side id q
          simp only [call, declare, hhooks]
          cases side <;> rfl
      | globalCode space key =>
          by_cases hparts : isNamePart space ∧ isNamePart key
          · simp only [call, declare, globalSymbol_of_isNamePart hparts.1 hparts.2]
          · simp only [call, declare, globalSymbol_of_not_isNamePart hparts]
  | look id => rfl
  | change id f =>
      simp only [call]
      cases names.node id with
      | error e => rfl
      | ok own => rfl

/-! ### Names that differ in one stem -/

/-- The second names have the same stems in use as the first ones, and one more; all else is the
same. -/
structure OneMore (stem : String) (names names' : Names) : Prop where
  visible : names' = names.withStems names'.stems
  stems : ∀ s, s ∈ names'.stems ↔ s = stem ∨ s ∈ names.stems

theorem oneMore_withStem (names : Names) (stem : String) :
  OneMore stem names (names.withStem stem)
  := ⟨rfl, fun _ => List.mem_cons⟩

variable {c : Call}

theorem OneMore.declareNode (h : OneMore stem names names')
    (hother : nodeStem names.debug id type ≠ .ok stem) (fields : Option (List String)) :
  (names'.declareNode id type fields).1 = (names.declareNode id type fields).1 ∧
    OneMore stem (names.declareNode id type fields).2 (names'.declareNode id type fields).2
  := by
  have hdebug : names'.debug = names.debug := by rw [h.visible]; rfl
  have hnodes : names'.nodes = names.nodes := by rw [h.visible]; rfl
  cases hstem : nodeStem names.debug id type with
  | error e =>
      have hstem' : nodeStem names'.debug id type = .error e := by rw [hdebug, hstem]
      rw [declareNode_of_invalid hstem, declareNode_of_invalid hstem']
      exact ⟨rfl, h⟩
  | ok taken =>
      have hstem' : nodeStem names'.debug id type = .ok taken := by rw [hdebug, hstem]
      have hne : taken ≠ stem := fun heq => hother (hstem.trans (congrArg Except.ok heq))
      have hiff : taken ∈ names'.stems ↔ taken ∈ names.stems := by
        rw [h.stems, or_iff_right hne]
      by_cases htaken : taken ∈ names.stems
      · rw [declareNode_of_taken hstem htaken, declareNode_of_taken hstem' (hiff.mpr htaken)]
        exact ⟨rfl, h⟩
      · rw [declareNode_of_new hstem htaken, declareNode_of_new hstem' (mt hiff.mp htaken), hnodes]
        refine ⟨rfl, ?_, ?_⟩
        · rw [h.visible]
          rfl
        · intro s
          show s ∈ taken :: names'.stems ↔ s = stem ∨ s ∈ taken :: names.stems
          rw [List.mem_cons, List.mem_cons, h.stems, or_left_comm]

/-- A call answers alike if it does not declare a node with the stem. -/
theorem OneMore.call (h : OneMore stem names names') (hc : c.stem? names.debug ≠ some stem) :
  (names'.call c).1 = (names.call c).1 ∧ OneMore stem (names.call c).2 (names'.call c).2
  := by
  by_cases hnode : ∃ id type fields, c = .declare (.node id type fields)
  · obtain ⟨id, type, fields, rfl⟩ := hnode
    have hother : nodeStem names.debug id type ≠ .ok stem := by
      intro hstem
      apply hc
      rw [Call.stem?, Declaration.stem?, hstem]
      rfl
    obtain ⟨hanswer, hmore⟩ := h.declareNode hother fields
    exact ⟨congrArg (Except.map Sum.inl) hanswer, hmore⟩
  · have hfree : StemFree fun names => names.call c := by
      apply stemFree_call
      intro id type fields heq
      apply hnode ⟨id, type, fields, heq⟩
    have hcall := hfree names names'.stems
    rw [← h.visible] at hcall
    simp only [hcall, true_and]
    constructor
    · rfl
    · intro s
      rw [hfree.stems_eq names]
      apply h.stems

/-- Calls answer alike as long as none declares a node with the stem. -/
theorem OneMore.callAll (h : OneMore stem names names') {calls : List Call}
    (hcalls : ∀ c ∈ calls, c.stem? names.debug ≠ some stem) :
  (names'.callAll calls).1 = (names.callAll calls).1 ∧
    OneMore stem (names.callAll calls).2 (names'.callAll calls).2
  := by
  induction calls generalizing names names' with
  | nil => exact ⟨rfl, h⟩
  | cons c rest ih =>
      obtain ⟨hfirst, hrest⟩ := List.forall_mem_cons.mp hcalls
      obtain ⟨hanswer, hmore⟩ := h.call hfirst
      rw [← debug_call names c] at hrest
      obtain ⟨hanswers, hmore⟩ := ih hmore hrest
      exact ⟨congrArg₂ List.cons hanswer hanswers, hmore⟩

/-! ### A stem that is left behind -/

/-- Fields of which two have one key are refused in the scope of the node's state. -/
theorem exists_ofFields_twice (id stem field : String) :
  ∃ key, NodeNames.ofFields id stem (some [field, field]) =
    .error (.alreadyAssigned s!"nodes.{id}.state" key)
  := by
  have hfields := NodeNames.meets_ofFields id stem (some [field, field])
  cases h : NodeNames.ofFields id stem (some [field, field]) with
  | error e =>
      obtain ⟨shape, key, -, -, he⟩ := hfields.of_eq_error h
      exact ⟨key, congrArg Except.error he⟩
  | ok own =>
      have hnodup := (hfields.of_eq_ok h).2.2 _ rfl
      simp at hnodup

theorem nodes_ne_state_scope (id : String) :
  "nodes" ≠ s!"nodes.{id}.state"
  := by
  intro h
  have hlength : 5 = 6 + id.length + 6 := by
    rw [show 5 = "nodes".length from rfl, h, String.length_append, String.length_append]
    rfl
  omega

/-- A stem that is in use shows when its node is declared once more: the node is refused for its
stem, before its fields are looked at. -/
theorem exists_call_ne (h : names.newStem? declaration = some stem) :
  ∃ c, ((names.withStem stem).call c).1 ≠ (names.call c).1
  := by
  cases declaration with
  | node id type fields =>
      obtain ⟨hstem, hnew⟩ := newStem?_node_eq_some_iff.mp h
      obtain ⟨key, hkey⟩ := exists_ofFields_twice id stem "phase"
      have htaken : (names.withStem stem).declareNode id type (some ["phase", "phase"]) = _ :=
        declareNode_of_taken hstem List.mem_cons_self
      use .declare (.node id type (some ["phase", "phase"]))
      simp only [call, declare, htaken, declareNode_of_new hstem hnew, entered, hkey]
      intro hsame
      obtain ⟨hscope, -⟩ := SymbolError.alreadyAssigned.inj (Except.error.inj hsame)
      apply nodes_ne_state_scope id hscope
  | coldGroup index => cases h
  | hook side id q => cases h
  | globalCode space key => cases h

/-! ### A tone with a field too many -/

namespace Tone

def blank : Names := { debug := false }

/-- Two fields of the state are one. -/
def twice : Declaration := .node "tone" "osc~" (some ["phase", "phase"])

def once : Declaration := .node "tone" "osc~" (some ["phase"])

/-- Calls that do not declare the tone, though they ask for it. -/
def others : List Call :=
  [.declare (.node "lamp" "dac~" none), .look "tone", .declare (.hook .inlet "tone" 0)]

theorem refused :
  (blank.declare twice).1 = .error (.alreadyAssigned "nodes.tone.state" "phase")
  := by decide

theorem newStem?_twice :
  blank.newStem? twice = some "tone"
  := by decide

theorem stem?_others :
  ∀ c ∈ others, c.stem? blank.debug ≠ some "tone"
  := by
  simp only [others, List.forall_mem_cons]
  decide

end Tone

/-- A declaration that fails leaves the names as they were, or with one more stem in use, if it
takes a new one. Every later run of calls is answered as if the declaration had not been made
exactly if it takes none. If it takes one, a run of calls is still answered alike, and leads to
names in which the same can be seen, as long as it declares no node with that stem. -/
theorem failed_declare_unseen_iff (h : (names.declare declaration).1 = .error e) :
  (names.declare declaration).2 = (names.newStem? declaration).elim names names.withStem ∧
  ((∀ calls, ((names.declare declaration).2.callAll calls).1 = (names.callAll calls).1 ∧
      ((names.declare declaration).2.callAll calls).2.visible = (names.callAll calls).2.visible)
    ↔ names.newStem? declaration = none) ∧
  ∀ stem, names.newStem? declaration = some stem →
    ∀ calls, (∀ c ∈ calls, c.stem? names.debug ≠ some stem) →
      ((names.declare declaration).2.callAll calls).1 = (names.callAll calls).1 ∧
      ((names.declare declaration).2.callAll calls).2.visible = (names.callAll calls).2.visible
  := by
  have hleft := snd_declare_of_error h
  refine ⟨hleft, ?_, ?_⟩
  · constructor
    · intro hsame
      cases hnew : names.newStem? declaration with
      | none => rfl
      | some stem =>
          obtain ⟨c, hc⟩ := exists_call_ne hnew
          rw [hnew, Option.elim_some] at hleft
          rw [hleft] at hsame
          exact absurd (List.cons.inj (hsame [c]).1).1 hc
    · intro hnone calls
      rw [hleft, hnone]
      exact ⟨rfl, rfl⟩
  · intro stem hnew calls hcalls
    rw [hnew, Option.elim_some] at hleft
    rw [hleft]
    obtain ⟨hanswers, hmore⟩ := (oneMore_withStem names stem).callAll hcalls
    refine ⟨hanswers, ?_⟩
    rw [hmore.visible]
    rfl

theorem failed_declare_unseen_iff_tone :
  (Tone.blank.declare Tone.twice).1 = .error (.alreadyAssigned "nodes.tone.state" "phase") ∧
    Tone.blank.newStem? Tone.twice = some "tone" ∧
    (∀ c ∈ Tone.others, c.stem? Tone.blank.debug ≠ some "tone") ∧
    (Tone.blank.declare Tone.twice).2.stems = ["tone"] ∧
    ((Tone.blank.declare Tone.twice).2.callAll Tone.others).1 = (Tone.blank.callAll Tone.others).1
  := by
  obtain ⟨hleft, -, hothers⟩ := failed_declare_unseen_iff Tone.refused
  rw [Tone.newStem?_twice] at hleft
  refine ⟨Tone.refused, Tone.newStem?_twice, Tone.stem?_others, ?_, ?_⟩
  · rw [hleft]
    rfl
  · apply (hothers "tone" Tone.newStem?_twice Tone.others Tone.stem?_others).1

/-- A declaration that fails can make a later one fail: the tone cannot be declared any more. -/
theorem not_forall_failed_declare_unseen :
  ¬ ∀ names declaration e, Built names → (names.declare declaration).1 = .error e →
    ∀ calls, ((names.declare declaration).2.callAll calls).1 = (names.callAll calls).1
  := by
  intro h
  have hsame := h Tone.blank Tone.twice _ (.blank false) Tone.refused [.declare Tone.once]
  have hanswer : (Tone.blank.callAll [.declare Tone.once]).1 = [.ok (.inl "tone")] := by decide
  have hanswer' : ((Tone.blank.declare Tone.twice).2.callAll [.declare Tone.once]).1 =
      [.error (.alreadyAssigned "nodes" "tone")] := by decide
  rw [hanswer, hanswer'] at hsame
  cases hsame

end AudioPatch.Names
