import AudioPatch.Proofs.Symbol.Collisions

/-!
# Asking for symbols of global code

The symbol of a key in a namespace is the same whenever it is asked for: it is stored on the first
use, and what is stored is always the namespace joined with the key (`Names.Regular`). To ask a
second time changes nothing. This holds of all names that declarations lead to (`Names.Built`).
-/

namespace AudioPatch.Names

/-- Names that come from blank ones by declarations, which may fail, and by changes to the names of
nodes that are known. -/
inductive Built : Names → Prop where
  | blank (debug : Bool) : Built { debug := debug }
  | declare {names : Names} (h : Built names) (declaration : Declaration) :
      Built (names.declare declaration).2
  | node {names : Names} (h : Built names) {id : String} (hid : (names.nodes.get? id).isSome)
      (own : NodeNames) :
      Built { names with nodes := names.nodes.put id own }

/-- All stored symbols of global code are those of their namespaces and keys. -/
def Regular (names : Names) : Prop :=
  ∀ space key symbol, stored? names.globalCode space key = some symbol → symbol = joined space key

/-- The answer to the question for a symbol of global code. -/
def globalAnswer (space key : String) : Except SymbolError String := do
  checkNamePart space
  checkNamePart key
  return joined space key

variable {names : Names} {space space' key key' symbol : String}

/-! ### One question -/

theorem globalAnswer_of_isNamePart (hspace : isNamePart space) (hkey : isNamePart key) :
  globalAnswer space key = .ok (joined space key)
  := by
  rw [globalAnswer, checkNamePart_of_isNamePart hspace, checkNamePart_of_isNamePart hkey]
  rfl

/-- A question with a part that cannot be in a name is refused. -/
theorem globalSymbol_of_not_isNamePart (h : ¬ (isNamePart space ∧ isNamePart key)) :
  names.globalSymbol space key = (globalAnswer space key, names)
  := by
  rw [globalSymbol, globalAnswer, checkNamePart, checkNamePart]
  by_cases hspace : isNamePart space
  · rw [if_pos hspace, if_neg fun hkey => h ⟨hspace, hkey⟩]
    rfl
  · rw [if_neg hspace]
    rfl

theorem globalSymbol_of_isNamePart (hspace : isNamePart space) (hkey : isNamePart key) :
  names.globalSymbol space key =
    (let (inner, outer) := names.globalCode.getOrDeclare space (.empty s!"globalCode.{space}")
     let (symbol, inner) := inner.getOrDeclare key (joined space key)
     (.ok symbol, { names with globalCode := outer.put space inner }))
  := by
  rw [globalSymbol, checkNamePart_of_isNamePart hspace, checkNamePart_of_isNamePart hkey]
  rfl

theorem stored?_eq_bind (hspace : isNamePart space) (hkey : isNamePart key) :
  stored? names.globalCode space key =
    (names.globalCode.get? space).bind fun inner => inner.get? key
  := by
  simp only [stored?, Scope.get?, canonicalKey_of_isNamePart hspace,
    canonicalKey_of_isNamePart hkey]

/-- A symbol that is stored is the answer, and nothing changes. -/
theorem globalSymbol_of_stored? (hspace : isNamePart space) (hkey : isNamePart key)
    (h : stored? names.globalCode space key = some symbol) :
  names.globalSymbol space key = (.ok symbol, names)
  := by
  rw [stored?_eq_bind hspace hkey] at h
  obtain ⟨inner, hinner, hsymbol⟩ := Option.bind_eq_some_iff.mp h
  simp only [globalSymbol_of_isNamePart hspace hkey, Scope.getOrDeclare, hinner, hsymbol,
    Scope.put_of_get? hinner]

/-- A symbol that is not stored is stored, and no other one changes. -/
theorem globalSymbol_of_not_stored? (hspace : isNamePart space) (hkey : isNamePart key)
    (h : stored? names.globalCode space key = none) :
  (names.globalSymbol space key).1 = .ok (joined space key) ∧
    ∀ space' key', stored? (names.globalSymbol space key).2.globalCode space' key' =
      if space' = space ∧ key' = key then some (joined space key)
      else stored? names.globalCode space' key'
  := by
  have hinner : ∀ key',
      (names.globalCode.getOrDeclare space (.empty s!"globalCode.{space}")).1.entries.find? key' =
        stored? names.globalCode space key' := by
    intro key'
    rw [find?_getOrDeclare, canonicalKey_of_isNamePart hspace]
  have hnone : (names.globalCode.getOrDeclare space
      (.empty s!"globalCode.{space}")).1.get? key = none := by
    rw [Scope.get?, canonicalKey_of_isNamePart hkey, hinner, h]
  rw [globalSymbol_of_isNamePart hspace hkey]
  simp only [Scope.getOrDeclare.eq_def _ key, hnone]
  refine ⟨trivial, ?_⟩
  intro space' key'
  rw [stored?, find?_put_getOrDeclare, canonicalKey_of_isNamePart hspace]
  by_cases hsame : space' = space
  · subst hsame
    rw [if_pos rfl, Option.bind_some, Scope.put, Table.find?_insert, hinner,
      canonicalKey_of_isNamePart hkey]
    simp
  · rw [if_neg hsame, if_neg fun heq => hsame heq.1]
    rfl

/-- What is stored after a question: what was stored before it and the symbol in question, if its
parts can be in a name. -/
theorem stored?_globalSymbol (names : Names) (space key space' key' : String) :
  stored? (names.globalSymbol space key).2.globalCode space' key' =
    (stored? names.globalCode space' key').or
      (if isNamePart space ∧ isNamePart key ∧ space' = space ∧ key' = key then
        some (joined space key) else none)
  := by
  by_cases hparts : isNamePart space ∧ isNamePart key
  · obtain ⟨hspace, hkey⟩ := hparts
    cases h : stored? names.globalCode space key with
    | some symbol =>
        rw [globalSymbol_of_stored? hspace hkey h]
        by_cases hsame : space' = space ∧ key' = key
        · rw [hsame.1, hsame.2, h]
          rfl
        · rw [if_neg fun heq => hsame heq.2.2, Option.or_none]
    | none =>
        rw [(globalSymbol_of_not_stored? hspace hkey h).2]
        by_cases hsame : space' = space ∧ key' = key
        · rw [if_pos hsame, hsame.1, hsame.2, h, if_pos ⟨hspace, hkey, rfl, rfl⟩]
          rfl
        · rw [if_neg hsame, if_neg fun heq => hsame heq.2.2, Option.or_none]
  · rw [globalSymbol_of_not_isNamePart hparts, if_neg fun heq => hparts ⟨heq.1, heq.2.1⟩,
      Option.or_none]

namespace Regular

/-- The answer to a question does not depend on the questions before. -/
theorem fst_globalSymbol (h : names.Regular) (space key : String) :
  (names.globalSymbol space key).1 = globalAnswer space key
  := by
  by_cases hparts : isNamePart space ∧ isNamePart key
  · obtain ⟨hspace, hkey⟩ := hparts
    rw [globalAnswer_of_isNamePart hspace hkey]
    cases hstored : stored? names.globalCode space key with
    | some symbol =>
        rw [globalSymbol_of_stored? hspace hkey hstored, h space key symbol hstored]
    | none => apply (globalSymbol_of_not_stored? hspace hkey hstored).1
  · rw [globalSymbol_of_not_isNamePart hparts]

theorem globalSymbol (h : names.Regular) (space key : String) :
  (names.globalSymbol space key).2.Regular
  := by
  intro space' key' symbol hsymbol
  rw [stored?_globalSymbol, Option.or_eq_some_iff] at hsymbol
  rcases hsymbol with hold | ⟨-, hnew⟩
  · apply h space' key' symbol hold
  · obtain ⟨⟨-, -, rfl, rfl⟩, hsame⟩ := Option.ite_none_right_eq_some.mp hnew
    rw [Option.some.inj hsame]

theorem of_globalCode_eq {names' : Names} (h : names.Regular)
    (hsame : names'.globalCode = names.globalCode) :
  names'.Regular
  := by
  rw [Regular, hsame]
  apply h

end Regular

/-! ### Questions that have been asked -/

/-- A symbol of global code has been asked for. -/
def Asked (names : Names) (space key : String) : Prop :=
  isNamePart space → isNamePart key → (stored? names.globalCode space key).isSome

theorem asked_globalSymbol (names : Names) (space key : String) :
  (names.globalSymbol space key).2.Asked space key
  := by
  intro hspace hkey
  rw [stored?_globalSymbol, Option.isSome_or, if_pos ⟨hspace, hkey, rfl, rfl⟩]
  apply Bool.or_true

namespace Asked

/-- What has been asked for stays so. -/
theorem globalSymbol (h : names.Asked space key) (space' key' : String) :
  (names.globalSymbol space' key').2.Asked space key
  := by
  intro hspace hkey
  rw [stored?_globalSymbol, Option.isSome_or, h hspace hkey]
  rfl

/-- To ask a second time changes nothing. -/
theorem snd_globalSymbol (h : names.Asked space key) :
  (names.globalSymbol space key).2 = names
  := by
  by_cases hparts : isNamePart space ∧ isNamePart key
  · obtain ⟨hspace, hkey⟩ := hparts
    obtain ⟨symbol, hsymbol⟩ := Option.isSome_iff_exists.mp (h hspace hkey)
    rw [globalSymbol_of_stored? hspace hkey hsymbol]
  · rw [globalSymbol_of_not_isNamePart hparts]

end Asked

/-! ### Names that declarations lead to -/

theorem globalCode_declareNode (names : Names) (id type : String) (fields : Option (List String)) :
  (names.declareNode id type fields).2.globalCode = names.globalCode
  := by
  rw [declareNode]
  split
  · rfl
  · split
    · rfl
    · split
      · rfl
      · split <;> rfl

theorem globalCode_declareColdGroup (names : Names) (index : Nat) :
  (names.declareColdGroup index).2.globalCode = names.globalCode
  := by
  rw [declareColdGroup]
  split <;> rfl

theorem globalCode_declareHook (names : Names) (side : Side) (id : String) (q : UInt32) :
  (names.declareHook side id q).2.globalCode = names.globalCode
  := by
  obtain ⟨hooks, hhooks⟩ := exists_declareHook_eq names side id q
  rw [hhooks]
  cases side <;> rfl

/-- The symbols of global code are never stored otherwise. -/
theorem Built.regular (h : names.Built) :
  names.Regular
  := by
  induction h with
  | blank debug => nofun
  | declare _ declaration ih =>
      cases declaration with
      | node id type fields => apply ih.of_globalCode_eq (globalCode_declareNode ..)
      | coldGroup index => apply ih.of_globalCode_eq (globalCode_declareColdGroup ..)
      | hook side id q => apply ih.of_globalCode_eq (globalCode_declareHook ..)
      | globalCode space key => apply ih.globalSymbol
  | node _ _ own ih => apply ih

end AudioPatch.Names
