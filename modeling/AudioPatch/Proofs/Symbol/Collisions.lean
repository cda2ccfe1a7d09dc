import AudioPatch.Proofs.Symbol.Spelling

/-!
# Symbols that are spelled alike

The symbols of hooks and of global code are made of texts that may have underscores of their own,
and a declaration looks at its own table only. So two entries can come to have one symbol. This is
so exactly if a namespace of global code ends at an underscore of another symbol and its key is the
rest of it, or if a hook is spelled as a portlet of a node whose stem starts as hooks do.
-/

namespace AudioPatch.Names

/-! ### Declarations -/

/-- A declaration of names. -/
inductive Declaration where
  | node (id type : String) (fields : Option (List String))
  | coldGroup (index : Nat)
  | hook (side : Side) (id : String) (q : UInt32)
  | globalCode (space key : String)

/-- Makes a declaration. -/
def declare (names : Names) : Declaration → Except SymbolError String × Names
  | .node id type fields => names.declareNode id type fields
  | .coldGroup index => names.declareColdGroup index
  | .hook side id q => names.declareHook side id q
  | .globalCode space key => names.globalSymbol space key

/-- Makes declarations that all succeed. -/
def declareAll (names : Names) (declarations : List Declaration) : Except SymbolError Names :=
  declarations.foldlM
    (fun names declaration => do
      let _ ← (names.declare declaration).1
      return (names.declare declaration).2)
    names

/-! ### Entries -/

/-- What a symbol in the names stands for. -/
inductive Entry where
  | portlet (id : String) (mark : Mark) (q : UInt32)
  | state (id : String)
  | field (id field : String)
  | coldGroup (index : Nat)
  | hook (side : Side) (id : String) (q : UInt32)
  | globalCode (space key : String)
deriving DecidableEq, Repr

/-- Whether an entry is a hook or global code. -/
def Entry.isLoose : Entry → Bool
  | .hook .. => true
  | .globalCode .. => true
  | _ => false

/-- The value that is stored under two keys. -/
def stored? (outer : Scope (Scope String)) (id key : String) : Option String :=
  (outer.entries.find? id).bind fun inner => inner.entries.find? key

/-- The symbol of an entry, if there is one. A node that is declared has symbols for all
portlets. -/
def symbolAt? (names : Names) : Entry → Option String
  | .portlet id mark q => (names.nodes.entries.find? id).map fun own => own.portletSymbol mark q
  | .state id => (names.nodes.entries.find? id).bind NodeNames.stateName
  | .field id field =>
      (names.nodes.entries.find? id).bind fun own => own.state.entries.find? field
  | .coldGroup index => names.coldGroups.entries.find? (toString index)
  | .hook side id q => stored? (names.hooks side) id (toString q)
  | .globalCode space key => stored? names.globalCode space key

/-- No hook and no global code has the symbol of another entry. -/
def CollisionFree (names : Names) : Prop :=
  ∀ e e' symbol, e.isLoose → e ≠ e' → names.symbolAt? e = some symbol →
    names.symbolAt? e' ≠ some symbol

/-- The parts of a symbol before and after its last underscore, for entries other than state fields
and global code. -/
def parts? (names : Names) : Entry → Option (String × String)
  | .portlet id mark q =>
      (names.nodes.entries.find? id).map fun own => (joined own.stem mark.word, toString q)
  | .state id =>
      (names.nodes.entries.find? id).bind fun own =>
        own.stateName.map fun _ => (own.stem, "STATE")
  | .coldGroup index =>
      (names.coldGroups.entries.find? (toString index)).map fun _ => ("COLD", toString index)
  | .hook side id q =>
      (stored? (names.hooks side) id (toString q)).map fun _ =>
        (joined (hookStem side) id, toString q)
  | .field .. => none
  | .globalCode .. => none

/-- There is one way only to take a symbol apart. -/
structure Unambiguous (names : Names) : Prop where
  /-- What follows a namespace is not divided between the name of another one and its key. -/
  regrouped : ∀ space middle key,
    (names.symbolAt? (.globalCode space (joined middle key))).isSome →
      names.symbolAt? (.globalCode (joined space middle) key) = none
  /-- No namespace ends at the last underscore of a symbol, with the last part as its key. -/
  last : ∀ e base last, names.parts? e = some (base, last) →
    names.symbolAt? (.globalCode base last) = none
  /-- No namespace ends at an earlier underscore of a symbol, with the rest as its key. -/
  inner : ∀ e space middle last, names.parts? e = some (joined space middle, last) →
    names.symbolAt? (.globalCode space (joined middle last)) = none
  /-- No stem is that of hooks, alone or with a start of the id of a hooked node, and followed by
  the mark that the id ends with. -/
  hook : ∀ side id q, (names.symbolAt? (.hook side id q)).isSome →
    ∀ id' own, names.nodes.entries.find? id' = some own → ∀ mark : Mark,
      ¬ (own.stem = hookStem side ∧ id = mark.word) ∧
      ∀ middle, ¬ (own.stem = joined (hookStem side) middle ∧ id = joined middle mark.word)

/-! ### How symbols are stored -/

/-- Every entry is spelled as its kind is. -/
structure Spelled (names : Names) : Prop where
  state : ∀ id own name, names.nodes.entries.find? id = some own → own.stateName = some name →
    name = (Label.state own.stem).symbol
  field : ∀ id own field symbol, names.nodes.entries.find? id = some own →
    own.state.entries.find? field = some symbol → '.' ∈ symbol.toList
  coldGroup : ∀ (index : Nat) symbol,
    names.coldGroups.entries.find? (toString index) = some symbol →
      symbol = (Label.coldGroup index).symbol
  hook : ∀ side id (q : UInt32) symbol,
    stored? (names.hooks side) id (toString q) = some symbol →
      isNamePart id ∧ symbol = hookSymbol side id q
  globalCode : ∀ space key symbol, stored? names.globalCode space key = some symbol →
    isNamePart space ∧ isNamePart key ∧ symbol = joined space key

variable {names names' : Names} {outer : Scope (Scope String)} {id key symbol : String}

theorem spelled_blank (debug : Bool) :
  Spelled { debug := debug }
  := by
  constructor
  case hook =>
    intro side
    cases side <;> nofun
  all_goals nofun

/-- An inner scope is put in place of the one that there is, or of a new one. -/
theorem find?_put_getOrDeclare {inner fresh : Scope String} (id' : String) :
  ((outer.getOrDeclare id fresh).2.put id inner).entries.find? id' =
    if id' = canonicalKey id then some inner else outer.entries.find? id'
  := by
  rw [Scope.getOrDeclare]
  cases outer.get? id with
  | some old => apply Table.find?_insert
  | none =>
      show ((outer.put id fresh).entries.insert _ _).find? id' = _
      rw [Table.find?_insert]
      by_cases h : id' = canonicalKey id
      · rw [if_pos h, if_pos h]
      · rw [if_neg h, if_neg h]
        apply Table.find?_insert_of_ne h

/-- What is in an inner scope is stored under its name; a new one is empty. -/
theorem find?_getOrDeclare (outer : Scope (Scope String)) (id name key : String) :
  (outer.getOrDeclare id (.empty name)).1.entries.find? key = stored? outer (canonicalKey id) key
  := by
  rw [stored?, Scope.getOrDeclare, Scope.get?]
  cases outer.entries.find? (canonicalKey id) with
  | some old => rfl
  | none => rfl

/-- An inner scope with one more value at most is put in place of the one that there is. -/
theorem stored?_put {name id' key' symbol' : String} {inner : Scope String} (hid : isNamePart id)
    (hinner : ∀ key' symbol', inner.entries.find? key' = some symbol' →
      (outer.getOrDeclare id (.empty name)).1.entries.find? key' = some symbol' ∨
        key' = key ∧ symbol' = symbol)
    (h : stored? ((outer.getOrDeclare id (.empty name)).2.put id inner) id' key' = some symbol') :
  stored? outer id' key' = some symbol' ∨ id' = id ∧ key' = key ∧ symbol' = symbol
  := by
  rw [stored?, find?_put_getOrDeclare, canonicalKey_of_isNamePart hid] at h
  by_cases hsame : id' = id
  · subst hsame
    rw [if_pos rfl, Option.bind_some] at h
    rcases hinner key' symbol' h with hold | hnew
    · left
      rwa [find?_getOrDeclare, canonicalKey_of_isNamePart hid] at hold
    · exact .inr ⟨rfl, hnew⟩
  · rw [if_neg hsame] at h
    exact .inl h

/-- One value more at most is stored when one is declared for a portlet. -/
theorem stored?_declareInner {value id' key' symbol' : String} {q : UInt32} (hid : isNamePart id)
    (hdeclare : (declareInner outer id (toString q) value).1 = .ok symbol)
    (h : stored? (declareInner outer id (toString q) value).2 id' key' = some symbol') :
  stored? outer id' key' = some symbol' ∨ id' = id ∧ key' = toString q ∧ symbol' = value
  := by
  rw [declareInner] at hdeclare h
  cases hinner : (outer.getOrDeclare id (.empty s!"{outer.name}.{id}")).1.declare (toString q)
      value with
  | error e =>
      simp only [hinner] at hdeclare
      cases hdeclare
  | ok inner =>
      simp only [hinner] at h
      obtain ⟨-, rfl⟩ := (Scope.meets_declare _ _ _).of_eq_ok hinner
      apply stored?_put hid _ h
      intro key'' symbol'' hfind
      rw [Scope.put, canonicalKey_portlet] at hfind
      rcases Table.find?_insert_eq_some_iff.mp hfind with hnew | ⟨-, hold⟩
      · exact .inr hnew
      · exact .inl hold

/-! ### What declarations keep -/

/-- The accessors of state fields have a dot. -/
theorem dot_of_ofFields {stem field : String} {fields : Option (List String)} {own : NodeNames}
    (h : NodeNames.ofFields id stem fields = .ok own)
    (hfield : own.state.entries.find? field = some symbol) :
  '.' ∈ symbol.toList
  := by
  cases fields with
  | none =>
      obtain rfl := Except.ok.inj h
      cases hfield
  | some shape =>
      obtain ⟨own', hown', ⟨⟩⟩ := map_eq_ok_iff.mp h
      revert hfield
      apply foldlM_keeps (fun n : NodeNames => n.state.entries.find? field = some symbol →
        '.' ∈ symbol.toList) hown' nofun
      intro f _ n n' hdeclare hn hfield
      obtain ⟨s, hs, rfl⟩ := map_eq_ok_iff.mp hdeclare
      obtain ⟨-, rfl⟩ := (n.state.meets_declare f _).of_eq_ok hs
      rcases Table.find?_insert_eq_some_iff.mp hfield with ⟨-, rfl⟩ | ⟨-, hold⟩
      · show '.' ∈ (_ ++ "." ++ f).toList
        simp
      · apply hn hold

namespace Spelled

theorem declareNode (h : names.Spelled) {type stem : String} {fields : Option (List String)}
    (hdeclare : (names.declareNode id type fields).1 = .ok stem) :
  (names.declareNode id type fields).2.Spelled
  := by
  obtain ⟨own, hid, -, -, -, hfields, hnames⟩ := exists_of_declareNode hdeclare
  have hfind : ∀ id' own', (names.nodes.put id own).entries.find? id' = some own' →
      names.nodes.entries.find? id' = some own' ∨ own' = own := by
    intro id' own' hown'
    rcases Table.find?_insert_eq_some_iff.mp hown' with ⟨-, rfl⟩ | ⟨-, hold⟩
    · exact .inr rfl
    · exact .inl hold
  rw [hnames]
  constructor
  case state =>
    intro id' own' name hown' hname
    rcases hfind id' own' hown' with hold | rfl
    · apply h.state id' own' name hold hname
    · obtain ⟨rfl, -, hstate⟩ := NodeNames.of_ofFields hfields
      rw [hstate] at hname
      obtain ⟨-, -, rfl⟩ := Option.map_eq_some_iff.mp hname
      rw [Label.symbol_state]
  case field =>
    intro id' own' field symbol hown' hsymbol
    rcases hfind id' own' hown' with hold | rfl
    · apply h.field id' own' field symbol hold hsymbol
    · apply dot_of_ofFields hfields hsymbol
  case coldGroup => apply h.coldGroup
  case hook => apply h.hook
  case globalCode => apply h.globalCode

theorem declareColdGroup (h : names.Spelled) {index : Nat}
    (hdeclare : (names.declareColdGroup index).1 = .ok symbol) :
  (names.declareColdGroup index).2.Spelled
  := by
  obtain ⟨rfl, hnames⟩ := of_declareColdGroup hdeclare
  rw [hnames]
  constructor
  case state => apply h.state
  case field => apply h.field
  case coldGroup =>
    intro i symbol hsymbol
    rw [Scope.put, canonicalKey_toString] at hsymbol
    rcases Table.find?_insert_eq_some_iff.mp hsymbol with ⟨hi, rfl⟩ | ⟨-, hold⟩
    · rw [toString_nat_injective hi]
      rfl
    · apply h.coldGroup i symbol hold
  case hook => apply h.hook
  case globalCode => apply h.globalCode

theorem declareHook (h : names.Spelled) {side : Side} {q : UInt32}
    (hdeclare : (names.declareHook side id q).1 = .ok symbol) :
  (names.declareHook side id q).2.Spelled
  := by
  have hid : isNamePart id := by
    by_contra hid
    rw [Names.declareHook, checkNamePart, if_neg hid] at hdeclare
    cases hdeclare
  rw [declareHook_eq hid] at hdeclare ⊢
  constructor
  case state => cases side <;> apply h.state
  case field => cases side <;> apply h.field
  case coldGroup => cases side <;> apply h.coldGroup
  case hook =>
    intro side' id' q' symbol' hsymbol'
    by_cases hside : side' = side
    · subst hside
      rw [hooks_withHooks_self] at hsymbol'
      rcases stored?_declareInner hid hdeclare hsymbol' with hold | ⟨rfl, hq, rfl⟩
      · apply h.hook side' id' q' symbol' hold
      · rw [toString_portlet_injective hq]
        exact ⟨hid, rfl⟩
    · have hother : ∀ hooks, (names.withHooks hooks side).hooks side' = names.hooks side' := by
        intro hooks
        cases side <;> cases side' <;> first | rfl | exact absurd rfl hside
      rw [hother] at hsymbol'
      apply h.hook side' id' q' symbol' hsymbol'
  case globalCode => cases side <;> apply h.globalCode

theorem globalSymbol (h : names.Spelled) {space : String}
    (hdeclare : (names.globalSymbol space key).1 = .ok symbol) :
  (names.globalSymbol space key).2.Spelled
  := by
  rw [Names.globalSymbol] at hdeclare ⊢
  cases hcheck : (do checkNamePart space; checkNamePart key : Except SymbolError Unit) with
  | error e =>
      rw [hcheck] at hdeclare
      cases hdeclare
  | ok _ =>
      obtain ⟨⟨⟩, hspace, hkey⟩ := bind_eq_ok_iff.mp hcheck
      replace hspace : isNamePart space := (ite_ok_eq_ok_iff.mp hspace).1
      replace hkey : isNamePart key := (ite_ok_eq_ok_iff.mp hkey).1
      constructor
      case state => apply h.state
      case field => apply h.field
      case coldGroup => apply h.coldGroup
      case hook =>
        intro side
        cases side with
        | inlet => apply h.hook .inlet
        | outlet => apply h.hook .outlet
      case globalCode =>
        intro space' key' symbol' hsymbol'
        have hcases : stored? names.globalCode space' key' = some symbol' ∨
            space' = space ∧ key' = key ∧ symbol' = joined space key := by
          apply stored?_put hspace _ hsymbol'
          intro key'' symbol'' hfind
          rw [Scope.getOrDeclare] at hfind
          split at hfind
          · exact .inl hfind
          · simp only [Scope.put, canonicalKey_of_isNamePart hkey] at hfind
            rcases Table.find?_insert_eq_some_iff.mp hfind with hnew | ⟨-, hold⟩
            · exact .inr hnew
            · exact .inl hold
        rcases hcases with hold | ⟨rfl, rfl, rfl⟩
        · apply h.globalCode space' key' symbol' hold
        · exact ⟨hspace, hkey, rfl⟩

/-- Every declaration keeps all entries spelled as they should be. -/
theorem declare (h : names.Spelled) {declaration : Declaration}
    (hdeclare : (names.declare declaration).1 = .ok symbol) :
  (names.declare declaration).2.Spelled
  := by
  cases declaration with
  | node id type fields => apply h.declareNode hdeclare
  | coldGroup index => apply h.declareColdGroup hdeclare
  | hook side id q => apply h.declareHook hdeclare
  | globalCode space key => apply h.globalSymbol hdeclare

theorem declareAll (h : names.Spelled) {declarations : List Declaration}
    (hall : names.declareAll declarations = .ok names') :
  names'.Spelled
  := by
  apply foldlM_keeps Spelled hall h
  intro declaration _ names₁ names₂ hround hnames₁
  obtain ⟨symbol, hsymbol, ⟨⟩⟩ := bind_eq_ok_iff.mp hround
  apply hnames₁.declare hsymbol

end Spelled

/-! ### How symbols can be taken apart -/

section Parts

variable {e : Entry} {base last space : String} (h : names.Spelled)

include h in
theorem Spelled.eq_joined (hsymbol : names.symbolAt? (.globalCode space key) = some symbol) :
  symbol = joined space key
  := (h.globalCode space key symbol hsymbol).2.2

include h in
/-- A symbol with parts is made of them, and its last part has no underscores. -/
theorem Spelled.of_parts? (hparts : names.parts? e = some (base, last)) :
  names.symbolAt? e = some (joined base last) ∧ Plain last
  := by
  cases e with
  | portlet id mark q =>
      obtain ⟨own, hown, ⟨⟩⟩ := Option.map_eq_some_iff.mp hparts
      refine ⟨?_, plain_portlet q⟩
      rw [symbolAt?, hown, Option.map_some, own.portletSymbol_eq]
      rfl
  | state id =>
      obtain ⟨own, hown, hstate⟩ := Option.bind_eq_some_iff.mp hparts
      obtain ⟨name, hname, ⟨⟩⟩ := Option.map_eq_some_iff.mp hstate
      refine ⟨?_, (Label.state own.stem).plain_last⟩
      rw [symbolAt?, hown, Option.bind_some, hname, h.state id own name hown hname]
      rfl
  | field id field => cases hparts
  | coldGroup index =>
      obtain ⟨name, hname, ⟨⟩⟩ := Option.map_eq_some_iff.mp hparts
      refine ⟨?_, plain_toString index⟩
      rw [symbolAt?, hname, h.coldGroup index name hname]
      rfl
  | hook side id q =>
      obtain ⟨name, hname, ⟨⟩⟩ := Option.map_eq_some_iff.mp hparts
      refine ⟨?_, plain_portlet q⟩
      rw [symbolAt?, hname, (h.hook side id q name hname).2]
      rfl
  | globalCode space key => cases hparts

/-- Every symbol has parts, but for those of global code and of state fields. -/
theorem isSome_parts? (hsymbol : names.symbolAt? e = some symbol) :
  (∃ space key, e = .globalCode space key) ∨ (∃ id field, e = .field id field) ∨
    (names.parts? e).isSome
  := by
  cases e with
  | portlet id mark q =>
      obtain ⟨own, hown, -⟩ := Option.map_eq_some_iff.mp hsymbol
      right; right
      rw [parts?, hown]
      rfl
  | state id =>
      obtain ⟨own, hown, hname⟩ := Option.bind_eq_some_iff.mp hsymbol
      right; right
      rw [parts?, hown, Option.bind_some, hname]
      rfl
  | field id field => exact .inr (.inl ⟨id, field, rfl⟩)
  | coldGroup index =>
      right; right
      rw [parts?, show names.coldGroups.entries.find? (toString index) = some symbol from hsymbol]
      rfl
  | hook side id q =>
      right; right
      rw [parts?, show stored? (names.hooks side) id (toString q) = some symbol from hsymbol]
      rfl
  | globalCode space key => exact .inl ⟨space, key, rfl⟩

theorem not_dot_of_isNamePart {part : String} (hpart : isNamePart part) :
  '.' ∉ part.toList
  := by
  intro hdot
  have hchar := (isNamePart_iff.mp hpart).2 '.' hdot
  revert hchar
  decide

include h in
/-- The symbols of hooks and of global code have no dot. -/
theorem Spelled.not_dot (hloose : e.isLoose) (hsymbol : names.symbolAt? e = some symbol) :
  '.' ∉ symbol.toList
  := by
  cases e with
  | hook side id q =>
      obtain ⟨hid, rfl⟩ := h.hook side id q symbol hsymbol
      have hstem : '.' ∉ (hookStem side).toList := by cases side <;> decide
      have hq := not_dot_of_isNamePart (isNamePart_toString q.toNat)
      show '.' ∉ (joined (joined (hookStem side) id) (toString q.toNat)).toList
      simp only [toList_joined, List.mem_append, List.mem_cons, not_or]
      exact ⟨⟨hstem, by decide, not_dot_of_isNamePart hid⟩, by decide, hq⟩
  | globalCode space key =>
      obtain ⟨hspace, hkey, rfl⟩ := h.globalCode space key symbol hsymbol
      simp [toList_joined, not_dot_of_isNamePart hspace, not_dot_of_isNamePart hkey]
  | _ => cases hloose

/-! ### Collisions -/

include h in
/-- Global code is not spelled as an entry with parts is. -/
theorem Unambiguous.globalCode_ne (hone : names.Unambiguous)
    (hparts : names.parts? e = some (base, last)) :
  names.symbolAt? (.globalCode space key) ≠ names.symbolAt? e
  := by
  obtain ⟨hsymbol, hlast⟩ := h.of_parts? hparts
  rw [hsymbol]
  intro hglobal
  rcases (joined_eq_joined_plain_iff hlast).mp (h.eq_joined hglobal).symm with
    ⟨rfl, rfl⟩ | ⟨middle, rfl, rfl⟩
  · rw [hone.last e space key hparts] at hglobal
    cases hglobal
  · rw [hone.inner e space middle last hparts] at hglobal
    cases hglobal

theorem plain_hookStem (side : Side) :
  Plain (hookStem side)
  := by cases side <;> decide

include h in
/-- A hook is not spelled as another entry with parts is. -/
theorem Unambiguous.eq_hook (hone : names.Unambiguous) {side : Side} {q : UInt32}
    (hhook : names.symbolAt? (.hook side id q) = some symbol)
    (hparts : names.parts? e = some (base, last)) (hsame : symbol = joined base last) :
  e = .hook side id q
  := by
  have hspelled : joined base last = joined (joined (hookStem side) id) (toString q) :=
    hsame.symm.trans (h.hook side id q symbol hhook).2
  obtain ⟨hbase, hlast⟩ :=
    (joined_inj_of_plain (h.of_parts? hparts).2 (plain_portlet q)).mp hspelled
  cases e with
  | portlet id' mark q' =>
      obtain ⟨own, hown, ⟨⟩⟩ := Option.map_eq_some_iff.mp hparts
      have hside := hone.hook side id q (Option.isSome_of_eq_some hhook) id' own hown mark
      rcases (plain_joined_eq_joined_iff (plain_hookStem side)).mp hbase.symm with
        ⟨hstem, hid⟩ | ⟨middle, hstem, hid⟩
      · cases hside.1 ⟨hstem.symm, hid⟩
      · cases hside.2 middle ⟨hstem, hid⟩
  | state id' =>
      obtain ⟨own, -, hstate⟩ := Option.bind_eq_some_iff.mp hparts
      obtain ⟨name, -, ⟨⟩⟩ := Option.map_eq_some_iff.mp hstate
      cases toString_ne_of_mem (k := q.toNat) (x := 'S') (by decide) (by decide) hlast.symm
  | field id' field => cases hparts
  | coldGroup index =>
      obtain ⟨name, -, ⟨⟩⟩ := Option.map_eq_some_iff.mp hparts
      have hcold : Plain "COLD" := by decide
      rw [hbase] at hcold
      cases not_plain_joined _ _ hcold
  | hook side' id' q' =>
      obtain ⟨name, -, ⟨⟩⟩ := Option.map_eq_some_iff.mp hparts
      obtain rfl := toString_portlet_injective hlast
      rcases (plain_joined_eq_joined_iff (plain_hookStem side')).mp hbase with
        ⟨hstem, rfl⟩ | ⟨middle, hstem, -⟩
      · have hside : side' = side := by
          cases side <;> cases side' <;> first | rfl | exact absurd hstem (by decide)
        rw [hside]
      · have hplain := plain_hookStem side
        rw [hstem] at hplain
        cases not_plain_joined _ _ hplain
  | globalCode space key => cases hparts

include h in
theorem Unambiguous.globalCode_eq (hone : names.Unambiguous) {space' key' : String}
    (hsymbol : names.symbolAt? (.globalCode space key) = some symbol)
    (hsymbol' : names.symbolAt? (.globalCode space' key') = some symbol) :
  space = space' ∧ key = key'
  := by
  have hspelled := (h.eq_joined hsymbol).symm.trans (h.eq_joined hsymbol')
  rcases joined_eq_joined_iff.mp hspelled with hsame | ⟨middle, rfl, rfl⟩ | ⟨middle, rfl, rfl⟩
  · apply hsame
  · rw [hone.regrouped space middle key' (Option.isSome_of_eq_some hsymbol)] at hsymbol'
    cases hsymbol'
  · rw [hone.regrouped space' middle key (Option.isSome_of_eq_some hsymbol')] at hsymbol
    cases hsymbol

include h in
theorem Unambiguous.collisionFree (hone : names.Unambiguous) :
  names.CollisionFree
  := by
  intro e e' symbol hloose hne hsymbol hsymbol'
  have hsame := hsymbol.trans hsymbol'.symm
  rcases isSome_parts? hsymbol' with ⟨space', key', rfl⟩ | ⟨id, field, rfl⟩ | hparts'
  · cases e with
    | hook side id q =>
        rcases isSome_parts? hsymbol with ⟨_, _, ⟨⟩⟩ | ⟨_, _, ⟨⟩⟩ | hparts
        obtain ⟨⟨base, last⟩, hparts⟩ := Option.isSome_iff_exists.mp hparts
        apply hone.globalCode_ne h hparts hsame.symm
    | globalCode space key =>
        obtain ⟨rfl, rfl⟩ := hone.globalCode_eq h hsymbol hsymbol'
        apply hne rfl
    | _ => cases hloose
  · obtain ⟨own, hown, hfield⟩ := Option.bind_eq_some_iff.mp hsymbol'
    apply h.not_dot hloose hsymbol (h.field id own field symbol hown hfield)
  · obtain ⟨⟨base, last⟩, hparts'⟩ := Option.isSome_iff_exists.mp hparts'
    cases e with
    | hook side id q =>
        have hspelled := Option.some.inj (hsymbol'.symm.trans (h.of_parts? hparts').1)
        apply hne (hone.eq_hook h hsymbol hparts' hspelled).symm
    | globalCode space key => apply hone.globalCode_ne h hparts' hsame
    | _ => cases hloose

include h in
theorem CollisionFree.unambiguous (hfree : names.CollisionFree) :
  names.Unambiguous
  := by
  have hglobal : ∀ space key e symbol, e ≠ .globalCode space key →
      names.symbolAt? e = some symbol → symbol = joined space key →
        names.symbolAt? (.globalCode space key) = none := by
    intro space key e symbol hne hsymbol hspelled
    apply Option.eq_none_iff_forall_ne_some.mpr
    intro symbol' hsymbol'
    rw [← h.eq_joined hsymbol'] at hspelled
    subst hspelled
    apply hfree _ e symbol rfl hne.symm hsymbol' hsymbol
  have hparts_ne : ∀ e base last space key, names.parts? e = some (base, last) →
      e ≠ .globalCode space key := by
    rintro e base last space key hparts rfl
    cases hparts
  constructor
  case regrouped =>
    intro space middle key hsome
    obtain ⟨symbol, hsymbol⟩ := Option.isSome_iff_exists.mp hsome
    apply hglobal _ _ _ symbol _ hsymbol
    · rw [h.eq_joined hsymbol, joined_assoc]
    · intro hsame
      injection hsame with hspace
      apply joined_ne_left space middle hspace.symm
  case last =>
    intro e base last hparts
    apply hglobal base last e _ (hparts_ne e base last _ _ hparts) (h.of_parts? hparts).1 rfl
  case inner =>
    intro e space middle last hparts
    apply hglobal _ _ e _ (hparts_ne e _ last _ _ hparts) (h.of_parts? hparts).1
    rw [joined_assoc]
  case hook =>
    intro side id q hsome id' own hown mark
    obtain ⟨symbol, hsymbol⟩ := Option.isSome_iff_exists.mp hsome
    have hspelled : symbol = joined (joined (hookStem side) id) (toString q) :=
      (h.hook side id q symbol hsymbol).2
    have hportlet : joined (joined own.stem mark.word) (toString q) ≠ symbol := by
      intro hsame
      apply hfree (.hook side id q) (.portlet id' mark q) symbol rfl nofun hsymbol
      rw [symbolAt?, hown, Option.map_some, own.portletSymbol_eq, ← hsame]
      rfl
    constructor
    · rintro ⟨hstem, rfl⟩
      apply hportlet
      rw [hspelled, hstem]
    · rintro middle ⟨hstem, rfl⟩
      apply hportlet
      rw [hspelled, hstem, joined_assoc (hookStem side)]

end Parts

/-- After declarations that all succeed, no hook and no global code has the symbol of another entry
exactly if no symbol can be taken apart in two ways. -/
theorem collisionFree_iff_unambiguous {debug : Bool} {declarations : List Declaration}
    (h : declareAll { debug := debug } declarations = .ok names) :
  names.CollisionFree ↔ names.Unambiguous
  := by
  have hspelled := (spelled_blank debug).declareAll h
  exact ⟨CollisionFree.unambiguous hspelled, Unambiguous.collisionFree hspelled⟩

/-- A node with a state, a cold group, a caller and a piece of global code. -/
theorem collisionFree_iff_unambiguous_knob :
  ∃ names, declareAll { debug := false } [.node "knob" "dial" (some ["level"]), .coldGroup 0,
      .hook .inlet "knob" 0, .globalCode "fmt" "print"] = .ok names ∧ names.CollisionFree
  := by
  obtain ⟨names, hnames, hglobal, hstem⟩ : ∃ names, declareAll { debug := false }
      [.node "knob" "dial" (some ["level"]), .coldGroup 0, .hook .inlet "knob" 0,
        .globalCode "fmt" "print"] = .ok names ∧
      (∀ space key symbol, names.symbolAt? (.globalCode space key) = some symbol →
        space = "fmt" ∧ key = "print") ∧
      ∀ id own, names.nodes.entries.find? id = some own → own.stem = "knob" := by
    refine ⟨_, rfl, ?_, ?_⟩
    · intro space key symbol hsymbol
      obtain ⟨inner, hinner, hkey⟩ := Option.bind_eq_some_iff.mp hsymbol
      obtain ⟨⟩ := List.mem_singleton.mp (Table.mem_of_find? hinner)
      obtain ⟨⟩ := List.mem_singleton.mp (Table.mem_of_find? hkey)
      exact ⟨rfl, rfl⟩
    · intro id own hown
      obtain ⟨⟩ := List.mem_singleton.mp (Table.mem_of_find? hown)
      rfl
  have hnone : ∀ space key, ¬ (space = "fmt" ∧ key = "print") →
      names.symbolAt? (.globalCode space key) = none := by
    intro space key hne
    apply Option.eq_none_iff_forall_ne_some.mpr
    intro symbol hsymbol
    apply hne (hglobal space key symbol hsymbol)
  have hprint : ∀ middle key, joined middle key ≠ "print" := by
    intro middle key hjoined
    apply not_plain_joined middle key
    rw [hjoined]
    decide
  refine ⟨names, hnames, (collisionFree_iff_unambiguous hnames).mpr ?_⟩
  constructor
  case regrouped =>
    intro space middle key hsome
    obtain ⟨symbol, hsymbol⟩ := Option.isSome_iff_exists.mp hsome
    cases hprint middle key (hglobal _ _ symbol hsymbol).2
  case last =>
    intro e base last hparts
    apply hnone
    rintro ⟨-, rfl⟩
    have hnumeral : ∀ k : Nat, toString k ≠ "print" := fun k =>
      toString_ne_of_mem (x := 'p') (by decide) (by decide)
    cases e with
    | portlet id mark q =>
        obtain ⟨own, -, hpair⟩ := Option.map_eq_some_iff.mp hparts
        apply hnumeral q.toNat (Prod.mk.inj hpair).2
    | state id =>
        obtain ⟨own, -, hstate⟩ := Option.bind_eq_some_iff.mp hparts
        obtain ⟨name, -, hpair⟩ := Option.map_eq_some_iff.mp hstate
        apply absurd (Prod.mk.inj hpair).2
        decide
    | coldGroup index =>
        obtain ⟨name, -, hpair⟩ := Option.map_eq_some_iff.mp hparts
        apply hnumeral index (Prod.mk.inj hpair).2
    | hook side id q =>
        obtain ⟨name, -, hpair⟩ := Option.map_eq_some_iff.mp hparts
        apply hnumeral q.toNat (Prod.mk.inj hpair).2
    | _ => cases hparts
  case inner =>
    intro e space middle last _
    apply hnone
    rintro ⟨-, hlast⟩
    apply hprint middle last hlast
  case hook =>
    intro side id q _ id' own hown mark
    have hknob : Plain own.stem := by
      rw [hstem id' own hown]
      decide
    constructor
    · rintro ⟨hside, -⟩
      rw [hstem id' own hown] at hside
      cases side <;> revert hside <;> decide
    · rintro middle ⟨hside, -⟩
      rw [hside] at hknob
      apply not_plain_joined _ _ hknob

/-- Two namespaces that share a symbol. -/
theorem exists_not_collisionFree :
  ∃ names, declareAll { debug := false } [.globalCode "a" "b_c", .globalCode "a_b" "c"] =
      .ok names ∧ ¬ names.CollisionFree
  := by
  refine ⟨_, rfl, ?_⟩
  intro hfree
  apply hfree (.globalCode "a" "b_c") (.globalCode "a_b" "c") "a_b_c" rfl (by decide)
  · rfl
  · rfl

end AudioPatch.Names
