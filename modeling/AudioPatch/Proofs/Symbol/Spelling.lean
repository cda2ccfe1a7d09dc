import AudioPatch.Proofs.Symbol.Names

/-!
# How symbols are spelled

A symbol is made of parts with underscores between them, and a part may have underscores of its own.
It can be taken apart from the right if its last part has none. The symbols of nodes and of cold
groups end in a numeral or in one fixed word, so no two of them are spelled alike, whatever the
stems of the nodes are.
-/

namespace AudioPatch

/-! ### Parts -/

/-- Two parts with an underscore between them. -/
def joined (a b : String) : String := s!"{a}_{b}"

/-- A part without underscores. -/
def Plain (s : String) : Prop := '_' ∉ s.toList

instance (s : String) : Decidable (Plain s) := inferInstanceAs (Decidable (_ ∉ _))

variable {a b c d s : String}

theorem toList_joined (a b : String) :
  (joined a b).toList = a.toList ++ '_' :: b.toList
  := by
  show (a ++ "_" ++ b).toList = _
  rw [String.toList_append, String.toList_append, List.append_assoc]
  rfl

theorem not_plain_joined (a b : String) :
  ¬ Plain (joined a b)
  := by
  simp [Plain, toList_joined]

theorem joined_ne_left (a b : String) :
  joined a b ≠ a
  := by
  intro h
  have hlength := congrArg (fun s => s.toList.length) h
  simp [toList_joined] at hlength

theorem joined_assoc (a b c : String) :
  joined (joined a b) c = joined a (joined b c)
  := by
  apply String.toList_inj.mp
  simp [toList_joined]

/-- If two texts are equal, each with an underscore marked in it, the marks are at the same place, or
one of the texts goes on after its mark as the other one does before its own. -/
theorem joined_eq_joined_iff :
  joined a b = joined c d ↔ (a = c ∧ b = d) ∨ (∃ m, c = joined a m ∧ b = joined m d) ∨
    ∃ m, a = joined c m ∧ d = joined m b
  := by
  constructor
  · intro h
    have hlist := congrArg String.toList h
    rw [toList_joined, toList_joined, List.append_eq_append_iff] at hlist
    rcases hlist with ⟨middle, hc, hb⟩ | ⟨middle, ha, hd⟩
    · cases middle with
      | nil =>
          rw [List.append_nil, String.toList_inj] at hc
          rw [List.nil_append, List.cons.injEq, String.toList_inj] at hb
          exact .inl ⟨hc.symm, hb.2⟩
      | cons x m =>
          obtain ⟨rfl, hrest⟩ := List.cons.inj hb
          refine .inr (.inl ⟨String.ofList m, ?_, ?_⟩)
          · rw [← String.toList_inj, toList_joined, String.toList_ofList, hc]
          · rw [← String.toList_inj, toList_joined, String.toList_ofList, hrest]
            rfl
    · cases middle with
      | nil =>
          rw [List.append_nil, String.toList_inj] at ha
          rw [List.nil_append, List.cons.injEq, String.toList_inj] at hd
          exact .inl ⟨ha, hd.2.symm⟩
      | cons x m =>
          obtain ⟨rfl, hrest⟩ := List.cons.inj hd
          refine .inr (.inr ⟨String.ofList m, ?_, ?_⟩)
          · rw [← String.toList_inj, toList_joined, String.toList_ofList, ha]
          · rw [← String.toList_inj, toList_joined, String.toList_ofList, hrest]
            rfl
  · rintro (⟨rfl, rfl⟩ | ⟨m, rfl, rfl⟩ | ⟨m, rfl, rfl⟩)
    · rfl
    · rw [joined_assoc]
    · rw [joined_assoc]

/-- A text is taken apart before a last part without underscores. -/
theorem joined_eq_joined_plain_iff (hd : Plain d) :
  joined a b = joined c d ↔ (a = c ∧ b = d) ∨ ∃ m, c = joined a m ∧ b = joined m d
  := by
  rw [joined_eq_joined_iff]
  apply or_congr_right
  apply or_iff_left
  rintro ⟨m, -, rfl⟩
  apply not_plain_joined m b hd

theorem joined_inj_of_plain (hb : Plain b) (hd : Plain d) :
  joined a b = joined c d ↔ a = c ∧ b = d
  := by
  rw [joined_eq_joined_plain_iff hd]
  apply or_iff_left
  rintro ⟨m, -, rfl⟩
  apply not_plain_joined m d hb

/-- A text is taken apart after a first part without underscores. -/
theorem plain_joined_eq_joined_iff (ha : Plain a) :
  joined a b = joined c d ↔ (a = c ∧ b = d) ∨ ∃ m, c = joined a m ∧ b = joined m d
  := by
  rw [joined_eq_joined_iff]
  apply or_congr_right
  apply or_iff_left
  rintro ⟨m, rfl, -⟩
  apply not_plain_joined c m ha

/-! ### Numerals -/

theorem isDigit_of_mem_toString {k : Nat} {x : Char} (h : x ∈ (toString k).toList) :
  x.isDigit
  := by
  apply Nat.isDigit_of_mem_toDigits (b := 10) (n := k) (by decide) (by decide)
  rw [← Nat.toList_repr]
  apply h

theorem plain_toString (k : Nat) :
  Plain (toString k)
  := by
  intro h
  have hdigit := isDigit_of_mem_toString h
  revert hdigit
  decide

theorem plain_portlet (q : UInt32) :
  Plain (toString q)
  := plain_toString q.toNat

theorem toString_ne_of_mem {k : Nat} {x : Char} (hx : x ∈ s.toList) (hdigit : ¬ x.isDigit) :
  toString k ≠ s
  := by
  rintro rfl
  apply hdigit (isDigit_of_mem_toString hx)

/-! ### Identifiers -/

/-- Whether a text starts with a letter or an underscore and goes on with those and digits. -/
def isIdentifier (s : String) : Bool :=
  match s.toList with
  | [] => false
  | x :: rest => (x.isAlpha || x = '_') && rest.all fun x => x.isAlphanum || x = '_'

theorem isIdentifier_of_isNamePart (h : isNamePart s) (hhead : ¬ s.toList.head?.any Char.isDigit) :
  isIdentifier s
  := by
  obtain ⟨hne, hall⟩ := isNamePart_iff.mp h
  rw [isIdentifier]
  cases hs : s.toList with
  | nil => exact absurd (String.toList_inj.mp hs) hne
  | cons x rest =>
      rw [hs] at hall hhead
      have hx : x.isAlpha ∨ x = '_' := by
        have hfirst := hall x List.mem_cons_self
        rw [Char.isAlphanum, Bool.or_eq_true] at hfirst
        have hnot : ¬ x.isDigit := hhead
        tauto
      simp only [Bool.and_eq_true, Bool.or_eq_true, decide_eq_true_iff, List.all_eq_true]
      exact ⟨hx, fun y hy => hall y (List.mem_cons_of_mem x hy)⟩

/-- A symbol that starts as an identifier does is one. -/
theorem isIdentifier_joined (ha : isIdentifier a) (hb : isNamePart b) :
  isIdentifier (joined a b)
  := by
  rw [isIdentifier] at ha ⊢
  rw [toList_joined]
  cases hlist : a.toList with
  | nil =>
      rw [hlist] at ha
      cases ha
  | cons x rest =>
      rw [hlist] at ha
      simp only [Bool.and_eq_true, List.all_eq_true] at ha
      simp only [List.cons_append, Bool.and_eq_true, List.all_eq_true, List.mem_append,
        List.mem_cons]
      refine ⟨ha.1, ?_⟩
      rintro y (hy | rfl | hy)
      · apply ha.2 y hy
      · rfl
      · simpa using (isNamePart_iff.mp hb).2 y hy

theorem isNamePart_joined (ha : ∀ x ∈ a.toList, x.isAlphanum ∨ x = '_') (hb : isNamePart b) :
  isNamePart (joined a b)
  := by
  apply isNamePart_iff.mpr
  constructor
  · intro hempty
    have hlist := congrArg String.toList hempty
    simp [toList_joined] at hlist
  · rw [toList_joined]
    simp only [List.mem_append, List.mem_cons]
    rintro y (hy | rfl | hy)
    · apply ha y hy
    · exact .inr rfl
    · apply (isNamePart_iff.mp hb).2 y hy

theorem isNamePart_toString (k : Nat) :
  isNamePart (toString k)
  := by
  apply isNamePart_iff.mpr
  constructor
  · intro hempty
    have hdigits : Nat.toDigits 10 k = [] := by
      rw [← Nat.toList_repr]
      apply congrArg String.toList hempty
    apply Nat.toDigits_ne_nil hdigits
  · intro x hx
    left
    rw [Char.isAlphanum, isDigit_of_mem_toString hx, Bool.or_true]

theorem isNameChar_of_mem_typeStem {type : String} {x : Char} (h : x ∈ (typeStem type).toList) :
  x.isAlphanum ∨ x = '_'
  := by
  rw [typeStem, String.toList_ofList, List.mem_flatMap] at h
  obtain ⟨y, -, hy⟩ := h
  split at hy
  · rcases List.mem_cons.mp hy with rfl | hy
    · exact .inr rfl
    · rw [List.mem_singleton.mp hy]
      exact .inl rfl
  · split at hy
    · rename_i hgood
      rw [List.mem_singleton.mp hy]
      simpa using hgood
    · cases hy

/-- The stem of a node is an identifier. -/
theorem isIdentifier_of_nodeStem {debug : Bool} {id type stem : String}
    (h : nodeStem debug id type = .ok stem) :
  isIdentifier stem
  := by
  have hid := (meets_nodeStem debug id type).of_eq_ok h
  simp only [nodeStem, checkNamePart_of_isNamePart hid, ok_bind] at h
  have hpart : isNamePart (if debug ∧ typeStem type ≠ "" then joined (typeStem type) id else id) := by
    split
    · apply isNamePart_joined (fun x => isNameChar_of_mem_typeStem) hid
    · apply hid
  obtain rfl := Except.ok.inj h
  revert hpart
  show isNamePart (ite _ s!"{typeStem type}_{id}" _) → isIdentifier (ite _ _ _)
  generalize (if debug ∧ typeStem type ≠ "" then s!"{typeStem type}_{id}" else id) = part
  intro hpart
  by_cases hhead : part.toList.head?.any Char.isDigit
  · rw [if_pos hhead, show s!"n_{part}" = joined "n" part from rfl]
    apply isIdentifier_joined rfl hpart
  · rw [if_neg hhead]
    apply isIdentifier_of_isNamePart hpart hhead

/-! ### Symbols of nodes and of cold groups -/

/-- What the symbols at the portlets of a node are marked with. -/
inductive Mark where
  | signalOut
  | receiver
  | sender
deriving DecidableEq, Repr

/-- The mark in a symbol. -/
def Mark.word : Mark → String
  | .signalOut => "OUTS"
  | .receiver => "RCVS"
  | .sender => "SNDS"

theorem Mark.plain_word (mark : Mark) :
  Plain mark.word
  := by cases mark <;> decide

theorem Mark.word_injective :
  Function.Injective Mark.word
  := by
  intro mark mark' h
  cases mark <;> cases mark' <;> first | rfl | exact absurd h (by decide)

/-- What the symbol of a node or of a cold group stands for. -/
inductive Label where
  | portlet (stem : String) (mark : Mark) (q : UInt32)
  | state (stem : String)
  | coldGroup (index : Nat)
deriving DecidableEq, Repr

namespace Label

/-- The symbol without its last part. -/
def base : Label → String
  | .portlet stem mark _ => joined stem mark.word
  | .state stem => stem
  | .coldGroup _ => "COLD"

/-- The last part of the symbol. -/
def last : Label → String
  | .portlet _ _ q => toString q
  | .state _ => "STATE"
  | .coldGroup index => toString index

/-- The symbol. -/
def symbol (l : Label) : String := joined l.base l.last

theorem plain_last (l : Label) :
  Plain l.last
  := by
  cases l with
  | portlet stem mark q => apply plain_portlet
  | state stem =>
      show Plain "STATE"
      decide
  | coldGroup index => apply plain_toString

/-- Different labels have different symbols. -/
theorem symbol_injective :
  Function.Injective symbol
  := by
  intro l l' h
  obtain ⟨hbase, hlast⟩ := (joined_inj_of_plain l.plain_last l'.plain_last).mp h
  have hnumeral : ∀ k : Nat, toString k ≠ "STATE" := fun k =>
    toString_ne_of_mem (x := 'S') (by decide) (by decide)
  have hcold : Plain "COLD" := by decide
  cases l with
  | portlet stem mark q =>
      cases l' with
      | portlet stem' mark' q' =>
          obtain ⟨rfl, hword⟩ := (joined_inj_of_plain mark.plain_word mark'.plain_word).mp hbase
          obtain rfl := Mark.word_injective hword
          rw [toString_portlet_injective hlast]
      | state stem' => cases hnumeral q.toNat hlast
      | coldGroup index' =>
          replace hbase : joined stem mark.word = "COLD" := hbase
          cases not_plain_joined stem mark.word (hbase ▸ hcold)
  | state stem =>
      cases l' with
      | portlet stem' mark' q' => cases hnumeral q'.toNat hlast.symm
      | state stem' => rw [show stem = stem' from hbase]
      | coldGroup index' => cases hnumeral index' hlast.symm
  | coldGroup index =>
      cases l' with
      | portlet stem' mark' q' =>
          replace hbase : "COLD" = joined stem' mark'.word := hbase
          cases not_plain_joined stem' mark'.word (hbase ▸ hcold)
      | state stem' => cases hnumeral index hlast
      | coldGroup index' => rw [toString_nat_injective hlast]

/-- The stem in a symbol, if there is one. -/
def stem? : Label → Option String
  | .portlet stem _ _ => some stem
  | .state stem => some stem
  | .coldGroup _ => none

/-- A symbol whose stem is an identifier is one. -/
theorem isIdentifier_symbol {l : Label} (h : ∀ stem, l.stem? = some stem → isIdentifier stem) :
  isIdentifier l.symbol
  := by
  cases l with
  | portlet stem mark q =>
      apply isIdentifier_joined
      · apply isIdentifier_joined (h stem rfl)
        cases mark <;> decide
      · apply isNamePart_toString
  | state stem =>
      have hword : isNamePart "STATE" := by decide
      apply isIdentifier_joined (h stem rfl) hword
  | coldGroup index =>
      have hword : isIdentifier "COLD" := by decide
      apply isIdentifier_joined hword (isNamePart_toString index)

theorem symbol_state (stem : String) :
  (Label.state stem).symbol = s!"{stem}_STATE"
  := by
  apply String.toList_inj.mp
  show _ = (stem ++ "_STATE").toList
  simp [symbol, base, last, toList_joined]

end Label

/-- The symbol of a node at one of its portlets. -/
def NodeNames.portletSymbol (own : NodeNames) : Mark → UInt32 → String
  | .signalOut => own.signalOutSymbol
  | .receiver => own.receiverSymbol
  | .sender => own.senderSymbol

theorem NodeNames.portletSymbol_eq (own : NodeNames) (mark : Mark) (q : UInt32) :
  own.portletSymbol mark q = (Label.portlet own.stem mark q).symbol
  := by
  have hparts : ∀ word : String,
      own.stem ++ ("_" ++ word ++ "_") ++ toString q = joined (joined own.stem word) (toString q) := by
    intro word
    apply String.toList_inj.mp
    simp [toList_joined]
  cases mark with
  | signalOut => apply hparts "OUTS"
  | receiver => apply hparts "RCVS"
  | sender => apply hparts "SNDS"

end AudioPatch
