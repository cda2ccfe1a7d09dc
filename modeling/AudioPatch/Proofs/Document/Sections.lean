import AudioPatch.Proofs.Document.Lines
import AudioPatch.Proofs.Document.Reordering

/-!
# Documents that are read back

A document is written in sections: the plain fields of a table first, then its inner tables, each
under a header of its own unless it holds nothing but further tables. The sections put together
give the tables back, with their plain fields before the others.
-/

namespace AudioPatch.Toml

variable {key : String} {v : Value} {depth : Nat}

/-! ### Written sections -/

variable {fields : List (String × Value)}

/-- The assignments that the plain fields of a table are written as. -/
def assignments (fields : List (String × Value)) : List Assignment :=
  (fields.filter fun f => !isTable f.2).map fun f => ⟨[], f.1, f.2⟩

namespace Section

/-- The same section of a table at a path. -/
def under (path : List String) (s : Section) : Section :=
  { s with header := s.header.map fun h => (h.1, path ++ h.2.1, h.2.2) }

/-- The lines that a section is written as. -/
def toLines (s : Section) : List Line :=
  match s.header with
  | none => s.assignments.map .assignment
  | some (isList, path, key) => .empty :: .header isList path key :: s.assignments.map .assignment

theorem under_nil (s : Section) :
  s.under [] = s
  := by
  cases s with
  | mk header assignments => cases header <;> rfl

theorem under_under (path path' : List String) (s : Section) :
  (s.under path').under path = s.under (path ++ path')
  := by
  cases s with
  | mk header assignments => cases header <;> simp [under]

end Section

/-- Whether a table has a header of its own. -/
def hasHeader (fields : List (String × Value)) : Bool :=
  fields.isEmpty || fields.any fun f => !isTable f.2

/-- The section under the header of a table, if it has one of its own. -/
def headed (key : String) (fields : List (String × Value)) : List Section :=
  if hasHeader fields then [⟨some (false, [], key), assignments fields⟩] else []

/-- The sections that the inner tables of a table are written as. -/
def sections : List (String × Value) → List Section
  | [] => []
  | (k, .table fields) :: rest =>
      headed k fields ++ (sections fields).map (.under [k]) ++ sections rest
  | _ :: rest => sections rest

/-- What a document can hold that is written and read again: tables up to a depth, with different
names, of plain fields. -/
inductive Storable : Nat → Value → Prop where
  | plain {depth : Nat} {v : Value} (h : Plain v) : Storable depth v
  | table {depth : Nat} {fields : List (String × Value)}
      (h : ∀ f ∈ fields, Storable depth f.2) (hnames : (fields.map Prod.fst).Nodup) :
      Storable (depth + 1) (.table fields)

theorem isTable_eq_false {f : String × Value} (hf : ∀ k fields, f = (k, .table fields) → False) :
  isTable f.2 = false
  := by
  obtain ⟨key, v⟩ := f
  cases v with
  | table fields => exact absurd rfl (hf key fields)
  | _ => rfl

theorem plain_of_storable (h : Storable depth v) (hv : isTable v = false) :
  Plain v
  := by
  cases h with
  | plain h => exact h
  | table => cases hv

theorem writtenLines_printPlain (h : ∀ f ∈ fields, Storable depth f.2) :
  WrittenLines (printPlain fields).toList ((assignments fields).map .assignment)
  := by
  rw [printPlain, assignments, String.toList_join]
  have hplain : ∀ f ∈ fields.filter (fun f => !isTable f.2), Plain f.2 := by
    intro f hf
    rw [List.mem_filter] at hf
    apply plain_of_storable (h f hf.1)
    simpa using hf.2
  generalize fields.filter (fun f => !isTable f.2) = fields at hplain
  induction fields with
  | nil => exact ⟨[], rfl, .nil⟩
  | cons f fields ih =>
      obtain ⟨key, v⟩ := f
      obtain ⟨hf, hfields⟩ := List.forall_mem_cons.mp hplain
      obtain ⟨text, htext, hstart, hread⟩ := exists_printValue hf
      have hline : WrittenLine _ (.assignment ⟨[], key, v⟩) := writtenLine_assignment hstart hread
      rw [printPairs, htext, List.map_cons, List.flatMap_cons, String.toList_append]
      exact hline.single.append (ih hfields)

theorem toList_intercalate_keys (path : List String) (key : String) :
  (".".intercalate (path.map printKey ++ [printKey key])).toList = keyText path key
  := by
  induction path with
  | nil => simp [keyText]
  | cons part path ih =>
      rw [List.map_cons, List.cons_append, String.intercalate_cons_of_ne_nil (by simp),
        String.toList_append, String.toList_append, ih]
      simp [keyText]

theorem exists_storable_of_table (h : Storable depth (.table fields)) :
  ∃ d, depth = d + 1 ∧ (∀ f ∈ fields, Storable d f.2) ∧ (fields.map Prod.fst).Nodup
  := by
  cases h with
  | plain h =>
      cases h with
      | scalar h => cases h
  | table h hnames => exact ⟨_, rfl, h, hnames⟩

/-- A header with the plain fields below it. -/
theorem writtenLines_header {path : List String} (h : ∀ f ∈ fields, Storable depth f.2)
    (hpath : path.length + 1 < depthLimit) :
  WrittenLines ("\n[" ++ ".".intercalate (path.map printKey ++ [printKey key]) ++ "]\n" ++
      printPlain fields).toList
    (Section.toLines ⟨some (false, path, key), assignments fields⟩)
  := by
  have hheader : WrittenLine _ (.header false path key) := writtenLine_header hpath
  have hlines := (writtenLine_empty.single.append hheader.single).append (writtenLines_printPlain h)
  have htext : ("\n[" ++ ".".intercalate (path.map printKey ++ [printKey key]) ++ "]\n" ++
      printPlain fields).toList = ['\n'] ++ ('[' :: (keyText path key ++ [']', '\n'])) ++
        (printPlain fields).toList := by
    simp only [String.toList_append, toList_intercalate_keys]
    simp
  rw [htext]
  exact hlines

theorem writtenLines_printTables {path : List String} (h : ∀ f ∈ fields, Storable depth f.2)
    (hpath : path.length + depth < depthLimit) :
  WrittenLines (printTables (path.map printKey) fields).toList
    (((sections fields).map (.under path)).flatMap Section.toLines)
  := by
  induction fields using sections.induct generalizing path depth with
  | case1 =>
      rw [printTables, sections]
      exact ⟨[], rfl, .nil⟩
  | case2 k fields rest ih ih' =>
      obtain ⟨hfields, hrest⟩ := List.forall_mem_cons.mp h
      obtain ⟨d, rfl, hfields, -⟩ := exists_storable_of_table hfields
      have hinner : WrittenLines (printTables ((path ++ [k]).map printKey) fields).toList _ :=
        ih hfields (by rw [List.length_append, List.length_singleton]; omega)
      have hunder : ((sections fields).map (Section.under [k])).map (Section.under path) =
          (sections fields).map (Section.under (path ++ [k])) := by
        rw [List.map_map]
        congr 1
        funext s
        apply Section.under_under
      rw [List.map_append] at hinner
      rw [printTables, sections]
      simp only [String.toList_append, List.map_append, List.flatMap_append, hunder]
      refine .append (.append ?_ hinner) (ih' hrest hpath)
      rw [← hasHeader, headed]
      split
      · have hlines : WrittenLines _
            (Section.toLines ⟨some (false, path, k), assignments fields⟩) :=
          writtenLines_header hfields (by omega)
        simpa [Section.under] using hlines
      · exact ⟨[], rfl, .nil⟩
  | case3 f rest hf ih =>
      obtain ⟨-, hrest⟩ := List.forall_mem_cons.mp h
      rw [printTables, sections]
      · apply ih hrest hpath
      · exact hf
      · exact hf

theorem writtenLines_print (h : ∀ f ∈ fields, Storable depth f.2) (hdepth : depth < depthLimit) :
  WrittenLines (print fields).toList
    ((assignments fields).map .assignment ++ (sections fields).flatMap Section.toLines)
  := by
  have htables : WrittenLines (printTables (List.map printKey []) fields).toList
      (((sections fields).map (.under [])).flatMap Section.toLines) :=
    writtenLines_printTables h (by simpa using hdepth)
  rw [funext Section.under_nil, List.map_id'] at htables
  rw [print, String.toList_append]
  exact (writtenLines_printPlain h).append htables

/-! ### Lines of sections -/

variable {root : Entries} {current : Section} {ss : List Section}

theorem foldlM_addLine_assignments (as : List Assignment) :
  (as.map Line.assignment).foldlM addLine (root, current) =
    some (root, { current with assignments := current.assignments ++ as })
  := by
  induction as generalizing current with
  | nil => simp
  | cons a as ih =>
      rw [List.map_cons, List.foldlM_cons]
      show (as.map Line.assignment).foldlM addLine
        (root, { current with assignments := current.assignments ++ [a] }) = _
      rw [ih]
      simp

/-- A section is added when the next one begins. -/
theorem foldlM_addLine_toLines {s : Section} (hs : s.header.isSome) :
  s.toLines.foldlM addLine (root, current) = (addSection root current).map (·, s)
  := by
  obtain ⟨header, assignments⟩ := s
  obtain ⟨⟨isList, path, key⟩, rfl⟩ := Option.isSome_iff_exists.mp hs
  have hheader : addLine (root, current) (.header isList path key) =
      (addSection root current).map (·, ⟨some (isList, path, key), []⟩) := by
    rw [addLine]
    cases addSection root current <;> rfl
  show (addLine (root, current) (.header isList path key) >>=
    (assignments.map Line.assignment).foldlM addLine) = _
  rw [hheader]
  cases addSection root current with
  | none => rfl
  | some root => apply foldlM_addLine_assignments

/-- The lines of sections add the sections. -/
theorem foldlM_addLine_sections (hss : ∀ s ∈ ss, s.header.isSome) :
  ((ss.flatMap Section.toLines).foldlM addLine (root, current) >>=
    fun state => addSection state.1 state.2) = (current :: ss).foldlM addSection root
  := by
  induction ss generalizing root current with
  | nil => simp
  | cons s ss ih =>
      obtain ⟨hs, hss⟩ := List.forall_mem_cons.mp hss
      rw [List.flatMap_cons, List.foldlM_append, foldlM_addLine_toLines hs, List.foldlM_cons]
      cases addSection root current with
      | none => rfl
      | some root => apply ih hss

/-! ### Tables -/

variable {entries : Entries} {k : String} {item item' : Item}

/-- A key that the entries do not have. -/
def Fresh (entries : Entries) (key : String) : Prop := key ∉ entries.map Prod.fst

theorem get?_of_fresh (h : Fresh entries key) :
  entries.get? key = none
  := by
  rw [Entries.get?, Option.map_eq_none_iff, List.find?_eq_none]
  intro e he heq
  apply h
  rw [← of_decide_eq_true heq]
  apply List.mem_map_of_mem he

theorem get?_append_of_fresh (h : Fresh entries key) :
  Entries.get? (entries ++ [(key, item)]) key = some item
  := by
  have hnone : entries.find? (·.1 = key) = none := by
    simpa [Entries.get?] using get?_of_fresh h
  rw [Entries.get?, List.find?_append, hnone]
  simp

theorem Fresh.concat (h : Fresh entries key) (hne : key ≠ k) :
  Fresh (entries ++ [(k, item)]) key
  := by
  rw [Fresh, List.map_append, List.mem_append, List.map_singleton, List.mem_singleton]
  exact not_or.mpr ⟨h, hne⟩

theorem replace_append_of_fresh (h : Fresh entries key) :
  Entries.replace (entries ++ [(key, item)]) key item' = entries ++ [(key, item')]
  := by
  have hsame : ∀ e ∈ entries, (if e.1 = key then (key, item') else e) = e := by
    intro e he
    apply if_neg
    rintro rfl
    apply h (List.mem_map_of_mem he)
  rw [Entries.replace, List.map_append, List.map_congr_left hsame, List.map_id']
  simp

/-- The entries that the plain fields of a table become. -/
def plainEntries (fields : List (String × Value)) : Entries :=
  (fields.filter fun f => !isTable f.2).map fun f => (f.1, .value f.2)

theorem assignAll_plain (h : (entries.map Prod.fst ++ fields.map Prod.fst).Nodup) :
  assignAll entries (fields.map fun f => ⟨[], f.1, f.2⟩) =
    some (entries ++ fields.map fun f => (f.1, .value f.2))
  := by
  induction fields generalizing entries with
  | nil => simp [assignAll]
  | cons f fields ih =>
      have hfresh : Fresh entries f.1 := by
        intro hmem
        apply (List.nodup_append.mp h).2.2 _ hmem _ List.mem_cons_self rfl
      have hassign : assign false f.1 f.2 false entries [] =
          some (entries ++ [(f.1, .value f.2)]) := by
        rw [assign, if_neg]
        simp [get?_of_fresh hfresh]
      have hrest : assignAll (entries ++ [(f.1, .value f.2)]) _ = _ := ih (by simpa using h)
      rw [List.map_cons, assignAll, List.foldlM_cons]
      show (assign false f.1 f.2 false entries [] >>= _) = _
      rw [hassign]
      show assignAll _ _ = _
      rw [hrest, List.append_assoc]
      rfl

theorem assignAll_assignments (h : (fields.map Prod.fst).Nodup) :
  assignAll [] (assignments fields) = some (plainEntries fields)
  := by
  rw [assignments, assignAll_plain]
  · rfl
  · exact h.sublist (List.filter_sublist.map _)

/-! ### Adding sections -/

variable {s : Section} {isOpen isDotted : Bool} {inner : Entries}

/-- A section of a table that is not there makes the table on the way. -/
theorem addSection_under_of_fresh (hs : s.header.isSome) (h : Fresh entries k) :
  addSection entries (s.under [k]) =
    (addSection [] s).map fun inner => entries ++ [(k, .table true false inner)]
  := by
  obtain ⟨header, assignments⟩ := s
  obtain ⟨⟨isList, path, key⟩, rfl⟩ := Option.isSome_iff_exists.mp hs
  show within _ entries (k :: path) = _
  rw [within, get?_of_fresh h]
  show (within _ [] path >>= _) = Option.map _ (within _ [] path)
  rw [Option.map_eq_bind]
  rfl

/-- A section of a table that is there is added to it. -/
theorem addSection_under_of_table (hs : s.header.isSome) (h : Fresh entries k) :
  addSection (entries ++ [(k, .table isOpen isDotted inner)]) (s.under [k]) =
    (addSection inner s).map fun inner => entries ++ [(k, .table isOpen isDotted inner)]
  := by
  obtain ⟨header, assignments⟩ := s
  obtain ⟨⟨isList, path, key⟩, rfl⟩ := Option.isSome_iff_exists.mp hs
  show within _ _ (k :: path) = _
  rw [within, get?_append_of_fresh h]
  simp only [replace_append_of_fresh h]
  show (within _ inner path >>= _) = Option.map _ (within _ inner path)
  rw [Option.map_eq_bind]
  rfl

theorem foldlM_under_of_table (hss : ∀ s ∈ ss, s.header.isSome) (h : Fresh entries k) :
  (ss.map (.under [k])).foldlM addSection (entries ++ [(k, .table isOpen isDotted inner)]) =
    (ss.foldlM addSection inner).map fun inner => entries ++ [(k, .table isOpen isDotted inner)]
  := by
  induction ss generalizing inner with
  | nil => rfl
  | cons s ss ih =>
      obtain ⟨hs, hss⟩ := List.forall_mem_cons.mp hss
      rw [List.map_cons, List.foldlM_cons, List.foldlM_cons, addSection_under_of_table hs h]
      cases addSection inner s with
      | none => rfl
      | some inner => apply ih hss

theorem foldlM_under_of_fresh (hss : ∀ s ∈ ss, s.header.isSome) (hne : ss ≠ [])
    (h : Fresh entries k) :
  (ss.map (.under [k])).foldlM addSection entries =
    (ss.foldlM addSection []).map fun inner => entries ++ [(k, .table true false inner)]
  := by
  obtain ⟨s, ss, rfl⟩ := List.exists_cons_of_ne_nil hne
  obtain ⟨hs, hss⟩ := List.forall_mem_cons.mp hss
  rw [List.map_cons, List.foldlM_cons, List.foldlM_cons, addSection_under_of_fresh hs h]
  cases addSection [] s with
  | none => rfl
  | some inner => apply foldlM_under_of_table hss h

theorem isSome_header_of_mem_sections :
  ∀ s ∈ sections fields, s.header.isSome
  := by
  induction fields using sections.induct with
  | case1 => simp [sections]
  | case2 k fields rest ih ih' =>
      rw [sections]
      intro s hs
      rcases List.mem_append.mp hs with hs | hs
      · rcases List.mem_append.mp hs with hs | hs
        · rw [headed] at hs
          split at hs
          · rw [List.mem_singleton.mp hs]
            rfl
          · cases hs
        · obtain ⟨s', hs', rfl⟩ := List.mem_map.mp hs
          simpa [Section.under] using ih s' hs'
      · apply ih' s hs
  | case3 f rest hf ih =>
      rw [sections]
      · exact ih
      · exact hf

/-- A table without a header of its own has an inner table that has one. -/
theorem sections_ne_nil (h : hasHeader fields = false) :
  sections fields ≠ []
  := by
  induction fields using sections.induct with
  | case1 => cases h
  | case2 k fields rest ih ih' =>
      rw [sections]
      cases hheader : hasHeader fields with
      | true => simp [headed, hheader]
      | false => simp [ih hheader]
  | case3 f rest hf ih => simp [hasHeader, isTable_eq_false hf] at h

theorem plainEntries_of_not_hasHeader (h : hasHeader fields = false) :
  plainEntries fields = []
  := by
  have hplain : fields.filter (fun f => !isTable f.2) = [] := by
    rw [List.filter_eq_nil_iff]
    intro f hf
    rw [hasHeader, Bool.or_eq_false_iff, List.any_eq_false] at h
    apply h.2 f hf
  rw [plainEntries, hplain, List.map_nil]

theorem fresh_plainEntries (hnames : (fields.map Prod.fst).Nodup) {f : String × Value}
    (hf : f ∈ fields) (htable : isTable f.2) :
  Fresh (plainEntries fields) f.1
  := by
  rw [Fresh, plainEntries, List.map_map]
  intro hmem
  obtain ⟨f', hf', hname⟩ := List.mem_map.mp hmem
  obtain ⟨hf', hplain⟩ := List.mem_filter.mp hf'
  rw [List.inj_on_of_nodup_map hnames hf' hf hname, htable] at hplain
  cases hplain

/-- The sections of a table put the table behind the others. -/
theorem foldlM_addSection_table (hnames : (fields.map Prod.fst).Nodup) (h : Fresh entries k) :
  (headed k fields ++ (sections fields).map (Section.under [k])).foldlM addSection entries =
    ((sections fields).foldlM addSection (plainEntries fields)).map fun inner =>
      entries ++ [(k, .table (!hasHeader fields) false inner)]
  := by
  rw [headed]
  cases hheader : hasHeader fields with
  | true =>
      have hadd : addSection entries ⟨some (false, [], k), assignments fields⟩ =
          some (entries ++ [(k, .table false false (plainEntries fields))]) := by
        show addSection.change _ false k entries = _
        rw [addSection.change]
        · simp only [assignAll_assignments hnames]
          rfl
        · exact get?_of_fresh h
      rw [if_pos rfl, List.singleton_append, List.foldlM_cons, hadd]
      exact foldlM_under_of_table isSome_header_of_mem_sections h
  | false =>
      rw [if_neg Bool.false_ne_true, List.nil_append, plainEntries_of_not_hasHeader hheader]
      exact foldlM_under_of_fresh isSome_header_of_mem_sections (sections_ne_nil hheader) h

/-! ### Finished tables -/

open Value (FieldReorders FieldsReorder Reorders)

theorem finishEntries_eq_map (entries : Entries) :
  finishEntries entries = entries.map fun e => (e.1, e.2.finish)
  := by
  induction entries with
  | nil => rfl
  | cons e entries ih => rw [finishEntries, ih, List.map_cons]

theorem finishEntries_plainEntries :
  finishEntries (plainEntries fields) = fields.filter fun f => !isTable f.2
  := by
  rw [finishEntries_eq_map, plainEntries, List.map_map]
  apply List.map_id

/-- A table with its plain fields first, and then its inner tables reordered. -/
theorem fieldsReorder_finishEntries {added : Entries}
    (h : List.Forall₂ FieldReorders (fields.filter fun f => isTable f.2) (finishEntries added)) :
  FieldsReorder fields (finishEntries (plainEntries fields ++ added))
  := by
  have hperm : fields.Perm ((fields.filter fun f => !isTable f.2) ++
      fields.filter fun f => isTable f.2) := by
    simpa using (List.filter_append_perm (fun f => !isTable f.2) fields).symm
  apply List.perm_comp_forall₂ hperm
  rw [finishEntries_eq_map, List.map_append, ← finishEntries_eq_map, ← finishEntries_eq_map,
    finishEntries_plainEntries]
  exact List.rel_append (List.forall₂_same.mpr fun f _ => .refl f) h

/-- The sections of the inner tables add these, reordered. -/
theorem exists_foldlM_sections (h : ∀ f ∈ fields, Storable depth f.2)
    (hnames : (fields.map Prod.fst).Nodup)
    (hfresh : ∀ f ∈ fields, isTable f.2 → Fresh entries f.1) :
  ∃ added, (sections fields).foldlM addSection entries = some (entries ++ added) ∧
    List.Forall₂ FieldReorders (fields.filter fun f => isTable f.2) (finishEntries added)
  := by
  induction fields using sections.induct generalizing entries depth with
  | case1 => exact ⟨[], by simp [sections], .nil⟩
  | case2 k fields rest ih ih' =>
      obtain ⟨hfields, hrest⟩ := List.forall_mem_cons.mp h
      obtain ⟨hk, hfresh⟩ := List.forall_mem_cons.mp hfresh
      obtain ⟨d, rfl, hfields, hinner⟩ := exists_storable_of_table hfields
      rw [List.map_cons, List.nodup_cons] at hnames
      -- The plain fields of the table are there before its own tables come.
      have hplain : ∀ f ∈ fields, isTable f.2 → Fresh (plainEntries fields) f.1 :=
        fun f => fresh_plainEntries hinner
      obtain ⟨added, hadded, hreorders⟩ := ih hfields hinner hplain
      let table : Item := .table (!hasHeader fields) false (plainEntries fields ++ added)
      have hnext : ∀ f ∈ rest, isTable f.2 → Fresh (entries ++ [(k, table)]) f.1 := by
        intro f hf htable
        apply (hfresh f hf htable).concat
        intro heq
        apply hnames.1
        rw [← heq]
        apply List.mem_map_of_mem hf
      obtain ⟨others, hothers, hreorders'⟩ := ih' hrest hnames.2 hnext
      refine ⟨(k, table) :: others, ?_, ?_⟩
      · rw [sections, List.foldlM_append, foldlM_addSection_table hinner (hk rfl), hadded]
        show (sections rest).foldlM addSection (entries ++ [(k, table)]) = _
        rw [hothers, List.append_assoc, List.singleton_append]
      · rw [List.filter_cons_of_pos rfl, finishEntries]
        obtain ⟨moved, hmoved, hperm⟩ := fieldsReorder_finishEntries hreorders
        exact .cons (.mk k (.table hmoved hperm)) hreorders'
  | case3 f rest hf ih =>
      obtain ⟨-, hrest⟩ := List.forall_mem_cons.mp h
      rw [List.map_cons, List.nodup_cons] at hnames
      rw [sections, List.filter_cons_of_neg (by simp [isTable_eq_false hf])]
      · exact ih hrest hnames.2 (List.forall_mem_cons.mp hfresh).2
      · exact hf

/-! ### Documents -/

theorem read?_of_writtenLines {text : String} {lines : List Line}
    (h : WrittenLines text.toList lines) :
  read? text = (lines.foldlM addLine ([], ⟨none, []⟩) >>=
    fun state => addSection state.1 state.2).map finishEntries
  := by
  have hread : readLines (text.toList.length + 1) [] (text.toList.length + 1) text.toList =
      some lines :=
    h.readLines_eq (Nat.le_succ _) (Nat.le_succ _)
  rw [read?]
  split
  case h_1 cs hmark => exact absurd (by rw [hmark, List.head?_cons]) h.head?_ne
  case h_2 =>
    simp only [hread, Option.map_eq_bind, Option.bind_eq_bind, Option.bind_some, Option.bind_assoc]
    rfl

/-- A document is read back with the fields of its tables reordered. -/
theorem exists_read?_print (h : ∀ f ∈ fields, Storable depth f.2)
    (hnames : (fields.map Prod.fst).Nodup) (hdepth : depth < depthLimit) :
  ∃ fields', read? (print fields) = some fields' ∧ FieldsReorder fields fields'
  := by
  obtain ⟨added, hadded, hreorders⟩ :=
    exists_foldlM_sections h hnames fun f => fresh_plainEntries hnames
  refine ⟨_, ?_, fieldsReorder_finishEntries hreorders⟩
  have hroot : (⟨none, assignments fields⟩ :: sections fields).foldlM addSection [] =
      some (plainEntries fields ++ added) := by
    rw [List.foldlM_cons]
    show (assignAll [] (assignments fields) >>= _) = _
    rw [assignAll_assignments hnames]
    exact hadded
  rw [← foldlM_addLine_sections isSome_header_of_mem_sections] at hroot
  rw [read?_of_writtenLines (writtenLines_print h hdepth), List.foldlM_append,
    foldlM_addLine_assignments]
  show (((sections fields).flatMap Section.toLines).foldlM addLine
    ([], ⟨none, assignments fields⟩) >>= _).map finishEntries = _
  rw [hroot]
  rfl

end AudioPatch.Toml
