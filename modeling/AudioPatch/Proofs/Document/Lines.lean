import AudioPatch.Proofs.Document.Lexeme
import Mathlib.Data.List.Forall2

/-!
# Lines that are read back

A value that is no table is written on the line of its key, or, if it is a longer list, on lines
of its own below. Such lines, headers and empty lines are read as what they were written for.
-/

namespace AudioPatch.Toml

variable {c : Char} {cs rest : List Char} {text key : String} {v : Value} {n depth : Nat}

/-! ### Values -/

/-- A value that is written in one piece. -/
inductive Scalar : Value → Prop where
  | bool (b : Bool) : Scalar (.bool b)
  | int {i : Int} (h : Int64.minValue.toInt ≤ i ∧ i ≤ Int64.maxValue.toInt) : Scalar (.int i)
  | float {x : Binary .double} (h : x.Settled) : Scalar (.float x)
  | string (s : String) : Scalar (.string s)

/-- What may follow a value: the end of its line, or what comes next in a list. -/
def Ends (rest : List Char) : Prop := ∃ c ∈ rest.head?, c = '\n' ∨ c = ',' ∨ c = ']'

/-- A character that a text or a word starts with. -/
def isSolid (c : Char) : Bool := isWordChar c || c = '"' || c = '\x27'

theorem Ends.isWordChar_eq (h : Ends rest) :
  ∀ c ∈ rest.head?, isWordChar c = false
  := by
  obtain ⟨c, hc, hend⟩ := h
  intro c' hc'
  obtain rfl := Option.mem_unique hc hc'
  rcases hend with rfl | rfl | rfl <;> rfl

theorem Ends.head?_ne (h : Ends rest) :
  rest.head? ≠ some '"'
  := by
  obtain ⟨c, hc, hend⟩ := h
  rintro hquote
  obtain rfl := Option.mem_unique hc hquote
  simp at hend

/-- A text is written for a value. -/
structure Written (text : String) (v : Value) : Prop where
  start : ∃ c ∈ text.toList.head?, isSolid c
  read : ∀ n depth rest, Ends rest →
    readValue (n + 1) depth (text.toList ++ rest) = some (v, rest)

/-- A word has a character. -/
theorem isWordChar_of_readWord {result : Value × List Char} (h : readWord cs = some result) :
  ∃ c ∈ cs.head?, isWordChar c
  := by
  by_contra hnone
  have hspan : ([] ++ cs).span isWordChar = ([], cs) := by
    apply span_append (by simp)
    intro c hc
    simpa using fun hword => hnone ⟨c, hc, hword⟩
  rw [List.nil_append] at hspan
  rw [readWord, hspan] at h
  simp [isDate, isTime, number?, unsigned?, wholeDigits?, digits?] at h

theorem readValue_of_isWordChar (h : ∃ c ∈ cs.head?, isWordChar c) :
  readValue (n + 1) depth cs = readWord cs
  := by
  obtain ⟨c, hc, hword⟩ := h
  obtain ⟨cs, rfl⟩ := List.head?_eq_some_iff.mp hc
  rw [readValue]
  all_goals
    intro cs' heq
    obtain ⟨rfl, -⟩ := List.cons.inj heq
    exact absurd hword (by decide)

theorem written_of_readWord
    (h : ∀ rest, Ends rest → readWord (text.toList ++ rest) = some (v, rest)) :
  Written text v
  := by
  constructor
  case start =>
    have hend : Ends ['\n'] := ⟨'\n', rfl, .inl rfl⟩
    obtain ⟨c, hc, hword⟩ := isWordChar_of_readWord (h _ hend)
    cases htext : text.toList with
    | nil =>
        rw [htext] at hc
        obtain rfl := Option.some.inj hc
        exact absurd hword (by decide)
    | cons d cs =>
        rw [htext] at hc
        obtain rfl := Option.some.inj hc
        exact ⟨d, rfl, by simp [isSolid, hword]⟩
  case read =>
    intro n depth rest hrest
    have hread := h rest hrest
    rw [readValue_of_isWordChar (isWordChar_of_readWord hread), hread]

theorem exists_head?_printText (s : String) :
  ∃ c ∈ (printText s).toList.head?, isSolid c
  := by
  rcases printText_cases s with ⟨body, heq, -⟩ | ⟨body, heq, -⟩
  · rw [heq]
    exact ⟨'"', rfl, rfl⟩
  · rw [heq]
    exact ⟨'\x27', rfl, rfl⟩

theorem written_printText (s : String) :
  Written (printText s) (.string s)
  := by
  constructor
  case start => apply exists_head?_printText
  case read =>
    intro n depth rest hrest
    have hread : readText ((printText s).toList ++ rest) = some (s, rest) :=
      readText_printText hrest.head?_ne
    rcases printText_cases s with ⟨body, heq, -⟩ | ⟨body, heq, -⟩
    · rw [heq] at hread ⊢
      rw [List.cons_append] at hread ⊢
      rw [readValue, hread]
      rfl
    · rw [heq] at hread ⊢
      rw [List.cons_append] at hread ⊢
      rw [readValue, hread]
      rfl

theorem exists_written (h : Scalar v) :
  ∃ text, printValue v = some text ∧ Written text v
  := by
  cases h with
  | bool b =>
      refine ⟨if b then "true" else "false", rfl, written_of_readWord ?_⟩
      intro rest hrest
      apply readWord_bool hrest.isWordChar_eq
  | int hi =>
      refine ⟨toString _, rfl, written_of_readWord ?_⟩
      intro rest hrest
      apply readWord_int hi hrest.isWordChar_eq
  | float hx =>
      refine ⟨printFloat _, rfl, written_of_readWord ?_⟩
      intro rest hrest
      apply readWord_printFloat hx hrest.isWordChar_eq
  | string s => exact ⟨printText s, rfl, written_printText s⟩

/-! ### Lists -/

variable {items acc : List Value} {texts : List String}

theorem ne_of_isSolid {d : Char} (h : isSolid c) (hd : isSolid d = false) :
  c ≠ d
  := by
  rintro rfl
  exact Bool.false_ne_true (hd.symm.trans h)

theorem isBlank_of_isSolid (h : isSolid c) :
  isBlank c = false
  := by
  have hspace : c ≠ ' ' := ne_of_isSolid h rfl
  have htab : c ≠ '\t' := ne_of_isSolid h rfl
  simp [isBlank, hspace, htab]

theorem skipTrivia_of_isSolid (h : isSolid c) :
  skipTrivia false (c :: cs) = c :: cs
  := by
  have hline : c ≠ '\n' := ne_of_isSolid h rfl
  have hcomment : c ≠ '#' := ne_of_isSolid h rfl
  rw [skipTrivia]
  · simp [hline, hcomment, isBlank_of_isSolid h]
  · intro cs' heq
    exact absurd heq (ne_of_isSolid h rfl)

/-- One more item of a list, with others behind it or as the last one. -/
theorem readItems_cons (h : Written text v)
    (hcs : skipTrivia false cs = skipTrivia false (text.toList ++ rest)) (hrest : Ends rest) :
  (∀ more, skipTrivia false rest = ',' :: more →
      readItems (n + 2) depth acc cs = readItems (n + 1) depth (v :: acc) more) ∧
    ∀ more, skipTrivia false rest = ']' :: more →
      readItems (n + 2) depth acc cs = some (.list (v :: acc).reverse, more)
  := by
  obtain ⟨c, hc, hsolid⟩ := h.start
  obtain ⟨chars, hchars⟩ := List.head?_eq_some_iff.mp hc
  have hread := h.read n depth rest hrest
  rw [hchars, List.cons_append] at hread hcs
  rw [readItems, hcs, skipTrivia_of_isSolid hsolid]
  split
  case h_1 heq =>
    obtain ⟨rfl, -⟩ := List.cons.inj heq
    exact absurd hsolid (by decide)
  case h_2 =>
    constructor
    · intro more hmore
      simp only [hread, hmore]
    · intro more hmore
      simp only [hread, hmore]

/-- The text of an item among others. -/
def itemLine (text : String) : List Char :=
  ' ' :: ' ' :: ' ' :: ' ' :: (text.toList ++ [',', '\n'])

/-- The items of a list, each on a line. -/
theorem readItems_lines (h : List.Forall₂ Written texts items) (hn : items.length < n) :
  readItems n depth acc ('\n' :: (texts.flatMap itemLine ++ ']' :: rest)) =
    some (.list (acc.reverse ++ items), rest)
  := by
  induction h generalizing n acc with
  | nil =>
      obtain ⟨n, rfl⟩ := Nat.exists_eq_add_of_lt hn
      rw [List.append_nil]
      rfl
  | @cons text v texts items hwritten _ ih =>
      rw [List.length_cons] at hn
      obtain ⟨m, rfl⟩ : ∃ m, n = m + 2 := ⟨n - 2, by omega⟩
      have hcs : skipTrivia false ('\n' :: ((text :: texts).flatMap itemLine ++ ']' :: rest)) =
          skipTrivia false
            (text.toList ++ ',' :: '\n' :: (texts.flatMap itemLine ++ ']' :: rest)) := by
        simp only [List.flatMap_cons, itemLine, List.append_assoc, List.cons_append,
          List.nil_append]
        rfl
      obtain ⟨hmore, -⟩ := readItems_cons hwritten hcs ⟨',', rfl, .inr (.inl rfl)⟩
      rw [hmore _ rfl, ih (by omega), List.reverse_cons, List.append_assoc, List.singleton_append]

theorem toList_printList_singleton (text : String) :
  (printList [text]).toList = '[' :: (text.toList ++ [']'])
  := by
  rw [printList, String.toList_append, String.toList_append]
  rfl

theorem toList_printList_cons_cons (text text' : String) (texts : List String) :
  (printList (text :: text' :: texts)).toList =
    '[' :: '\n' :: ((text :: text' :: texts).flatMap itemLine ++ [']'])
  := by
  have hlines : ∀ texts : List String,
      (String.join (texts.map fun item => "    " ++ item ++ ",\n")).toList =
        texts.flatMap itemLine := by
    intro texts
    rw [String.toList_join, List.flatMap_map]
    congr 1
    funext text
    simp [itemLine]
  rw [printList, String.toList_append, String.toList_append, hlines]
  · rfl
  · nofun
  · nofun

/-- A list is read as it was written. -/
theorem readValue_printList (h : List.Forall₂ Written texts items) (hn : items.length + 1 < n) :
  readValue n (depth + 1) ((printList texts).toList ++ rest) = some (.list items, rest)
  := by
  obtain ⟨m, rfl⟩ : ∃ m, n = m + 2 := ⟨n - 2, by omega⟩
  match texts, h with
  | [], .nil => rfl
  | [text], .cons hwritten .nil =>
      rw [List.length_singleton] at hn
      obtain ⟨k, rfl⟩ : ∃ k, m = k + 1 := ⟨m - 1, by omega⟩
      rw [toList_printList_singleton, List.cons_append, List.append_assoc, List.singleton_append,
        readValue, if_neg (Nat.succ_ne_zero depth),
        (readItems_cons hwritten rfl ⟨']', rfl, .inr (.inr rfl)⟩).2 _ rfl]
      rfl
  | text :: text' :: texts, .cons hfirst (.cons hsecond hrest) =>
      rw [toList_printList_cons_cons, List.cons_append, readValue, if_neg (Nat.succ_ne_zero depth),
        List.cons_append, List.append_assoc, List.singleton_append,
        readItems_lines (.cons hfirst (.cons hsecond hrest)) (by omega)]
      rfl

theorem Written.length_pos (h : Written text v) :
  0 < text.length
  := by
  obtain ⟨c, hc, -⟩ := h.start
  obtain ⟨cs, hcs⟩ := List.head?_eq_some_iff.mp hc
  rw [← String.length_toList, hcs]
  apply Nat.succ_pos

theorem length_le_length_flatMap (h : List.Forall₂ Written texts items) :
  items.length ≤ (texts.flatMap itemLine).length
  := by
  induction h with
  | nil => simp
  | cons _ _ ih =>
      simp only [List.length_cons, List.flatMap_cons, List.length_append, itemLine]
      omega

theorem lt_length_printList (h : List.Forall₂ Written texts items) :
  items.length + 1 < (printList texts).length
  := by
  rw [← String.length_toList]
  match texts, h with
  | [], .nil => decide
  | [text], .cons hwritten .nil =>
      have hpos := hwritten.length_pos
      rw [← String.length_toList] at hpos
      rw [toList_printList_singleton]
      simp only [List.length_cons, List.length_append, List.length_nil]
      omega
  | text :: text' :: texts, .cons hfirst (.cons hsecond hrest) =>
      have hle := length_le_length_flatMap (.cons hfirst (.cons hsecond hrest))
      rw [toList_printList_cons_cons]
      simp only [List.length_cons, List.length_append, List.length_nil] at hle ⊢
      omega

theorem forall₂_printItems (h : ∀ v ∈ items, Scalar v) :
  List.Forall₂ Written (printItems items) items
  := by
  induction items with
  | nil => exact .nil
  | cons v items ih =>
      obtain ⟨hv, hitems⟩ := List.forall_mem_cons.mp h
      obtain ⟨text, htext, hwritten⟩ := exists_written hv
      rw [printItems, htext]
      exact .cons hwritten (ih hitems)

/-! ### Fields -/

/-- A value that is written on the line of its key. -/
inductive Plain : Value → Prop where
  | scalar {v : Value} (h : Scalar v) : Plain v
  | list {items : List Value} (h : ∀ v ∈ items, Scalar v) : Plain (.list items)

theorem head?_printList (texts : List String) :
  (printList texts).toList.head? = some '['
  := by
  match texts with
  | [] => rfl
  | [text] => rw [toList_printList_singleton, List.head?_cons]
  | text :: text' :: texts => rw [toList_printList_cons_cons, List.head?_cons]

/-- What is written for a value after its key is read as the value. -/
theorem exists_printValue (h : Plain v) :
  ∃ text, printValue v = some text ∧ (∃ c ∈ text.toList.head?, isBlank c = false) ∧
    ∀ n depth rest, text.length ≤ n → Ends rest →
      readValue n (depth + 1) (text.toList ++ rest) = some (v, rest)
  := by
  cases h with
  | scalar h =>
      obtain ⟨text, htext, hwritten⟩ := exists_written h
      obtain ⟨c, hc, hsolid⟩ := hwritten.start
      refine ⟨text, htext, ⟨c, hc, isBlank_of_isSolid hsolid⟩, ?_⟩
      intro n depth rest hn hrest
      have hread := hwritten.read (n - 1) (depth + 1) rest hrest
      rwa [Nat.sub_add_cancel (Nat.lt_of_lt_of_le hwritten.length_pos hn)] at hread
  | @list items h =>
      have hitems := forall₂_printItems h
      refine ⟨printList (printItems items), rfl, ⟨'[', head?_printList _, rfl⟩, ?_⟩
      intro n depth rest hn _
      apply readValue_printList hitems
      apply (lt_length_printList hitems).trans_le hn

/-! ### Keys -/

/-- A key is written for a path and its last part. -/
def keyText (path : List String) (key : String) : List Char :=
  path.flatMap (fun part => (printKey part).toList ++ ['.']) ++ (printKey key).toList

theorem exists_head?_printKey (key : String) :
  ∃ c ∈ (printKey key).toList.head?, isSolid c
  := by
  rw [printKey]
  split
  case isTrue hbare =>
    simp only [Bool.and_eq_true, decide_eq_true_eq, List.all_eq_true] at hbare
    obtain ⟨hne, hbare⟩ := hbare
    obtain ⟨c, cs, hkey⟩ := List.exists_cons_of_ne_nil (mt String.toList_eq_nil_iff.mp hne)
    have hc := hbare c (by rw [hkey]; exact List.mem_cons_self)
    refine ⟨c, by rw [hkey]; rfl, ?_⟩
    simp only [Bool.or_eq_true, decide_eq_true_eq] at hc
    rcases hc with (hc | rfl) | rfl
    · simp [isSolid, isWordChar, hc]
    · rfl
    · rfl
  case isFalse => apply exists_head?_printText

theorem skipBlanks_append (h : ∃ c ∈ cs.head?, isBlank c = false) :
  skipBlanks (cs ++ rest) = cs ++ rest
  := by
  obtain ⟨c, hc, hblank⟩ := h
  obtain ⟨cs, rfl⟩ := List.head?_eq_some_iff.mp hc
  rw [List.cons_append, skipBlanks, List.dropWhile_cons, hblank]
  rfl

theorem skipBlanks_printKey (key : String) :
  skipBlanks ((printKey key).toList ++ rest) = (printKey key).toList ++ rest
  := by
  obtain ⟨c, hc, hsolid⟩ := exists_head?_printKey key
  apply skipBlanks_append ⟨c, hc, isBlank_of_isSolid hsolid⟩

/-- A key is read as it was written. -/
theorem readKeyFrom_keyText {path done : List String} (hn : path.length < n)
    (hrest : ∀ c ∈ rest.head?, isBareKey c = false) (hpoint : (skipBlanks rest).head? ≠ some '.') :
  readKeyFrom done n (keyText path key ++ rest) =
    some (done.reverse ++ path, key, skipBlanks rest)
  := by
  induction path generalizing done n with
  | nil =>
      obtain ⟨m, rfl⟩ := Nat.exists_eq_add_of_lt hn
      rw [keyText, List.flatMap_nil, List.nil_append, List.append_nil, readKeyFrom,
        skipBlanks_printKey, readKeyPart_printKey hrest]
      simp only
      split
      case h_1 heq =>
        rw [heq] at hpoint
        exact absurd rfl hpoint
      case h_2 => rfl
  | cons part path ih =>
      rw [List.length_cons] at hn
      obtain ⟨m, rfl⟩ : ∃ m, n = m + 1 := ⟨n - 1, by omega⟩
      have htext : keyText (part :: path) key ++ rest =
          (printKey part).toList ++ '.' :: (keyText path key ++ rest) := by
        simp [keyText]
      have hread : readKeyFrom (part :: done) m (keyText path key ++ rest) = _ := ih (by omega)
      rw [htext, readKeyFrom, skipBlanks_printKey, readKeyPart_printKey (by simp [isBareKey])]
      rw [List.reverse_cons, List.append_assoc, List.singleton_append] at hread
      rw [← hread]
      rfl

theorem exists_head?_keyText (path : List String) (key : String) :
  ∃ c ∈ (keyText path key).head?, isSolid c
  := by
  cases path with
  | nil => apply exists_head?_printKey
  | cons part path =>
      obtain ⟨c, hc, hsolid⟩ := exists_head?_printKey part
      refine ⟨c, ?_, hsolid⟩
      rw [keyText, List.flatMap_cons, List.append_assoc, List.append_assoc, List.head?_append, hc]
      rfl

/-! ### Lines -/

theorem readLineEnd_of_isSolid (h : isSolid c) :
  readLineEnd (c :: cs) = none
  := by
  have hcomment : c ≠ '#' := ne_of_isSolid h rfl
  have hskip : skipBlanks (c :: cs) = c :: cs := by
    rw [skipBlanks, List.dropWhile_cons, isBlank_of_isSolid h]
    rfl
  simp only [readLineEnd, hskip, List.head?_cons, Option.some.injEq, hcomment, if_false]
  split
  case h_1 heq => cases heq
  case h_2 heq => exact absurd (List.cons.inj heq).1 (ne_of_isSolid h rfl)
  case h_3 heq => exact absurd (List.cons.inj heq).1 (ne_of_isSolid h rfl)
  case h_4 => rfl

theorem readLine_header {path : List String} (hcs : ∃ c ∈ cs.head?, isSolid c)
    (hkey : readKey cs = some (path, key, ']' :: rest)) :
  readLine n ('[' :: cs) = (readLineEnd rest).map (.header false path key, ·)
  := by
  obtain ⟨c, hc, hsolid⟩ := hcs
  obtain ⟨cs, rfl⟩ := List.head?_eq_some_iff.mp hc
  have hskip : skipBlanks ('[' :: c :: cs) = '[' :: c :: cs := rfl
  rw [readLine, hskip]
  split
  case h_1 heq =>
    obtain ⟨rfl, -⟩ := List.cons.inj (List.cons.inj heq).2
    exact absurd hsolid (by decide)
  case h_2 heq =>
    obtain rfl := (List.cons.inj heq).2
    simp only [hkey]
  case h_3 hnot => exact absurd rfl (hnot _)

theorem readLine_assignment {path : List String} {more : List Char}
    (hcs : ∃ c ∈ cs.head?, isSolid c) (hkey : readKey cs = some (path, key, '=' :: more))
    (hvalue : readValue n (depthLimit - 1) (skipBlanks more) = some (v, rest)) :
  readLine n cs = (readLineEnd rest).map (.assignment ⟨path, key, v⟩, ·)
  := by
  obtain ⟨c, hc, hsolid⟩ := hcs
  obtain ⟨cs, rfl⟩ := List.head?_eq_some_iff.mp hc
  have hskip : skipBlanks (c :: cs) = c :: cs := by
    rw [skipBlanks, List.dropWhile_cons, isBlank_of_isSolid hsolid]
    rfl
  rw [readLine, hskip]
  split
  case h_1 heq => exact absurd (List.cons.inj heq).1 (ne_of_isSolid hsolid rfl)
  case h_2 heq => exact absurd (List.cons.inj heq).1 (ne_of_isSolid hsolid rfl)
  case h_3 =>
    simp only [readLineEnd_of_isSolid hsolid, hkey, hvalue]

/-- A text is written for a line. -/
structure WrittenLine (text : List Char) (line : Line) : Prop where
  ne_nil : text ≠ []
  read : ∀ n rest, text.length ≤ n → readLine n (text ++ rest) = some (line, rest)

theorem writtenLine_empty :
  WrittenLine ['\n'] .empty
  := ⟨List.cons_ne_nil _ _, fun _ _ _ => rfl⟩

theorem writtenLine_header {path : List String} (hpath : path.length + 1 < depthLimit) :
  WrittenLine ('[' :: (keyText path key ++ [']', '\n'])) (.header false path key)
  := by
  refine ⟨List.cons_ne_nil _ _, fun n rest _ => ?_⟩
  have hkey : readKey (keyText path key ++ ']' :: '\n' :: rest) =
      some (path, key, ']' :: '\n' :: rest) := by
    apply readKeyFrom_keyText (by omega)
    · simp [isBareKey]
    · simp [skipBlanks, isBlank]
  obtain ⟨c, hc, hsolid⟩ := exists_head?_keyText path key
  rw [List.cons_append, List.append_assoc]
  show readLine n ('[' :: (keyText path key ++ ']' :: '\n' :: rest)) = _
  rw [readLine_header _ hkey]
  · rfl
  · exact ⟨c, by rw [List.head?_append, hc]; rfl, hsolid⟩

theorem writtenLine_assignment (hstart : ∃ c ∈ text.toList.head?, isBlank c = false)
    (hread : ∀ n depth rest, text.length ≤ n → Ends rest →
      readValue n (depth + 1) (text.toList ++ rest) = some (v, rest)) :
  WrittenLine ((printKey key ++ " = " ++ text).toList ++ ['\n']) (.assignment ⟨[], key, v⟩)
  := by
  refine ⟨by simp, fun n rest hn => ?_⟩
  have htext : (printKey key ++ " = " ++ text).toList ++ ['\n'] ++ rest =
      keyText [] key ++ ' ' :: '=' :: ' ' :: (text.toList ++ '\n' :: rest) := by
    simp [keyText]
  have hkey : readKey (keyText [] key ++ ' ' :: '=' :: ' ' :: (text.toList ++ '\n' :: rest)) =
      some ([], key, '=' :: ' ' :: (text.toList ++ '\n' :: rest)) := by
    apply readKeyFrom_keyText (by decide)
    · simp [isBareKey]
    · simp [skipBlanks, isBlank]
  have hvalue : readValue n (depthLimit - 1) (skipBlanks (' ' :: (text.toList ++ '\n' :: rest))) =
      some (v, '\n' :: rest) := by
    have hskip : skipBlanks (' ' :: (text.toList ++ '\n' :: rest)) = text.toList ++ '\n' :: rest :=
      skipBlanks_append hstart
    rw [hskip]
    apply hread n 78 _ _ ⟨'\n', rfl, .inl rfl⟩
    simp only [String.toList_append, List.length_append, String.length_toList] at hn
    omega
  obtain ⟨c, hc, hsolid⟩ := exists_head?_keyText [] key
  rw [htext, readLine_assignment _ hkey hvalue]
  · rfl
  · exact ⟨c, by rw [List.head?_append, hc]; rfl, hsolid⟩

/-- A text is written for lines, one after the other. -/
def WrittenLines (text : List Char) (lines : List Line) : Prop :=
  ∃ texts, text = texts.flatten ∧ List.Forall₂ WrittenLine texts lines

variable {lines lines' done : List Line} {cs' : List Char}

theorem WrittenLines.append (h : WrittenLines cs lines) (h' : WrittenLines cs' lines') :
  WrittenLines (cs ++ cs') (lines ++ lines')
  := by
  obtain ⟨texts, rfl, htexts⟩ := h
  obtain ⟨texts', rfl, htexts'⟩ := h'
  exact ⟨texts ++ texts', List.flatten_append.symm, List.rel_append htexts htexts'⟩

theorem WrittenLine.single {line : Line} (h : WrittenLine cs line) :
  WrittenLines cs [line]
  := ⟨[cs], (List.append_nil cs).symm, .cons h .nil⟩

/-- Lines are read as they were written. -/
theorem WrittenLines.readLines_eq {count : Nat} (h : WrittenLines cs lines) (hn : cs.length ≤ n)
    (hcount : cs.length ≤ count) :
  readLines n done count cs = some (done.reverse ++ lines)
  := by
  obtain ⟨texts, rfl, htexts⟩ := h
  induction htexts generalizing done count with
  | nil => cases count <;> simp [readLines]
  | @cons text line texts lines hline _ ih =>
      have hpos := List.length_pos_iff.mpr hline.ne_nil
      rw [List.flatten_cons, List.length_append] at hn hcount
      obtain ⟨count, rfl⟩ : ∃ k, count = k + 1 := ⟨count - 1, by omega⟩
      have hread : readLines n (line :: done) count texts.flatten = _ := ih (by omega) (by omega)
      rw [List.flatten_cons, readLines, hline.read n _ (by omega)]
      · simp only [hread, List.reverse_cons, List.append_assoc, List.singleton_append]
      · simp [hline.ne_nil]

/-- No line starts with a byte order mark. -/
theorem WrittenLines.head?_ne (h : WrittenLines cs lines) :
  cs.head? ≠ some '\ufeff'
  := by
  obtain ⟨texts, rfl, htexts⟩ := h
  cases htexts with
  | nil => simp
  | @cons text line texts lines hline _ =>
      intro hmark
      obtain ⟨c, text, rfl⟩ := List.exists_cons_of_ne_nil hline.ne_nil
      obtain rfl : c = '\ufeff' := by simpa using hmark
      have hread := hline.read _ [] le_rfl
      cases hread

end AudioPatch.Toml
