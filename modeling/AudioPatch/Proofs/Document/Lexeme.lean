import AudioPatch.Document.Toml.Printer
import AudioPatch.Document.Toml.Reader
import AudioPatch.Proofs.Numeral.Rounding
import Mathlib.Data.List.TakeDrop

/-!
# Lexemes that are read back

What the printer writes for a text, a key, a truth value or a number is read as the same again,
whatever comes after it that cannot be part of it.
-/

namespace AudioPatch.Toml

variable {c : Char} {acc cs rest : List Char} {text key : String}

/-- A word ends where a character cannot be part of it. -/
theorem span_append {p : Char → Bool} {word : List Char} (hword : ∀ c ∈ word, p c)
    (hrest : ∀ c ∈ rest.head?, p c = false) :
  (word ++ rest).span p = (word, rest)
  := by
  have htake : rest.takeWhile p = [] := by
    rw [List.takeWhile_eq_nil_iff]
    cases rest <;> simp_all
  have hdrop : rest.dropWhile p = rest := by
    rw [List.dropWhile_eq_self_iff]
    cases rest <;> simp_all
  rw [List.span_eq_takeWhile_dropWhile, List.takeWhile_append_of_pos hword,
    List.dropWhile_append_of_pos hword, htake, hdrop, List.append_nil]

theorem span_self {p : Char → Bool} {word : List Char} (hword : ∀ c ∈ word, p c) :
  word.span p = (word, [])
  := by
  have hspan : (word ++ []).span p = (word, []) := span_append hword (by simp)
  rwa [List.append_nil] at hspan

/-! ### Texts -/

theorem isPlain_eq_not_isControl (c : Char) :
  isPlain c = !isControl c
  := by
  by_cases htab : c = '\t'
  · subst htab
    rfl
  · simp only [isPlain, isControl, htab]
    grind

/-- A character that stands for itself is read as it is. -/
theorem readBasic_cons (hplain : isPlain c) (hquote : c ≠ '"') (hslash : c ≠ '\\') :
  readBasic acc (c :: cs) = readBasic (c :: acc) cs
  := by
  rw [readBasic.eq_def]
  split
  all_goals simp_all

theorem readLiteral_cons (hplain : isPlain c) (hquote : c ≠ '\x27') :
  readLiteral acc (c :: cs) = readLiteral (c :: acc) cs
  := by
  rw [readLiteral.eq_def]
  split
  all_goals simp_all

theorem readBasic_unicode {digits : List Char} (hlength : digits.length = 4)
    (hcode : codePoint? digits = some c) :
  readBasic acc ('\\' :: 'u' :: (digits ++ cs)) = readBasic (c :: acc) cs
  := by
  match digits, hlength with
  | [_, _, _, _], _ =>
      simp only [List.cons_append, List.nil_append]
      rw [readBasic, hcode]

/-- The number of a control character has four digits, with zeros before them. -/
theorem codePoint?_of_isControl (hcontrol : isControl c) :
  let digits := (Nat.toDigits 16 c.toNat).map Char.toUpper
  let padded := List.replicate (4 - digits.length) '0' ++ digits
  padded.length = 4 ∧ codePoint? padded = some c
  := by
  have hall : ∀ n < 128,
      let digits := (Nat.toDigits 16 n).map Char.toUpper
      let padded := List.replicate (4 - digits.length) '0' ++ digits
      padded.length = 4 ∧ codePoint? padded = some (Char.ofNat n) := by
    decide +kernel
  have hlt : c.toNat < 128 := by
    simp only [isControl, Bool.or_eq_true, Bool.and_eq_true, decide_eq_true_eq] at hcontrol
    omega
  have hdigits := hall c.toNat hlt
  rwa [Char.ofNat_toNat] at hdigits

/-- A character is read as it was written, with an escape if it needs one. -/
theorem readBasic_printChar (c : Char) :
  readBasic acc (printChar c ++ cs) = readBasic (c :: acc) cs
  := by
  rw [printChar]
  repeat
    split
    · subst_vars
      rfl
  split
  case isTrue hcontrol =>
    obtain ⟨hlength, hcode⟩ := codePoint?_of_isControl hcontrol
    simp only [List.append_assoc, List.cons_append, List.nil_append]
    rw [← List.append_assoc]
    apply readBasic_unicode hlength hcode
  case isFalse hcontrol =>
    apply readBasic_cons _ (by assumption) (by assumption)
    rw [isPlain_eq_not_isControl]
    simpa using hcontrol

theorem readBasic_flatMap_printChar :
  readBasic acc (cs.flatMap printChar ++ '"' :: rest) =
    some (String.ofList (acc.reverse ++ cs), rest)
  := by
  induction cs generalizing acc with
  | nil =>
      rw [List.append_nil]
      rfl
  | cons c cs ih =>
      rw [List.flatMap_cons, List.append_assoc, readBasic_printChar, ih, List.reverse_cons,
        List.append_assoc, List.singleton_append]

theorem readBasic_plain (h : ∀ c ∈ cs, !isControl c && c ≠ '\\' && c ≠ '"') :
  readBasic acc (cs ++ '"' :: rest) = some (String.ofList (acc.reverse ++ cs), rest)
  := by
  induction cs generalizing acc with
  | nil =>
      rw [List.append_nil]
      rfl
  | cons c cs ih =>
      obtain ⟨hc, hcs⟩ := List.forall_mem_cons.mp h
      simp only [Bool.and_eq_true, decide_eq_true_eq] at hc
      rw [List.cons_append, readBasic_cons _ hc.2 hc.1.2, ih hcs, List.reverse_cons,
        List.append_assoc, List.singleton_append]
      rw [isPlain_eq_not_isControl, hc.1.1]

theorem readLiteral_plain (h : ∀ c ∈ cs, !isControl c && c ≠ '\x27') :
  readLiteral acc (cs ++ '\x27' :: rest) = some (String.ofList (acc.reverse ++ cs), rest)
  := by
  induction cs generalizing acc with
  | nil =>
      rw [List.append_nil]
      rfl
  | cons c cs ih =>
      obtain ⟨hc, hcs⟩ := List.forall_mem_cons.mp h
      simp only [Bool.and_eq_true, decide_eq_true_eq] at hc
      rw [List.cons_append, readLiteral_cons _ hc.2, ih hcs, List.reverse_cons, List.append_assoc,
        List.singleton_append]
      rw [isPlain_eq_not_isControl, hc.1]

theorem head?_flatMap_printChar_ne :
  (cs.flatMap printChar).head? ≠ some '"'
  := by
  cases cs with
  | nil => simp
  | cons c cs =>
      rw [List.flatMap_cons, printChar]
      split_ifs <;> simp_all

/-- A text is written in quotes or in apostrophes. Where its second character is one of them too,
the text is empty. -/
theorem printText_cases (text : String) :
  (∃ body, (printText text).toList = '"' :: (body ++ ['"']) ∧ body.head? ≠ some '"' ∧
    ∀ rest, readBasic [] (body ++ '"' :: rest) = some (text, rest)) ∨
  ∃ body, (printText text).toList = '\x27' :: (body ++ ['\x27']) ∧
    (body ≠ [] ∧ body.head? ≠ some '\x27') ∧
    ∀ rest, readLiteral [] (body ++ '\x27' :: rest) = some (text, rest)
  := by
  rw [printText]
  split
  case isTrue hplain =>
    rw [List.all_eq_true] at hplain
    refine .inl ⟨text.toList, by simp, ?_, fun rest => ?_⟩
    · intro hhead
      have := hplain '"' (List.mem_of_mem_head? hhead)
      simp at this
    · rw [readBasic_plain hplain]
      simp
  case isFalse hplain =>
    split
    case isTrue hliteral =>
      rw [List.all_eq_true] at hliteral
      refine .inr ⟨text.toList, by simp, ⟨?_, ?_⟩, fun rest => ?_⟩
      · intro hnil
        rw [hnil] at hplain
        apply hplain rfl
      · intro hhead
        have := hliteral '\x27' (List.mem_of_mem_head? hhead)
        simp at this
      · rw [readLiteral_plain hliteral]
        simp
    case isFalse =>
      refine .inl ⟨text.toList.flatMap printChar, by simp, head?_flatMap_printChar_ne, ?_⟩
      intro rest
      rw [readBasic_flatMap_printChar]
      simp

/-- A text is read as it was written, unless a quote follows it. -/
theorem readText_printText (hrest : rest.head? ≠ some '"') :
  readText ((printText text).toList ++ rest) = some (text, rest)
  := by
  rcases printText_cases text with ⟨body, heq, hhead, hread⟩ | ⟨body, heq, ⟨hne, hhead⟩, hread⟩
  · rw [heq, List.cons_append, List.append_assoc, List.singleton_append, ← hread]
    cases body with
    | nil =>
        cases rest with
        | nil => rfl
        | cons c rest =>
            rw [readText]
            rintro cs ⟨⟩
            apply hrest rfl
    | cons c body =>
        rw [List.cons_append, readText]
        intro cs heq
        obtain ⟨rfl, -⟩ := List.cons.inj heq
        apply hhead rfl
  · rw [heq, List.cons_append, List.append_assoc, List.singleton_append, ← hread]
    cases body with
    | nil => exact absurd rfl hne
    | cons c body =>
        rw [List.cons_append, readText]
        intro cs heq
        obtain ⟨rfl, -⟩ := List.cons.inj heq
        apply hhead rfl

/-! ### Keys -/

/-- A key is read as it was written, unless what follows could be part of it. -/
theorem readKeyPart_printKey (hrest : ∀ c ∈ rest.head?, isBareKey c = false) :
  readKeyPart ((printKey key).toList ++ rest) = some (key, rest)
  := by
  rw [printKey]
  split
  case isTrue hbare =>
    simp only [Bool.and_eq_true, decide_eq_true_eq, List.all_eq_true] at hbare
    obtain ⟨hne, hbare⟩ := hbare
    have hspan : (key.toList ++ rest).span isBareKey = (key.toList, rest) :=
      span_append hbare hrest
    have hquote : ∀ c cs, isBareKey c = false → key.toList ++ rest ≠ c :: cs := by
      intro c cs hc heq
      obtain ⟨c', cs', hkey⟩ := List.exists_cons_of_ne_nil (mt String.toList_eq_nil_iff.mp hne)
      rw [hkey] at heq hbare
      obtain ⟨rfl, -⟩ := List.cons.inj heq
      apply Bool.false_ne_true (hc.symm.trans (hbare _ List.mem_cons_self))
    rw [readKeyPart, hspan]
    · simp [hne]
    · exact fun cs => hquote '"' cs (by decide)
    · exact fun cs => hquote '\x27' cs (by decide)
  case isFalse =>
    rcases printText_cases key with ⟨body, heq, -, hread⟩ | ⟨body, heq, -, hread⟩
    · rw [heq, List.cons_append, List.append_assoc, List.singleton_append, readKeyPart, hread]
    · rw [heq, List.cons_append, List.append_assoc, List.singleton_append, readKeyPart, hread]

/-! ### Words -/

open Decimal

variable {whole fraction word : List Char} {sign : Bool}

/-- A word that is no truth value and no date is a number. -/
theorem readWord_append (hword : ∀ c ∈ word, isWordChar c)
    (hrest : ∀ c ∈ rest.head?, isWordChar c = false)
    (hbool : word ≠ ['t', 'r', 'u', 'e'] ∧ word ≠ ['f', 'a', 'l', 's', 'e'])
    (hdate : isDate word = false) (htime : isTime false word = false) :
  readWord (word ++ rest) = (number? word).map (·, rest)
  := by
  rw [readWord, span_append hword hrest]
  simp only [hdate, htime]
  rw [if_neg hbool.1, if_neg hbool.2]
  rfl

theorem readWord_bool (hrest : ∀ c ∈ rest.head?, isWordChar c = false) (b : Bool) :
  readWord ((if b then "true" else "false").toList ++ rest) = some (.bool b, rest)
  := by
  have hword : ∀ c ∈ (if b then "true" else "false").toList, isWordChar c := by
    cases b <;> exact List.all_eq_true.mp rfl
  rw [readWord, span_append hword hrest]
  cases b <;> rfl

/-! ### Numbers -/

theorem digits?_eq (h : IsDigits cs) :
  digits? Char.isDigit cs = some cs
  := by
  obtain ⟨hne, hdigits⟩ := h
  induction cs with
  | nil => exact absurd rfl hne
  | cons c cs ih =>
      obtain ⟨hc, hcs⟩ := List.forall_mem_cons.mp hdigits
      cases cs with
      | nil => simp [digits?, hc]
      | cons d cs =>
          rw [digits?, if_pos hc, ih (List.cons_ne_nil _ _) hcs]
          · rfl
          · nofun
          · intro cs' heq
            obtain ⟨rfl, -⟩ := List.cons.inj heq
            exact absurd (hcs _ List.mem_cons_self) (by decide)

theorem wholeDigits?_eq (h : IsDigits cs) (hlead : cs.length = 1 ∨ cs.head? ≠ some '0') :
  wholeDigits? cs = some cs
  := by
  rw [wholeDigits?, digits?_eq h]
  simp [hlead]

theorem ne_mark_of_isDigit (h : c.isDigit) :
  c ≠ '.' ∧ c ≠ 'e' ∧ c ≠ 'E'
  := by
  refine ⟨?_, ?_, ?_⟩ <;> rintro rfl <;> exact absurd h (by decide)

theorem unsigned?_whole (h : IsDigits whole) (hlead : whole.length = 1 ∨ whole.head? ≠ some '0') :
  unsigned? sign whole = int? (if sign then -(ofDigits 10 whole : Int) else ofDigits 10 whole)
  := by
  have hspan : whole.span (fun c => c ≠ '.' && !(c = 'e' || c = 'E')) = (whole, []) := by
    apply span_self
    intro c hc
    simpa using ne_mark_of_isDigit (h.2 c hc)
  simp only [unsigned?]
  rw [hspan]
  simp only [wholeDigits?_eq h hlead]
  rfl

theorem unsigned?_point (h : IsDigits whole) (hlead : whole.length = 1 ∨ whole.head? ≠ some '0')
    (hfraction : IsDigits fraction) :
  unsigned? sign (whole ++ '.' :: fraction) = float? sign whole fraction 0
  := by
  have hspan : (whole ++ '.' :: fraction).span (fun c => c ≠ '.' && !(c = 'e' || c = 'E')) =
      (whole, '.' :: fraction) := by
    apply span_append
    · intro c hc
      simpa using ne_mark_of_isDigit (h.2 c hc)
    · simp
  have hmarks : fraction.span (fun c => !(c = 'e' || c = 'E')) = (fraction, []) := by
    apply span_self
    intro c hc
    simpa using (ne_mark_of_isDigit (hfraction.2 c hc)).2
  simp only [unsigned?]
  rw [hspan]
  simp only [wholeDigits?_eq h hlead, hmarks, digits?_eq hfraction]
  rfl

/-- Digits and points, with a digit first. -/
structure IsNumeral (cs : List Char) : Prop where
  head : ∃ c ∈ cs.head?, c.isDigit
  all : ∀ c ∈ cs, c.isDigit ∨ c = '.'

namespace IsNumeral

theorem not_mem (h : IsNumeral cs) (hc : (c.isDigit || c = '.') = false) :
  c ∉ cs
  := by
  intro hmem
  rw [Bool.or_eq_false_iff, decide_eq_false_iff_not] at hc
  rcases h.all c hmem with hdigit | hpoint
  · rw [hdigit] at hc
    cases hc.1
  · exact hc.2 hpoint

theorem number?_eq (h : IsNumeral cs) :
  number? ((if sign then ['-'] else []) ++ cs) = unsigned? sign cs
  := by
  have hbase : 'x' ∉ cs ∧ 'o' ∉ cs ∧ 'b' ∉ cs :=
    ⟨h.not_mem (by decide), h.not_mem (by decide), h.not_mem (by decide)⟩
  have hspecial : 'n' ∉ cs := h.not_mem (by decide)
  have hsign : '+' ∉ cs ∧ '-' ∉ cs := ⟨h.not_mem (by decide), h.not_mem (by decide)⟩
  cases sign with
  | true =>
      rw [if_pos rfl, List.singleton_append, number?]
      all_goals
        rintro rfl
        simp at hspecial
  | false =>
      rw [if_neg Bool.false_ne_true, List.nil_append, number?]
      all_goals
        intros
        subst_vars
        simp at hbase hspecial hsign

theorem isDate_eq (h : IsNumeral cs) :
  isDate ((if sign then ['-'] else []) ++ cs) = false
  := by
  have hsign : '-' ∉ cs := h.not_mem (by decide)
  rw [isDate.eq_def]
  split
  case h_1 heq =>
    cases sign
    · simp_all
    · simp at heq
      simp [heq.2] at hsign
  case h_2 => rfl

theorem isTime_eq (h : IsNumeral cs) :
  isTime false ((if sign then ['-'] else []) ++ cs) = false
  := by
  have hcolon : ':' ∉ cs := h.not_mem (by decide)
  rw [isTime.eq_def]
  split
  case h_1 heq =>
    cases sign
    · simp_all
    · simp at heq
      simp [heq.2] at hcolon
  case h_2 => rfl

theorem isWordChar (h : IsNumeral cs) (hc : c ∈ (if sign then ['-'] else []) ++ cs) :
  Toml.isWordChar c
  := by
  have hall : ∀ c ∈ cs, Toml.isWordChar c := by
    intro c hc
    rcases h.all c hc with hdigit | rfl
    · simp [Toml.isWordChar, Char.isAlphanum, hdigit]
    · rfl
  rcases List.mem_append.mp hc with hc | hc
  · cases sign
    · cases hc
    · obtain rfl := List.mem_singleton.mp hc
      rfl
  · apply hall c hc

/-- A number is read up to where it ends. -/
theorem readWord_eq (h : IsNumeral cs) (hrest : ∀ c ∈ rest.head?, Toml.isWordChar c = false) :
  readWord ((if sign then ['-'] else []) ++ cs ++ rest) = (unsigned? sign cs).map (·, rest)
  := by
  have hletter : 'e' ∉ (if sign then ['-'] else []) ++ cs := by
    rw [List.mem_append, not_or]
    exact ⟨by cases sign <;> decide, h.not_mem (by decide)⟩
  have hbool : ∀ word, 'e' ∈ word → (if sign then ['-'] else []) ++ cs ≠ word := by
    rintro word hmem rfl
    apply hletter hmem
  rw [readWord_append (fun c hc => h.isWordChar hc) hrest
    ⟨hbool _ (by decide), hbool _ (by decide)⟩ h.isDate_eq h.isTime_eq, h.number?_eq]

end IsNumeral

theorem isNumeral_of_isDigits (h : IsDigits cs) :
  IsNumeral cs
  := by
  obtain ⟨hne, hdigits⟩ := h
  obtain ⟨c, cs, rfl⟩ := List.exists_cons_of_ne_nil hne
  exact ⟨⟨c, rfl, hdigits c List.mem_cons_self⟩, fun d hd => .inl (hdigits d hd)⟩

theorem isNumeral_point (hwhole : IsDigits whole) (hfraction : IsDigits fraction) :
  IsNumeral (whole ++ '.' :: fraction)
  := by
  constructor
  case head =>
    rw [List.head?_append_of_ne_nil _ hwhole.1]
    exact (isNumeral_of_isDigits hwhole).head
  case all =>
    intro c hc
    rcases List.mem_append.mp hc with hc | hc
    · exact .inl (hwhole.2 c hc)
    · rcases List.mem_cons.mp hc with rfl | hc
      · exact .inr rfl
      · exact .inl (hfraction.2 c hc)

theorem isDigits_toDigits (n : Nat) :
  IsDigits (Nat.toDigits 10 n)
  := ⟨Nat.toDigits_ne_nil, fun _ hc => Nat.isDigit_of_mem_toDigits (by decide) (by decide) hc⟩

theorem lead_toDigits (n : Nat) :
  (Nat.toDigits 10 n).length = 1 ∨ (Nat.toDigits 10 n).head? ≠ some '0'
  := by
  rcases Nat.eq_zero_or_pos n with rfl | hn
  · exact .inl rfl
  · exact .inr (head?_toDigits_ne hn)

theorem toList_toString_int (i : Int) :
  (toString i).toList = (if i < 0 then ['-'] else []) ++ Nat.toDigits 10 i.natAbs
  := by
  cases i with
  | ofNat n =>
      have hnot : ¬ Int.ofNat n < 0 := Int.not_lt.mpr (Int.natCast_nonneg n)
      rw [if_neg hnot]
      exact Nat.toList_repr
  | negSucc n =>
      rw [if_pos (by omega)]
      show ("-" ++ (n + 1).repr).toList = _
      rw [String.toList_append, Nat.toList_repr]
      rfl

/-- A whole number is read as it was written. -/
theorem readWord_int {i : Int} (hi : Int64.minValue.toInt ≤ i ∧ i ≤ Int64.maxValue.toInt)
    (hrest : ∀ c ∈ rest.head?, isWordChar c = false) :
  readWord ((toString i).toList ++ rest) = some (.int i, rest)
  := by
  have hdigits := isDigits_toDigits i.natAbs
  have hread : readWord
      ((if decide (i < 0) then ['-'] else []) ++ Nat.toDigits 10 i.natAbs ++ rest) =
      (unsigned? (i < 0) (Nat.toDigits 10 i.natAbs)).map (·, rest) :=
    (isNumeral_of_isDigits hdigits).readWord_eq hrest
  have hvalue : (if i < 0 then -(i.natAbs : Int) else i.natAbs) = i := by
    split <;> omega
  rw [unsigned?_whole hdigits (lead_toDigits _), ofDigits_toDigits] at hread
  simp only [decide_eq_true_eq] at hread
  rw [toList_toString_int, hread, hvalue, int?, if_pos hi]
  rfl

variable {x : Binary .double}

theorem float?_of_finite {units : Nat} (hx : x.read = .finite sign units)
    (h : .ofDecimal sign ⟨ofDigits 10 (whole ++ fraction), 0 - fraction.length⟩ = x) :
  float? sign whole fraction 0 = some (.float x)
  := by
  have hfinite : x ≠ .infinite false := by
    rintro rfl
    rw [Binary.read_infinite] at hx
    cases hx
  simp only [float?]
  rw [h, if_neg hfinite]

/-- Digits that denote a decimal near to a number are read as the number. -/
theorem float?_of_denotes {units : Nat} {d : Decimal} (hx : x.read = .finite sign units)
    (hunits : units ≠ 0) (hd : (x.interval units).Holds d.numerator d.denominator)
    (h : Denotes whole fraction d) :
  float? sign whole fraction 0 = some (.float x)
  := by
  apply float?_of_finite hx
  apply Binary.ofDecimal_of_holds (by decide) (by decide) hx hunits
  apply hd.congr d.denominator_pos (Decimal.denominator_pos _)
  have hdenominator : (-(0 - (fraction.length : Int))).toNat = fraction.length := by omega
  have hnumerator : (0 - (fraction.length : Int)).toNat = 0 := by omega
  simp only [Decimal.numerator, Decimal.denominator, hdenominator, hnumerator, pow_zero,
    Nat.mul_one]
  exact h.value.symm

/-- The fewest digits of a finite number are read as the number. -/
theorem readWord_finite {units : Nat} (hx : x.read = .finite sign units)
    (hrest : ∀ c ∈ rest.head?, isWordChar c = false) :
  readWord ((if sign then ['-'] else []) ++ (if units = 0 then "0.0" else
    ((x.interval units).shortest .larger).print).toList ++ rest) = some (.float x, rest)
  := by
  by_cases hunits : units = 0
  · subst hunits
    have hzero : float? sign ['0'] ['0'] 0 = some (.float x) :=
      float?_of_finite hx (Binary.eq_zero_of_read hx).symm
    have htext : "0.0".toList = ['0'] ++ '.' :: ['0'] := rfl
    rw [if_pos rfl, htext, (isNumeral_point isDigits_zero isDigits_zero).readWord_eq hrest,
      unsigned?_point isDigits_zero (.inl rfl) isDigits_zero, hzero]
    rfl
  · have hholds : (x.interval units).Holds ((x.interval units).shortest .larger).numerator
        ((x.interval units).shortest .larger).denominator :=
      Binary.holds_shortest (by decide) hx hunits
    obtain ⟨whole, fraction, hprint, hdenotes⟩ :=
      Decimal.exists_print (Binary.digits_ne_zero hx hunits hholds)
    have hnumeral := isNumeral_point hdenotes.isDigits_whole hdenotes.isDigits_fraction
    rw [if_neg hunits, hprint, hnumeral.readWord_eq hrest,
      unsigned?_point hdenotes.isDigits_whole hdenotes.lead hdenotes.isDigits_fraction,
      float?_of_denotes hx hunits hholds hdenotes]
    rfl

/-- A floating point number is read as it was written. -/
theorem readWord_printFloat (hx : x.Settled) (hrest : ∀ c ∈ rest.head?, isWordChar c = false) :
  readWord ((printFloat x).toList ++ rest) = some (.float x, rest)
  := by
  rw [printFloat]
  cases hread : x.read with
  | nan =>
      obtain rfl := hx hread
      exact readWord_append (List.all_eq_true.mp rfl) hrest (by decide) (by decide) (by decide)
  | infinite sign =>
      obtain rfl := Binary.eq_infinite_of_read hread
      cases sign
      · exact readWord_append (List.all_eq_true.mp rfl) hrest (by decide) (by decide) (by decide)
      · exact readWord_append (List.all_eq_true.mp rfl) hrest (by decide) (by decide) (by decide)
  | finite sign units =>
      have hsign : ∀ digits : String, (if sign then "-" ++ digits else digits).toList =
          (if sign then ['-'] else []) ++ digits.toList := by
        intro digits
        cases sign <;> simp
      simp only [hsign]
      apply readWord_finite hread hrest

end AudioPatch.Toml
