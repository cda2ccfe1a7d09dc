import AudioPatch.Code.Printer
import AudioPatch.Proofs.Code
import Mathlib.Data.List.Chain
import Mathlib.Logic.Relation

/-!
# Code and its tokens

Code stands for a stream of tokens: the characters of its texts with the declarations between
them, where the value or the body that a declaration holds is a stream of tokens in turn. Code that
is built by the operations on code never has an empty text or a text after another one, at any
depth, and so two pieces of such code are equal exactly if they stand for the same stream. How they
were put together does not matter.
-/

namespace AudioPatch

/-! ### Code in code -/

/-- Code stands in an element as the value of a variable or the body of a function. -/
inductive Element.Holds : Element → Code → Prop where
  | value (mutable : Bool) (declared : Variable) (code : Code) :
      Holds (.binding mutable declared (some code)) code
  | body (name : String) (args : List Variable) (returns : ValueType) (code : Code) :
      Holds (.function name args returns code) code

/-- Whether an element is a text. -/
def Element.isText : Element → Bool
  | .text _ => true
  | _ => false

namespace Code

/-- Code stands in an element of other code. -/
def Holds (code part : Code) : Prop := ∃ e ∈ code, e.Holds part

/-- Induction over the elements of code and over the code that they hold. -/
theorem induction {motive : Code → Prop} (nil : motive [])
    (cons : ∀ (e : Element) (rest : Code), (∀ part, e.Holds part → motive part) → motive rest →
      motive (e :: rest))
    (code : Code) :
  motive code
  := by
  apply @Element.rec_2 (fun e => ∀ part, e.Holds part → motive part)
    (fun value => ∀ part, value = some part → motive part) motive
  case text => nofun
  case binding =>
    rintro mutable declared _ ih part ⟨⟩
    apply ih part rfl
  case function =>
    rintro name args returns body ih part ⟨⟩
    apply ih
  case nil => apply nil
  case cons => apply cons
  case none => nofun
  case some =>
    rintro code ih part ⟨⟩
    apply ih

end Code

/-! ### Tokens -/

/-- A character of a text, or a declaration with the tokens of the code that it holds. -/
inductive Token where
  | char (c : Char)
  | binding (mutable : Bool) (declared : Variable) (value : Option (List Token))
  | function (name : String) (args : List Variable) (returns : ValueType) (body : List Token)

/-- Whether a token is a character. -/
def Token.isChar : Token → Bool
  | .char _ => true
  | _ => false

mutual

/-- The tokens of an element. -/
def Element.tokens : Element → List Token
  | .text s => s.toList.map .char
  | .binding mutable declared value => [.binding mutable declared (Element.valueTokens value)]
  | .function name args returns body => [.function name args returns (Element.allTokens body)]

/-- The tokens of the value of a variable, which may be absent. -/
def Element.valueTokens : Option (List Element) → Option (List Token)
  | none => none
  | some value => some (Element.allTokens value)

/-- The tokens of elements, one after the other. -/
def Element.allTokens : List Element → List Token
  | [] => []
  | e :: rest => e.tokens ++ Element.allTokens rest

end

/-- The stream of tokens that code stands for. -/
def Code.tokens (code : Code) : List Token := Element.allTokens code

namespace Code

variable {a b c code rest : Code} {e e' : Element}

/-- An element that is added changes nothing, or is a text that goes on with the last one, or comes
after all others. -/
theorem push_cases (code : Code) (e : Element) :
  (e = .text "" ∧ code.push e = code) ∨
  (∃ before s t, e = .text s ∧ s ≠ "" ∧ code = before ++ [.text t] ∧
    code.push e = before ++ [.text (t ++ s)]) ∨
  (e ≠ .text "" ∧ (∀ last ∈ code.getLast?, ¬ (last.isText ∧ e.isText)) ∧
    code.push e = code ++ [e])
  := by
  cases e with
  | text s =>
      by_cases hs : s = ""
      · left
        refine ⟨congrArg Element.text hs, ?_⟩
        rw [push, if_pos hs]
      · right
        by_cases hlast : ∃ t, code.getLast? = some (.text t)
        · left
          obtain ⟨t, ht⟩ := hlast
          obtain ⟨before, rfl⟩ := List.getLast?_eq_some_iff.mp ht
          exact ⟨before, s, t, rfl, hs, rfl, push_append_text hs⟩
        · right
          rw [not_exists] at hlast
          refine ⟨by simpa using hs, ?_, push_text_of_ne hs hlast⟩
          rintro (_ | _ | _) hmem
          · exact absurd hmem (hlast _)
          · simp [Element.isText]
          · simp [Element.isText]
  | binding => exact .inr (.inr ⟨by simp, by simp [Element.isText], rfl⟩)
  | function => exact .inr (.inr ⟨by simp, by simp [Element.isText], rfl⟩)

/-! ### Reading code from end to end -/

section Reading

variable {α : Type} {read : Element → List α} (hempty : read (.text "") = [])
  (htext : ∀ s t, read (.text (s ++ t)) = read (.text s) ++ read (.text t))

include hempty htext

/-- A reading that does not see where a text is cut does not see that texts are joined. -/
theorem flatMap_push (code : Code) (e : Element) :
  (code.push e).flatMap read = code.flatMap read ++ read e
  := by
  obtain ⟨rfl, hpush⟩ | ⟨before, s, t, rfl, -, rfl, hpush⟩ | ⟨-, -, hpush⟩ := push_cases code e
  · rw [hpush, hempty, List.append_nil]
  · rw [hpush]
    simp [htext]
  · rw [hpush]
    simp

theorem flatMap_append (a b : Code) :
  (a.append b).flatMap read = a.flatMap read ++ b.flatMap read
  := by
  induction b generalizing a with
  | nil => simp [append]
  | cons e rest ih =>
      show ((a.push e).append rest).flatMap read = _
      rw [ih, flatMap_push hempty htext, List.flatMap_cons, List.append_assoc]

end Reading

theorem tokens_eq_flatMap (code : Code) :
  code.tokens = code.flatMap Element.tokens
  := by
  induction code with
  | nil => rfl
  | cons e rest ih =>
      rw [List.flatMap_cons, ← ih]
      rfl

theorem toList_print (code : Code) :
  code.print.toList = code.flatMap fun e => e.print.toList
  := by
  induction code with
  | nil => rfl
  | cons e rest ih =>
      rw [List.flatMap_cons, ← ih, ← String.toList_append]
      rfl

/-- Code after code stands for the one stream after the other. -/
theorem tokens_append (a b : Code) :
  (a.append b).tokens = a.tokens ++ b.tokens
  := by
  simp only [tokens_eq_flatMap]
  apply flatMap_append
  · rfl
  · simp [Element.tokens]

/-- Code after code is printed as the one text after the other. -/
theorem print_append (a b : Code) :
  (a.append b).print = a.print ++ b.print
  := by
  apply String.toList_injective
  rw [String.toList_append, toList_print, toList_print, toList_print]
  apply flatMap_append
  · rfl
  · simp [Element.print]

theorem tokens_ofText (s : String) :
  (ofText s).tokens = s.toList.map .char
  := by
  rw [tokens_eq_flatMap, ofText, pushText, flatMap_push rfl]
  · rfl
  · simp [Element.tokens]

theorem print_ofText (s : String) :
  (ofText s).print = s
  := by
  apply String.toList_injective
  rw [toList_print, ofText, pushText, flatMap_push rfl]
  · rfl
  · simp [Element.print]

/-- Many pieces stand for one stream after the other. -/
theorem tokens_concat (pieces : List Code) :
  (concat pieces).tokens = pieces.flatMap tokens
  := by
  induction pieces using List.reverseRecOn with
  | nil => rfl
  | append_singleton pieces piece ih =>
      rw [concat_append_singleton, tokens_append, ih]
      simp

/-- Many pieces are printed as one text after the other. -/
theorem print_concat (pieces : List Code) :
  (concat pieces).print = String.join (pieces.map print)
  := by
  induction pieces using List.reverseRecOn with
  | nil => rfl
  | append_singleton pieces piece ih =>
      rw [concat_append_singleton, print_append, ih]
      simp

/-! ### Canonical code -/

/-- The texts are merged: none is empty, and none comes right after another one. -/
structure Merged (code : Code) : Prop where
  nonempty : .text "" ∉ code
  apart : code.IsChain fun e e' => ¬ (e.isText ∧ e'.isText)

/-- The texts are merged in the code and in all that it holds, at any depth. -/
def Canonical (code : Code) : Prop :=
  ∀ part, Relation.ReflTransGen Holds code part → part.Merged

theorem canonical_iff :
  code.Canonical ↔ code.Merged ∧ ∀ part, code.Holds part → part.Canonical
  := by
  constructor
  · intro h
    refine ⟨h code .refl, ?_⟩
    intro part hpart part' hpart'
    apply h part' (.head hpart hpart')
  · rintro ⟨hmerged, hparts⟩ part hpart
    rcases Relation.ReflTransGen.cases_head hpart with rfl | ⟨part', hpart', hrest⟩
    · apply hmerged
    · apply hparts part' hpart' part hrest

theorem canonical_nil :
  Canonical []
  := by
  rw [canonical_iff]
  refine ⟨⟨List.not_mem_nil, .nil⟩, ?_⟩
  rintro part ⟨e, he, -⟩
  cases he

theorem holds_push_iff {part : Code} :
  (code.push e).Holds part ↔ code.Holds part ∨ e.Holds part
  := by
  have htext : ∀ s, ¬ (Element.text s).Holds part := nofun
  obtain ⟨rfl, hpush⟩ | ⟨before, s, t, rfl, -, rfl, hpush⟩ | ⟨-, -, hpush⟩ := push_cases code e
  · rw [hpush, or_iff_left (htext "")]
  · rw [hpush]
    simp [Holds, htext, or_and_right, exists_or]
  · rw [hpush]
    simp [Holds, or_and_right, exists_or]

theorem Merged.concat (h : code.Merged) (hempty : e ≠ .text "")
    (hlast : ∀ last ∈ code.getLast?, ¬ (last.isText ∧ e.isText)) :
  Merged (code ++ [e])
  := by
  constructor
  · simpa using ⟨h.nonempty, hempty.symm⟩
  · rw [List.isChain_append]
    refine ⟨h.apart, .singleton e, ?_⟩
    rintro last hmem _ ⟨⟩
    apply hlast last hmem

theorem Merged.push (h : code.Merged) (e : Element) :
  (code.push e).Merged
  := by
  obtain ⟨-, hpush⟩ | ⟨before, s, t, -, hs, rfl, hpush⟩ | ⟨hempty, hlast, hpush⟩ :=
    push_cases code e
  · rwa [hpush]
  · rw [hpush]
    obtain ⟨hbefore, -, hmeet⟩ := List.isChain_append.mp h.apart
    apply Merged.concat ⟨fun hmem => h.nonempty (List.mem_append_left _ hmem), hbefore⟩
    · simp [hs]
    · intro last hmem
      apply hmeet last hmem (.text t) rfl
  · rw [hpush]
    apply h.concat hempty hlast

theorem Canonical.push (h : code.Canonical) (he : ∀ part, e.Holds part → part.Canonical) :
  (code.push e).Canonical
  := by
  rw [canonical_iff] at h ⊢
  refine ⟨h.1.push e, ?_⟩
  intro part hpart
  rcases holds_push_iff.mp hpart with hpart | hpart
  · apply h.2 part hpart
  · apply he part hpart

theorem Canonical.append (ha : a.Canonical) (hb : ∀ part, b.Holds part → part.Canonical) :
  (a.append b).Canonical
  := by
  induction b generalizing a with
  | nil => apply ha
  | cons e rest ih =>
      apply ih (ha.push fun part hpart => hb part ⟨e, List.mem_cons_self, hpart⟩)
      rintro part ⟨e', he', hpart⟩
      apply hb part ⟨e', List.mem_cons_of_mem e he', hpart⟩

theorem canonical_concat {pieces : List Code} (h : ∀ piece ∈ pieces, piece.Canonical) :
  (concat pieces).Canonical
  := by
  induction pieces using List.reverseRecOn with
  | nil => apply canonical_nil
  | append_singleton pieces piece ih =>
      rw [concat_append_singleton]
      apply Canonical.append
      · apply ih fun piece' hpiece => h piece' (List.mem_append_left _ hpiece)
      · apply (canonical_iff.mp (h piece (by simp))).2

/-! ### Built code -/

/-- Code that the operations on code build, from nothing or from a text or a function, where all
code that is put into declarations is built in turn. -/
inductive Built : Code → Prop where
  | empty : Built .empty
  | ofText (s : String) : Built (.ofText s)
  | push {code : Code} (h : Built code) {e : Element} (he : ∀ part, e.Holds part → Built part) :
      Built (code.push e)
  | append {a b : Code} (ha : Built a) (hb : Built b) : Built (a.append b)
  | pushConstant {code value : Code} (h : Built code) (name : String) (type : ValueType)
      (hvalue : Built value) :
      Built (code.pushConstant name type value)
  | pushVariable {code : Code} {value : Option Code} (h : Built code) (name : String)
      (type : ValueType) (hvalue : ∀ v, value = some v → Built v) :
      Built (code.pushVariable name type value)
  | ofFunction {f : Function} (h : Built f.body) : Built f.code
  | concat {pieces : List Code} (h : ∀ piece ∈ pieces, Built piece) : Built (concat pieces)

theorem Built.pushText (h : code.Built) (s : String) :
  (code.pushText s).Built
  := by
  apply h.push
  nofun

theorem Built.canonical (h : code.Built) :
  code.Canonical
  := by
  induction h with
  | empty => apply canonical_nil
  | ofText s =>
      show (Code.push [] (.text s)).Canonical
      apply canonical_nil.push
      nofun
  | push _ _ ih ihparts => apply ih.push ihparts
  | append _ _ iha ihb => apply iha.append (canonical_iff.mp ihb).2
  | pushConstant _ name type _ ih ihvalue =>
      apply ih.push
      rintro _ ⟨⟩
      apply ihvalue
  | pushVariable _ name type _ ih ihvalue =>
      apply ih.push
      rintro _ ⟨⟩
      apply ihvalue _ rfl
  | @ofFunction f _ ih =>
      apply canonical_nil.push (e := f.element)
      rintro _ ⟨⟩
      apply ih
  | concat _ ih => apply canonical_concat ih

/-! ### Equal streams -/

theorem tokens_cons (e : Element) (rest : Code) :
  tokens (e :: rest) = e.tokens ++ rest.tokens
  := rfl

/-- A declaration is one token, and no character. -/
theorem exists_tokens_eq (h : ¬ e.isText) :
  ∃ token, e.tokens = [token] ∧ ¬ token.isChar
  := by
  cases e with
  | text s => exact absurd rfl h
  | binding => exact ⟨_, rfl, Bool.false_ne_true⟩
  | function => exact ⟨_, rfl, Bool.false_ne_true⟩

theorem isChar_of_mem_tokens (h : e.isText) :
  ∀ token ∈ e.tokens, token.isChar
  := by
  cases e with
  | text s => simp [Element.tokens, Token.isChar]
  | binding => cases h
  | function => cases h

theorem Merged.head_tokens_ne_nil (h : Merged (e :: rest)) :
  e.tokens ≠ []
  := by
  cases e with
  | text s =>
      have hs : s ≠ "" := by
        rintro rfl
        apply h.nonempty List.mem_cons_self
      simpa [Element.tokens] using hs
  | binding => apply List.cons_ne_nil
  | function => apply List.cons_ne_nil

theorem leading_of_not_isText (h : ¬ e.isText) :
  (tokens (e :: rest)).takeWhile Token.isChar = []
  := by
  obtain ⟨token, htokens, hchar⟩ := exists_tokens_eq h
  rw [tokens_cons, htokens]
  apply List.takeWhile_cons_of_neg hchar

/-- The characters that a stream starts with are those of the text that the code starts with. -/
theorem Merged.leading_eq (h : Merged (e :: rest)) (he : e.isText) :
  (tokens (e :: rest)).takeWhile Token.isChar = e.tokens
  := by
  have hrest : rest.tokens.takeWhile Token.isChar = [] := by
    cases rest with
    | nil => rfl
    | cons e' rest' =>
        apply leading_of_not_isText
        intro he'
        apply (List.isChain_cons_cons.mp h.apart).1 ⟨he, he'⟩
  rw [tokens_cons, List.takeWhile_append_of_pos (isChar_of_mem_tokens he), hrest, List.append_nil]

/-- Code starts with a text if its stream starts with a character. -/
theorem Merged.isText_iff (h : Merged (e :: rest)) :
  e.isText ↔ (tokens (e :: rest)).takeWhile Token.isChar ≠ []
  := by
  by_cases he : e.isText
  · rw [h.leading_eq he]
    simp [he, h.head_tokens_ne_nil]
  · rw [leading_of_not_isText he]
    simp [he]

/-- Code that stands for one stream starts with elements that do. -/
theorem Merged.head_tokens_eq {rest' : Code} (h : Merged (e :: rest)) (h' : Merged (e' :: rest'))
    (htokens : tokens (e :: rest) = tokens (e' :: rest')) :
  (e.isText ↔ e'.isText) ∧ e.tokens = e'.tokens
  := by
  have htext : e.isText ↔ e'.isText := by rw [h.isText_iff, h'.isText_iff, htokens]
  refine ⟨htext, ?_⟩
  by_cases he : e.isText
  · rw [← h.leading_eq he, htokens, h'.leading_eq (htext.mp he)]
  · obtain ⟨token, heq, -⟩ := exists_tokens_eq he
    obtain ⟨token', heq', -⟩ := exists_tokens_eq (mt htext.mpr he)
    rw [tokens_cons, tokens_cons, heq, heq'] at htokens
    rw [heq, heq', (List.cons.inj htokens).1]

/-- An element is known by its tokens if what it holds is. -/
theorem element_eq_of_tokens_eq (htext : e.isText ↔ e'.isText) (h : e.tokens = e'.tokens)
    (hparts : ∀ part, e.Holds part → ∀ part', e'.Holds part' → part.tokens = part'.tokens →
      part = part') :
  e = e'
  := by
  cases e with
  | text s =>
      cases e' with
      | text t =>
          have hchars := List.map_injective_iff.mpr (fun _ _ => Token.char.inj) h
          rw [String.toList_injective hchars]
      | binding => simp [Element.isText] at htext
      | function => simp [Element.isText] at htext
  | binding mutable declared value =>
      cases e' with
      | text => simp [Element.isText] at htext
      | binding mutable' declared' value' =>
          obtain ⟨rfl, rfl, hvalue⟩ := Token.binding.inj (List.singleton_inj.mp h)
          cases value with
          | none =>
              cases value' with
              | none => rfl
              | some part' => cases hvalue
          | some part =>
              cases value' with
              | none => cases hvalue
              | some part' =>
                  rw [hparts part (.value ..) part' (.value ..) (Option.some.inj hvalue)]
      | function => cases List.singleton_inj.mp h
  | function name args returns part =>
      cases e' with
      | text => simp [Element.isText] at htext
      | binding => cases List.singleton_inj.mp h
      | function name' args' returns' part' =>
          obtain ⟨rfl, rfl, rfl, hbody⟩ := Token.function.inj (List.singleton_inj.mp h)
          rw [hparts part (.body ..) part' (.body ..) hbody]

theorem Canonical.tail (h : Canonical (e :: rest)) :
  rest.Canonical
  := by
  rw [canonical_iff] at h ⊢
  refine ⟨⟨fun hmem => h.1.nonempty (List.mem_cons_of_mem e hmem), h.1.apart.tail⟩, ?_⟩
  rintro part ⟨e', he', hpart⟩
  apply h.2 part ⟨e', List.mem_cons_of_mem e he', hpart⟩

theorem Canonical.eq_nil (h : code.Canonical) (htokens : code.tokens = []) :
  code = []
  := by
  cases code with
  | nil => rfl
  | cons e rest =>
      rw [tokens_cons, List.append_eq_nil_iff] at htokens
      exact absurd htokens.1 (canonical_iff.mp h).1.head_tokens_ne_nil

/-- Canonical code is known by its tokens. -/
theorem Canonical.eq_of_tokens_eq (ha : a.Canonical) (hb : b.Canonical)
    (h : a.tokens = b.tokens) :
  a = b
  := by
  induction a using Code.induction generalizing b with
  | nil => rw [hb.eq_nil h.symm]
  | cons e rest ihparts ih =>
      cases b with
      | nil => apply ha.eq_nil h
      | cons e' rest' =>
          obtain ⟨hmerged, hheld⟩ := canonical_iff.mp ha
          obtain ⟨hmerged', hheld'⟩ := canonical_iff.mp hb
          obtain ⟨htext, htokens⟩ := hmerged.head_tokens_eq hmerged' h
          rw [tokens_cons, tokens_cons, htokens] at h
          rw [ih ha.tail hb.tail (List.append_cancel_left h)]
          congr 1
          apply element_eq_of_tokens_eq htext htokens
          intro part hpart part' hpart'
          apply ihparts part hpart
          · apply hheld part ⟨e, List.mem_cons_self, hpart⟩
          · apply hheld' part' ⟨e', List.mem_cons_self, hpart'⟩

/-! ### A gain, written in parts and at once -/

namespace Gain

/-- A function that answers the gain, with a body of two texts. -/
def inParts : Code :=
  (((ofText "y = ").pushText "x * ").pushText "").append
    (concat
      [ofText "gain\n", Function.code ⟨"level", [], .float, (ofText "return ").pushText "gain"⟩])

def atOnce : Code :=
  (ofText "y = x * gain\n").push (.function "level" [] .float (ofText "return gain"))

theorem built_inParts :
  inParts.Built
  := by
  have htexts : (((ofText "y = ").pushText "x * ").pushText "").Built :=
    ((Built.ofText _).pushText _).pushText _
  have hbody : ((ofText "return ").pushText "gain").Built := (Built.ofText _).pushText _
  apply htexts.append
  apply Built.concat
  rw [List.forall_mem_cons, List.forall_mem_singleton]
  exact ⟨.ofText _, .ofFunction hbody⟩

theorem built_atOnce :
  atOnce.Built
  := by
  apply (Built.ofText _).push
  rintro _ ⟨⟩
  apply Built.ofText

theorem tokens_eq :
  inParts.tokens = atOnce.tokens
  := rfl

end Gain

/-- Code that is built is known by its tokens, and has its texts merged at every depth. To append
code is to append its stream of tokens, and the text that is printed; so it is associative, and
empty code changes nothing. To put pieces together is to do so with their streams and texts. -/
theorem built_canonical_form (ha : a.Built) (hb : b.Built) (c : Code) :
  (a = b ↔ a.tokens = b.tokens) ∧
  (∀ part, Relation.ReflTransGen Holds a part → part.Merged) ∧
  (a.append b).tokens = a.tokens ++ b.tokens ∧
  (a.append b).append c = a.append (b.append c) ∧
  a.append empty = a ∧ empty.append a = a ∧
  (a.append b).print = a.print ++ b.print ∧
  ∀ pieces, (concat pieces).tokens = pieces.flatMap tokens ∧
    (concat pieces).print = String.join (pieces.map print)
  := by
  have hempty : (empty.append a).Built := Built.empty.append ha
  refine ⟨⟨congrArg tokens, ha.canonical.eq_of_tokens_eq hb.canonical⟩, ha.canonical,
    tokens_append a b, append_assoc a b c, rfl, ?_, print_append a b,
    fun pieces => ⟨tokens_concat pieces, print_concat pieces⟩⟩
  apply hempty.canonical.eq_of_tokens_eq ha.canonical
  apply tokens_append

/-- The body of the function is one text in both, since the streams are equal. -/
theorem built_canonical_form_gain :
  Gain.inParts.Built ∧ Gain.atOnce.Built ∧ Gain.inParts = Gain.atOnce ∧
    (∀ part, Relation.ReflTransGen Holds Gain.inParts part → part.Merged) ∧
    (Gain.inParts.append Gain.atOnce).print = Gain.inParts.print ++ Gain.atOnce.print
  := by
  obtain ⟨hequal, hmerged, -, -, -, -, hprint, -⟩ :=
    built_canonical_form Gain.built_inParts Gain.built_atOnce empty
  exact ⟨Gain.built_inParts, Gain.built_atOnce, hequal.mpr Gain.tokens_eq, hmerged, hprint⟩

end Code

end AudioPatch
