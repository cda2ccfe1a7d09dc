import AudioPatch.Compile.GlobalCode
import AudioPatch.Proofs.Compile.Assembly
import AudioPatch.Proofs.Repetition
import AudioPatch.Proofs.Symbol.GlobalCode

/-!
# Global code that is generated again

A generator asks for symbols and goes on with the answers. The answers do not depend on what was
asked before, so a generator comes to the same code whenever it is run (`Script.run_fst`), and when
it is run again it changes no names (`Script.Settled.run_snd`). Hence definitions that are listed
more than once might as well be listed once.
-/

namespace AudioPatch

/-! ### Definitions that share others -/

namespace Toolkit

def core : Definition where
  space := "core"
  generate _ := do
    let clamp ← Script.ask "core" "clamp"
    return [.text s!"const {clamp} = (x) => x < 0 ? 0 : x\n"]

def buffer : Definition where
  space := "buf"
  generate _ := do
    let write ← Script.ask "buf" "write"
    let clamp ← Script.ask "core" "clamp"
    return [.text s!"const {write} = (b, x) => b.push({clamp}(x))\n"]
  dependencies := [core]
  imports := [⟨"flush", [], .void⟩]
  exports := [⟨"write", none⟩]

def player : Definition where
  space := "player"
  generate _ := do
    let write ← Script.ask "buf" "write"
    return [.text s!"const play = (b) => {write}(b, 1)\n"]
  dependencies := [core, buffer]

end Toolkit

/-! ### Running a script again -/

namespace Script

variable {α : Type} {names : Names}

/-- What a script comes to, whatever was asked before it. -/
def value : Script α → Except CompileError α
  | .done a => .ok a
  | .fail e => .error e
  | .symbol space key next => (next (Names.globalAnswer space key)).value

/-- All that a script asks for has been asked for. -/
def Settled (names : Names) : Script α → Prop
  | .done _ => True
  | .fail _ => True
  | .symbol space key next =>
      names.Asked space key ∧ (next (Names.globalAnswer space key)).Settled names

theorem run_symbol (h : names.Regular) (space key : String)
    (next : Except SymbolError String → Script α) :
  (Script.symbol space key next).run names =
    (next (Names.globalAnswer space key)).run (names.globalSymbol space key).2
  := by
  rw [run, ← h.fst_globalSymbol]

theorem regular_run (h : names.Regular) (script : Script α) :
  (script.run names).2.Regular
  := by
  induction script generalizing names with
  | done a => apply h
  | fail e => apply h
  | symbol space key next ih => apply ih _ (h.globalSymbol space key)

/-- A script comes to its value from all regular names. -/
theorem run_fst (h : names.Regular) (script : Script α) :
  (script.run names).1 = script.value
  := by
  induction script generalizing names with
  | done a => rfl
  | fail e => rfl
  | symbol space key next ih =>
      rw [run_symbol h, value]
      apply ih _ (h.globalSymbol space key)

/-- What has been asked for before a script has been asked for after it. -/
theorem asked_run {space key : String} (h : names.Asked space key) (script : Script α) :
  (script.run names).2.Asked space key
  := by
  induction script generalizing names with
  | done a => apply h
  | fail e => apply h
  | symbol space' key' next ih => apply ih _ (h.globalSymbol space' key')

/-- A script has asked for all that it asks for. -/
theorem settled_run (h : names.Regular) (script : Script α) :
  script.Settled (script.run names).2
  := by
  induction script generalizing names with
  | done a => trivial
  | fail e => trivial
  | symbol space key next ih =>
      rw [run_symbol h]
      constructor
      · apply asked_run (names.asked_globalSymbol space key)
      · apply ih _ (h.globalSymbol space key)

namespace Settled

variable {β : Type} {script : Script α}

theorem run (h : script.Settled names) (other : Script β) :
  script.Settled (other.run names).2
  := by
  induction script with
  | done a => trivial
  | fail e => trivial
  | symbol space key next ih => exact ⟨asked_run h.1 other, ih _ h.2⟩

/-- A script that is run again changes no names. -/
theorem run_snd (hnames : names.Regular) (h : script.Settled names) :
  (script.run names).2 = names
  := by
  induction script with
  | done a => rfl
  | fail e => rfl
  | symbol space key next ih =>
      rw [run_symbol hnames, h.1.snd_globalSymbol]
      apply ih _ h.2

end Settled

end Script

/-! ### Leaving out repetitions -/

/-- A list with later occurrences of its elements left out, some of them or all. -/
inductive Thins {α : Type} : List α → List α → Prop where
  | nil : Thins [] []
  | keep {l l' : List α} (h : Thins l l') (a : α) : Thins (l ++ [a]) (l' ++ [a])
  | drop {l l' : List α} (h : Thins l l') {a : α} (ha : a ∈ l) : Thins (l ++ [a]) l'

theorem thins_eraseDups {α : Type} [BEq α] [LawfulBEq α] (l : List α) :
  Thins l l.eraseDups
  := by
  induction l using List.reverseRecOn with
  | nil => exact .nil
  | append_singleton l a ih =>
      rw [eraseDups_append_singleton]
      by_cases ha : l.contains a
      · rw [if_pos ha]
        apply ih.drop (List.contains_iff_mem.mp ha)
      · rw [if_neg ha]
        apply ih.keep

section Names

variable {α β : Type} (name : β → String)

/-- Elements whose names have all come up add nothing. -/
theorem foldl_firstWithName_of_mem {kept more : List β}
    (h : ∀ b ∈ more, ∃ a ∈ kept, name a = name b) :
  more.foldl (fun kept a => if kept.any (name · = name a) then kept else kept ++ [a]) kept = kept
  := by
  induction more with
  | nil => rfl
  | cons b rest ih =>
      obtain ⟨hb, hrest⟩ := List.forall_mem_cons.mp h
      rw [List.foldl_cons, if_pos (by simpa using hb)]
      apply ih hrest

theorem firstWithName_append (l more : List β) :
  firstWithName name (l ++ more) =
    more.foldl (fun kept a => if kept.any (name · = name a) then kept else kept ++ [a])
      (firstWithName name l)
  := by
  rw [firstWithName, List.foldl_append]
  rfl

/-- Every element has the name of one that is kept. -/
theorem exists_firstWithName {l : List β} {b : β} (hb : b ∈ l) :
  ∃ a ∈ firstWithName name l, name a = name b
  := by
  induction l using List.reverseRecOn with
  | nil => cases hb
  | append_singleton l c ih =>
      rw [firstWithName_append, List.foldl_cons, List.foldl_nil]
      by_cases hc : (firstWithName name l).any (name · = name c)
      · rw [if_pos hc]
        rcases List.mem_append.mp hb with hb | hb
        · apply ih hb
        · obtain rfl := List.mem_singleton.mp hb
          simpa using hc
      · rw [if_neg hc]
        rcases List.mem_append.mp hb with hb | hb
        · obtain ⟨a, ha, hname⟩ := ih hb
          exact ⟨a, List.mem_append_left _ ha, hname⟩
        · obtain rfl := List.mem_singleton.mp hb
          exact ⟨b, by simp, rfl⟩

/-- What repetitions bring has the names of what has come before. -/
theorem Thins.firstWithName_eq {l l' : List α} (h : Thins l l') (f : α → List β) :
  firstWithName name (l'.flatMap f) = firstWithName name (l.flatMap f)
  := by
  induction h with
  | nil => rfl
  | keep _ a ih =>
      rw [List.flatMap_append, List.flatMap_append, firstWithName_append, ih,
        firstWithName_append]
  | drop _ ha ih =>
      rw [ih, List.flatMap_append, firstWithName_append, foldl_firstWithName_of_mem]
      intro b hb
      apply exists_firstWithName
      rw [List.flatMap_singleton] at hb
      apply List.mem_flatMap_of_mem ha hb

end Names

namespace Definition

variable {context : CodeContext} {names names' : Names} {kept : List Code} {d : Definition}
  {l l' : List Definition}

/-! ### One definition after another -/

/-- After a definition that fails nothing is generated. -/
theorem fragments_append_of_error {e : CompileError} {more : List Definition}
    (h : fragments context kept l names = (.error e, names')) :
  fragments context kept (l ++ more) names = (.error e, names')
  := by
  induction l generalizing kept names with
  | nil => cases h
  | cons d rest ih =>
      rw [fragments] at h
      rw [List.cons_append, fragments]
      cases hcode : (d.generate context).run names with
      | mk result names₁ =>
          rw [hcode] at h
          cases result with
          | error e => apply h
          | ok code => apply ih h

theorem fragments_singleton_of_ok {code : Code} (hnames : names.Regular)
    (hcode : (d.generate context).value = .ok code) :
  fragments context kept [d] names =
    (.ok (if kept.contains code then kept else kept ++ [code]), ((d.generate context).run names).2)
  := by
  have hrun : (d.generate context).run names = (.ok code, ((d.generate context).run names).2) :=
    Prod.ext ((Script.run_fst hnames _).trans hcode) rfl
  rw [fragments, hrun]
  rfl

theorem fragments_singleton_of_error {e : CompileError} (hnames : names.Regular)
    (hcode : (d.generate context).value = .error e) :
  fragments context kept [d] names = (.error e, ((d.generate context).run names).2)
  := by
  have hrun : (d.generate context).run names = (.error e, ((d.generate context).run names).2) :=
    Prod.ext ((Script.run_fst hnames _).trans hcode) rfl
  rw [fragments, hrun]

/-- What definitions that all generate code come to. -/
structure Generated (context : CodeContext) (l : List Definition) (kept : List Code)
    (names : Names) : Prop where
  regular : names.Regular
  /-- To run one of the generators again changes no names. -/
  settled : ∀ d ∈ l, (d.generate context).Settled names
  /-- Of the fragments those are kept that are not equal to an earlier one. -/
  codes : ∃ codes : List Code, l.map (fun d => (d.generate context).value) = codes.map .ok ∧
    kept = codes.eraseDups

theorem Generated.exists_code (h : Generated context l kept names) (hd : d ∈ l) :
  ∃ code ∈ kept, (d.generate context).value = .ok code
  := by
  obtain ⟨codes, hcodes, rfl⟩ := h.codes
  have hmem : (d.generate context).value ∈ codes.map .ok := hcodes ▸ List.mem_map_of_mem hd
  obtain ⟨code, hcode, hvalue⟩ := List.mem_map.mp hmem
  exact ⟨code, List.mem_eraseDups.mpr hcode, hvalue.symm⟩

/-- One definition more. -/
theorem Generated.append {code : Code} (h : Generated context l kept names)
    (hcode : (d.generate context).value = .ok code) :
  Generated context (l ++ [d]) (if kept.contains code then kept else kept ++ [code])
    ((d.generate context).run names).2
  := by
  constructor
  · apply Script.regular_run h.regular
  · intro d' hd'
    rcases List.mem_append.mp hd' with hd' | hd'
    · apply (h.settled d' hd').run
    · obtain rfl := List.mem_singleton.mp hd'
      apply Script.settled_run h.regular
  · obtain ⟨codes, hcodes, rfl⟩ := h.codes
    use codes ++ [code]
    rw [List.map_append, hcodes, List.map_append, List.map_singleton, hcode]
    refine ⟨rfl, ?_⟩
    rw [eraseDups_append_singleton]
    simp

theorem generated_of_fragments (hnames : names.Regular)
    (h : fragments context [] l names = (.ok kept, names')) :
  Generated context l kept names'
  := by
  induction l using List.reverseRecOn generalizing kept names' with
  | nil =>
      cases h
      exact ⟨hnames, nofun, [], rfl, rfl⟩
  | append_singleton l d ih =>
      cases hl : fragments context [] l names with
      | mk result names₁ =>
          cases result with
          | error e =>
              rw [fragments_append_of_error hl] at h
              cases h
          | ok kept₁ =>
              have hfirst := ih hl
              rw [fragments_append hl] at h
              cases hcode : (d.generate context).value with
              | error e =>
                  rw [fragments_singleton_of_error hfirst.regular hcode] at h
                  cases h
              | ok code =>
                  rw [fragments_singleton_of_ok hfirst.regular hcode] at h
                  cases h
                  apply hfirst.append hcode

/-! ### Repeated definitions -/

/-- A definition that has been generated gives nothing new. -/
theorem Generated.fragments_singleton (h : Generated context l kept names) (hd : d ∈ l) :
  fragments context kept [d] names = (.ok kept, names)
  := by
  obtain ⟨code, hkept, hcode⟩ := h.exists_code hd
  rw [fragments_singleton_of_ok h.regular hcode, if_pos (List.contains_iff_mem.mpr hkept),
    (h.settled d hd).run_snd h.regular]

theorem fragments_eq_of_thins (hnames : names.Regular) (h : Thins l l') :
  fragments context [] l' names = fragments context [] l names
  := by
  induction h with
  | nil => rfl
  | @keep l l' _ d ih =>
      cases hl : fragments context [] l names with
      | mk result names' =>
          rw [hl] at ih
          cases result with
          | error e => rw [fragments_append_of_error hl, fragments_append_of_error ih]
          | ok kept => rw [fragments_append hl, fragments_append ih]
  | @drop l l' _ d hd ih =>
      rw [ih]
      cases hl : fragments context [] l names with
      | mk result names' =>
          cases result with
          | error e => rw [fragments_append_of_error hl]
          | ok kept =>
              rw [fragments_append hl, (generated_of_fragments hnames hl).fragments_singleton hd]

/-- Definitions and all that they depend on come to the same code or the same first error, to the
same names, and to the same imports and exports, if later occurrences of definitions are left out,
some of them or all. -/
theorem instantiate_thins [DecidableEq Definition] (roots : List Definition) (settings : Settings)
    (hnames : names.Built) :
  Thins (flattenAll roots) (flattenAll roots).eraseDups ∧
    ∀ once, Thins (flattenAll roots) once →
      instantiate once settings names = instantiate (flattenAll roots) settings names ∧
      collectImports once = collectImports (flattenAll roots) ∧
      ∀ target, collectExports once target = collectExports (flattenAll roots) target
  := by
  refine ⟨thins_eraseDups _, ?_⟩
  intro once honce
  refine ⟨?_, ?_, ?_⟩
  · rw [instantiate, instantiate, fragments_eq_of_thins hnames.regular honce]
  · apply honce.firstWithName_eq
  · intro target
    rw [collectExports, collectExports, List.filter_flatMap, List.filter_flatMap]
    apply honce.firstWithName_eq

theorem instantiate_thins_toolkit :
  Names.Built { debug := false } ∧
    Thins (flattenAll [Toolkit.player, Toolkit.buffer])
      [Toolkit.core, Toolkit.buffer, Toolkit.player] ∧
    instantiate [Toolkit.core, Toolkit.buffer, Toolkit.player] {} { debug := false } =
      instantiate (flattenAll [Toolkit.player, Toolkit.buffer]) {} { debug := false }
  := by
  classical
  have hnames : Names.Built { debug := false } := .blank false
  -- The list is core, core, buffer, player, core, buffer.
  have hthins : Thins (flattenAll [Toolkit.player, Toolkit.buffer])
      [Toolkit.core, Toolkit.buffer, Toolkit.player] := by
    have hcore := Thins.nil.keep Toolkit.core
    have hbuffer := (hcore.drop (a := Toolkit.core) (by simp)).keep Toolkit.buffer
    have hplayer := hbuffer.keep Toolkit.player
    exact (hplayer.drop (a := Toolkit.core) (by simp)).drop (a := Toolkit.buffer) (by simp)
  obtain ⟨-, hsame⟩ := instantiate_thins [Toolkit.player, Toolkit.buffer] {} hnames
  exact ⟨hnames, hthins, (hsame _ hthins).1⟩

end Definition

end AudioPatch
