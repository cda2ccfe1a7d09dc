import AudioPatch.Proofs.Compile.GlobalCode
import Mathlib.Data.List.Infix
import Mathlib.Logic.Relation

/-!
# Dependencies of global code

In the list of definitions every occurrence of a definition comes right after all that it depends on
(`Definition.dependencies_suffix`). Of the fragments that are generated the first of equal ones is
kept, and that may be the fragment of another definition. So the fragment of a dependency comes
first, unless another definition with the same code is listed before the dependency.
-/

namespace AudioPatch

open Relation

/-! ### Two definitions with the same code -/

namespace Circle

def piCode : Code := [.text "const pi = 3.14159\n"]

def tauCode : Code := [.text "const tau = 2 * pi\n"]

def pi : Definition where
  space := "circle"
  generate _ := pure piCode

def tau : Definition where
  space := "circle"
  generate _ := pure tauCode
  dependencies := [pi]

/-- The same code, without a mention of what it needs. -/
def bareTau : Definition where
  space := "circle"
  generate _ := pure tauCode

end Circle

namespace Definition

/-! ### All that definitions depend on -/

/-- A definition depends on another one directly. -/
def DependsOn (d e : Definition) : Prop := e ∈ d.dependencies

/-- A definition is one of some definitions or one that they depend on, directly or through
others. -/
def Reachable (roots : List Definition) (d : Definition) : Prop :=
  ∃ r ∈ roots, ReflTransGen DependsOn r d

theorem flattenAll_cons (d : Definition) (rest : List Definition) :
  flattenAll (d :: rest) = flattenAll d.dependencies ++ d :: flattenAll rest
  := by
  cases d
  rw [flattenAll, flatten, List.append_assoc, List.singleton_append]

/-- What holds of a list if it holds of the rest and of the dependencies of the first definition,
holds of all lists. -/
theorem list_induction {motive : List Definition → Prop} (nil : motive [])
    (cons : ∀ d rest, motive d.dependencies → motive rest → motive (d :: rest))
    (l : List Definition) :
  motive l
  := by
  apply flattenAll.induct (fun d => motive d.dependencies) motive
  · intro space generate dependencies imports exports h
    apply h
  · apply nil
  · apply cons

variable {roots : List Definition} {d e : Definition}

theorem reachable_dependencies_iff :
  Reachable d.dependencies e ↔ TransGen DependsOn d e
  := by
  rw [TransGen.head'_iff]
  rfl

theorem mem_flattenAll_iff :
  d ∈ flattenAll roots ↔ Reachable roots d
  := by
  induction roots using list_induction with
  | nil => simp [flattenAll, Reachable]
  | cons r rest ihdeps ihrest =>
      rw [flattenAll_cons, List.mem_append, List.mem_cons, ihdeps, ihrest,
        reachable_dependencies_iff, Reachable, Reachable, List.exists_mem_cons_iff,
        reflTransGen_iff_eq_or_transGen, ← or_assoc, or_comm (a := TransGen DependsOn r d)]

/-- Every occurrence of a definition comes right after all that it depends on. -/
theorem dependencies_suffix {before after : List Definition}
    (h : flattenAll roots = before ++ d :: after) :
  flattenAll d.dependencies <:+ before
  := by
  induction roots using list_induction generalizing before after with
  | nil =>
      rw [flattenAll] at h
      simp at h
  | cons r rest ihdeps ihrest =>
      rw [flattenAll_cons, List.append_eq_append_iff] at h
      rcases h with ⟨middle, hbefore, hmiddle⟩ | ⟨middle, hdeps, hmiddle⟩
      · rw [hbefore]
        rcases List.cons_eq_append_iff.mp hmiddle with ⟨rfl, hd⟩ | ⟨middle, rfl, hrest⟩
        · rw [(List.cons.inj hd).1, List.append_nil]
        · apply (ihrest hrest).trans
          rw [List.append_cons]
          apply List.suffix_append
      · rcases List.cons_eq_append_iff.mp hmiddle with ⟨rfl, hd⟩ | ⟨middle, rfl, -⟩
        · rw [← (List.cons.inj hd).1, hdeps, List.append_nil]
        · apply ihdeps hdeps

theorem mem_of_dependsOn {before after : List Definition}
    (h : flattenAll roots = before ++ d :: after) (he : TransGen DependsOn d e) :
  e ∈ before
  := by
  apply (dependencies_suffix h).subset
  apply mem_flattenAll_iff.mpr
  apply reachable_dependencies_iff.mpr he

/-! ### The order of fragments -/

variable {context : CodeContext} {names : Names} {l : List Definition} {kept : List Code}
  {code code' : Code}

/-- A definition generates some code, from all names. -/
def Generates (context : CodeContext) (d : Definition) (code : Code) : Prop :=
  ∀ names : Names, names.Built → ((d.generate context).run names).1 = .ok code

theorem generates_iff :
  d.Generates context code ↔ (d.generate context).value = .ok code
  := by
  constructor
  · intro h
    rw [← Script.run_fst (Names.Built.blank false).regular]
    apply h _ (.blank false)
  · intro h names hnames
    rw [Script.run_fst hnames.regular, h]

theorem Generates.unique (h : d.Generates context code) (h' : d.Generates context code') :
  code = code'
  := by
  rw [generates_iff] at h h'
  apply Except.ok.inj (h.symm.trans h')

/-- Some definition other than `d` has the code `code` and is listed before all that have the code
`code'`. -/
def Anticipated (context : CodeContext) (l : List Definition) (d : Definition)
    (code code' : Code) : Prop :=
  ∃ before g after, l = before ++ g :: after ∧ g ≠ d ∧ g.Generates context code ∧
    ∀ x ∈ before, ¬ x.Generates context code'

namespace Generated

theorem exists_generates (h : Generated context l kept names) (hd : d ∈ l) :
  ∃ code ∈ kept, d.Generates context code
  := by
  obtain ⟨code, hkept, hcode⟩ := h.exists_code hd
  exact ⟨code, hkept, generates_iff.mpr hcode⟩

theorem mem_kept (h : Generated context l kept names) (hd : d ∈ l)
    (hcode : d.Generates context code) :
  code ∈ kept
  := by
  obtain ⟨code₁, hkept, hcode₁⟩ := h.exists_generates hd
  rw [hcode.unique hcode₁]
  apply hkept

/-- Every fragment that is kept comes from some definition first. -/
theorem exists_first (h : Generated context l kept names) (hcode : code ∈ kept) :
  ∃ before g after, l = before ++ g :: after ∧ g.Generates context code ∧
    ∀ x ∈ before, ¬ x.Generates context code
  := by
  obtain ⟨codes, hcodes, rfl⟩ := h.codes
  have hmem : Except.ok code ∈ l.map fun d => (d.generate context).value :=
    hcodes ▸ List.mem_map_of_mem (List.mem_eraseDups.mp hcode)
  obtain ⟨values, values', hvalues, hnew⟩ := List.eq_append_cons_of_mem hmem
  obtain ⟨before, rest, rfl, rfl, hrest⟩ := List.map_eq_append_iff.mp hvalues
  obtain ⟨g, after, rfl, hg, -⟩ := List.map_eq_cons_iff.mp hrest
  refine ⟨before, g, after, rfl, generates_iff.mpr hg, ?_⟩
  intro x hx hxcode
  apply hnew
  rw [← generates_iff.mp hxcode]
  apply List.mem_map_of_mem hx

/-- Code that definitions generate is kept before code that only later ones generate. -/
theorem idxOf_lt {l' : List Definition} (h : Generated context (l ++ l') kept names) (hd : d ∈ l)
    (hcode : d.Generates context code) (hnew : ∀ x ∈ l, ¬ x.Generates context code') :
  kept.idxOf code < kept.idxOf code'
  := by
  obtain ⟨codes, hcodes, rfl⟩ := h.codes
  rw [List.map_append] at hcodes
  obtain ⟨first, last, rfl, hfirst, -⟩ := List.map_eq_append_iff.mp hcodes.symm
  have hmem : ∀ c, c ∈ first ↔ ∃ x ∈ l, x.Generates context c := by
    intro c
    rw [← List.mem_map_of_injective (f := Except.ok (ε := CompileError)) (fun _ _ => Except.ok.inj),
      hfirst, List.mem_map]
    simp only [generates_iff]
  apply idxOf_eraseDups_lt
  · apply (hmem code).mpr ⟨d, hd, hcode⟩
  · intro hcode'
    obtain ⟨x, hx, hxcode⟩ := (hmem code').mp hcode'
    apply hnew x hx hxcode

theorem idxOf_lt_iff (h : Generated context l kept names) (hcode : code ∈ kept)
    (hne : code ≠ code') :
  kept.idxOf code < kept.idxOf code' ↔
    ∃ before g after, l = before ++ g :: after ∧ g.Generates context code ∧
      ∀ x ∈ before, ¬ x.Generates context code'
  := by
  constructor
  · intro hlt
    obtain ⟨before, g, after, rfl, hg, hfirst⟩ := h.exists_first hcode
    refine ⟨before, g, after, rfl, hg, ?_⟩
    intro x hx hxcode
    apply Nat.lt_asymm hlt (h.idxOf_lt hx hxcode hfirst)
  · rintro ⟨before, g, after, rfl, hg, hbefore⟩
    rw [List.append_cons] at h
    apply h.idxOf_lt (List.mem_append_right _ (List.mem_singleton_self g)) hg
    intro x hx hxcode
    rcases List.mem_append.mp hx with hx | hx
    · apply hbefore x hx hxcode
    · obtain rfl := List.mem_singleton.mp hx
      apply hne (hg.unique hxcode)

/-- The code of a dependency comes first, unless it is anticipated. -/
theorem idxOf_lt_iff_not_anticipated (h : Generated context (flattenAll roots) kept names)
    (hd : Reachable roots d) (he : TransGen DependsOn d e) (hcode : d.Generates context code)
    (hcode' : e.Generates context code') (hne : code' ≠ code) :
  kept.idxOf code' < kept.idxOf code ↔ ¬ Anticipated context (flattenAll roots) d code code'
  := by
  have hkept : code ∈ kept := h.mem_kept (mem_flattenAll_iff.mpr hd) hcode
  have hdiff : kept.idxOf code ≠ kept.idxOf code' := mt (List.idxOf_inj hkept).mp hne.symm
  constructor
  · rintro hlt ⟨before, g, after, hl, -, hg, hbefore⟩
    apply Nat.lt_asymm hlt
    apply (h.idxOf_lt_iff hkept hne.symm).mpr ⟨before, g, after, hl, hg, hbefore⟩
  · intro hnot
    apply (Nat.lt_or_gt_of_ne hdiff).resolve_left
    intro hlt
    obtain ⟨before, g, after, hl, hg, hbefore⟩ := (h.idxOf_lt_iff hkept hne.symm).mp hlt
    refine hnot ⟨before, g, after, hl, ?_, hg, hbefore⟩
    -- The definition itself comes after the dependency, wherever it is listed.
    rintro rfl
    apply hbefore e (mem_of_dependsOn hl he) hcode'

end Generated

/-- Fragments are kept once, and every definition has its own among them. That of a dependency comes
before that of the definition, if the two differ, exactly if no other definition with the code of
the latter is listed before all with the code of the former. Every fragment comes from some
definition after whose dependencies it is kept. -/
theorem dependencies_first (hnames : names.Built) (settings : Settings)
    (h : (fragments ⟨names.globals, settings⟩ [] (flattenAll roots) names).1 = .ok kept) :
  kept.Nodup ∧
    (∀ d, Reachable roots d → ∃ code ∈ kept, d.Generates ⟨names.globals, settings⟩ code) ∧
    (∀ d e code code', Reachable roots d → TransGen DependsOn d e →
      d.Generates ⟨names.globals, settings⟩ code → e.Generates ⟨names.globals, settings⟩ code' →
      code' ≠ code →
      (kept.idxOf code' < kept.idxOf code ↔
        ¬ Anticipated ⟨names.globals, settings⟩ (flattenAll roots) d code code')) ∧
    ∀ code ∈ kept, ∃ d, Reachable roots d ∧ d.Generates ⟨names.globals, settings⟩ code ∧
      ∀ e code', TransGen DependsOn d e → e.Generates ⟨names.globals, settings⟩ code' →
        kept.idxOf code' < kept.idxOf code
  := by
  have hgen : Generated ⟨names.globals, settings⟩ (flattenAll roots) kept _ :=
    generated_of_fragments hnames.regular (Prod.ext h rfl)
  refine ⟨?_, ?_, ?_, ?_⟩
  · obtain ⟨codes, -, rfl⟩ := hgen.codes
    apply nodup_eraseDups
  · intro d hd
    apply hgen.exists_generates (mem_flattenAll_iff.mpr hd)
  · intro d e code code' hd he hcode hcode' hne
    apply hgen.idxOf_lt_iff_not_anticipated hd he hcode hcode' hne
  · intro code hcode
    obtain ⟨before, d, after, hl, hd, hfirst⟩ := hgen.exists_first hcode
    refine ⟨d, ?_, hd, ?_⟩
    · apply mem_flattenAll_iff.mp
      rw [hl]
      simp
    · intro e code' he hcode'
      rw [hl] at hgen
      apply hgen.idxOf_lt (mem_of_dependsOn hl he) hcode' hfirst

theorem dependencies_first_circle :
  Names.Built { debug := false } ∧
    (fragments ⟨{}, {}⟩ [] (flattenAll [Circle.tau, Circle.bareTau]) { debug := false }).1 =
      .ok [Circle.piCode, Circle.tauCode] ∧
    ¬ Anticipated ⟨{}, {}⟩ (flattenAll [Circle.tau, Circle.bareTau]) Circle.tau Circle.tauCode
      Circle.piCode
  := by
  have hnames : Names.Built { debug := false } := .blank false
  have hkept : (fragments ⟨{}, {}⟩ [] (flattenAll [Circle.tau, Circle.bareTau])
      { debug := false }).1 = .ok [Circle.piCode, Circle.tauCode] := rfl
  refine ⟨hnames, hkept, ?_⟩
  obtain ⟨-, -, hfirst, -⟩ := dependencies_first hnames {} hkept
  apply (hfirst Circle.tau Circle.pi Circle.tauCode Circle.piCode ?_ ?_ ?_ ?_ ?_).mp
  · decide
  · exact ⟨Circle.tau, List.mem_cons_self, .refl⟩
  · exact .single (List.mem_singleton_self Circle.pi)
  · exact fun _ _ => rfl
  · exact fun _ _ => rfl
  · decide

/-- The fragment of a definition that is listed first stands for an equal one, before what the
latter depends on. -/
theorem not_dependencies_first_circle :
  Names.Built { debug := false } ∧
    (fragments ⟨{}, {}⟩ [] (flattenAll [Circle.bareTau, Circle.tau]) { debug := false }).1 =
      .ok [Circle.tauCode, Circle.piCode] ∧
    Reachable [Circle.bareTau, Circle.tau] Circle.tau ∧
    TransGen DependsOn Circle.tau Circle.pi ∧
    Circle.tau.Generates ⟨{}, {}⟩ Circle.tauCode ∧
    Circle.pi.Generates ⟨{}, {}⟩ Circle.piCode ∧
    Circle.piCode ≠ Circle.tauCode ∧
    ¬ [Circle.tauCode, Circle.piCode].idxOf Circle.piCode <
      [Circle.tauCode, Circle.piCode].idxOf Circle.tauCode
  := by
  refine ⟨.blank false, rfl, ?_, ?_, fun _ _ => rfl, fun _ _ => rfl, ?_, ?_⟩
  · exact ⟨Circle.tau, by simp, .refl⟩
  · exact .single (List.mem_singleton_self Circle.pi)
  · decide
  · decide

end Definition

end AudioPatch
