import AudioPatch.Proofs.Compile.Dependencies
import Mathlib.Data.Set.Card

/-!
# Paths of dependencies

A path of dependencies starts at one of some roots and goes on from each definition to one that it
depends on directly. A definition is listed behind its dependencies, once for each path that leads
to it: the paths can be put into a row so that the definitions at their ends are the list
(`Definition.exists_tracks`).
-/

namespace AudioPatch.Definition

open Relation

/-- A path of dependencies: the position of a root, and for each further step the position of the
next definition among the dependencies. -/
structure Path where
  root : Nat
  steps : List Nat

namespace Path

/-- A path that starts at a dependency of the first root, from that root on. -/
def under (p : Path) : Path := ⟨0, p.root :: p.steps⟩

/-- A path when there is one more root, before the others. -/
def beside (p : Path) : Path := ⟨p.root + 1, p.steps⟩

/-- The path to the first root. -/
def first : Path := ⟨0, []⟩

theorem under_injective :
  Function.Injective under
  := by
  rintro ⟨i, steps⟩ ⟨j, steps'⟩ h
  cases h
  rfl

theorem beside_injective :
  Function.Injective beside
  := by
  rintro ⟨i, steps⟩ ⟨j, steps'⟩ h
  cases h
  rfl

theorem cases_first (p : Path) :
  p = first ∨ (∃ q, p = under q) ∨ ∃ q, p = beside q
  := by
  obtain ⟨i, steps⟩ := p
  cases i with
  | zero =>
      cases steps with
      | nil => exact .inl rfl
      | cons j steps => exact .inr (.inl ⟨⟨j, steps⟩, rfl⟩)
  | succ i => exact .inr (.inr ⟨⟨i, steps⟩, rfl⟩)

end Path

/-- The definition to which steps lead, if there is one. -/
def descend (d : Definition) : List Nat → Option Definition
  | [] => some d
  | i :: steps => d.dependencies[i]?.bind fun e => e.descend steps

/-- The definition to which a path leads from some roots, if there is one. -/
def follow (roots : List Definition) (p : Path) : Option Definition :=
  roots[p.root]?.bind fun d => d.descend p.steps

variable {roots : List Definition} {d : Definition}

@[simp]
theorem follow_nil (p : Path) :
  follow [] p = none
  := rfl

@[simp]
theorem follow_cons_first (d : Definition) (rest : List Definition) :
  follow (d :: rest) .first = some d
  := rfl

@[simp]
theorem follow_cons_under (d : Definition) (rest : List Definition) (p : Path) :
  follow (d :: rest) p.under = follow d.dependencies p
  := rfl

@[simp]
theorem follow_cons_beside (d : Definition) (rest : List Definition) (p : Path) :
  follow (d :: rest) p.beside = follow rest p
  := rfl

/-- All paths from some roots, each once, in the order in which the definitions at their ends are
listed. -/
structure Tracks (roots : List Definition) (paths : List Path) : Prop where
  nodup : paths.Nodup
  mem_iff : ∀ p, p ∈ paths ↔ (follow roots p).isSome
  ends : paths.map (follow roots) = (flattenAll roots).map some

namespace Tracks

theorem nil :
  Tracks [] []
  where
  nodup := .nil
  mem_iff p := by simp
  ends := by simp [flattenAll]

/-- The paths through the first root come before the path that ends there, and that comes before
the paths from other roots. -/
theorem cons {rest : List Definition} {inner outer : List Path}
    (hinner : Tracks d.dependencies inner) (houter : Tracks rest outer) :
  Tracks (d :: rest) (inner.map .under ++ .first :: outer.map .beside)
  where
  nodup := by
    have houter' : (Path.first :: outer.map .beside).Nodup := by
      apply List.nodup_cons.mpr ⟨?_, houter.nodup.map Path.beside_injective⟩
      rw [List.mem_map]
      rintro ⟨p, -, hp⟩
      cases hp
    apply (hinner.nodup.map Path.under_injective).append houter'
    intro p hp hp'
    obtain ⟨q, -, rfl⟩ := List.mem_map.mp hp
    rcases List.mem_cons.mp hp' with hq | hq
    · cases hq
    · obtain ⟨r, -, hr⟩ := List.mem_map.mp hq
      cases hr
  mem_iff p := by
    rw [List.mem_append, List.mem_cons]
    rcases p.cases_first with rfl | ⟨q, rfl⟩ | ⟨q, rfl⟩
    · simp
    · rw [follow_cons_under, ← hinner.mem_iff, List.mem_map_of_injective Path.under_injective]
      simp [Path.under, Path.first, Path.beside]
    · rw [follow_cons_beside, ← houter.mem_iff, List.mem_map_of_injective Path.beside_injective]
      simp [Path.under, Path.first, Path.beside]
  ends := by
    rw [flattenAll_cons, List.map_append, List.map_append, List.map_cons, List.map_cons,
      List.map_map, List.map_map, ← hinner.ends, ← houter.ends]
    rfl

end Tracks

theorem exists_tracks (roots : List Definition) :
  ∃ paths, Tracks roots paths
  := by
  induction roots using list_induction with
  | nil => exact ⟨[], .nil⟩
  | cons d rest ihdeps ihrest =>
      obtain ⟨inner, hinner⟩ := ihdeps
      obtain ⟨outer, houter⟩ := ihrest
      exact ⟨_, hinner.cons houter⟩

open Classical in
/-- A definition is listed as often as there are paths to it. -/
theorem count_flattenAll (roots : List Definition) (d : Definition) :
  ((flattenAll roots).count d : ℕ∞) = {p | follow roots p = some d}.encard
  := by
  obtain ⟨paths, hpaths⟩ := exists_tracks roots
  have hset : {p | follow roots p = some d} = (paths.filter (follow roots · = some d)).toFinset := by
    ext p
    rw [Set.mem_ofPred_eq, List.coe_toFinset, Set.mem_ofPred_eq, List.mem_filter, hpaths.mem_iff,
      decide_eq_true_iff]
    constructor
    · intro hp
      exact ⟨Option.isSome_of_eq_some hp, hp⟩
    · intro hp
      apply hp.2
  have hcount : (flattenAll roots).count d = (paths.filter (follow roots · = some d)).length :=
    calc (flattenAll roots).count d
      _ = ((flattenAll roots).map some).count (some d) := by
          rw [List.count_map_of_injective _ _ (Option.some_injective _)]
      _ = (paths.map (follow roots)).count (some d) := by rw [hpaths.ends]
      _ = (paths.filter (follow roots · = some d)).length := by
          rw [List.count, List.countP_map, List.countP_eq_length_filter]
          congr 1
          apply List.filter_congr
          intro p _
          rw [Bool.eq_iff_iff, Function.comp_apply, beq_iff_eq, decide_eq_true_iff]
  rw [hset, Set.encard_coe_eq_coe_finsetCard, List.toFinset_card_of_nodup (hpaths.nodup.filter _),
    hcount]

open Classical in
/-- The list of definitions holds all that the roots depend on and nothing else. Each occurrence of
a definition comes right after the list of its dependencies, so that all it depends on is listed
before it. There is one occurrence for each path of dependencies, also where equal definitions are
told apart by the paths to them. -/
theorem flattenAll_lists_paths (roots : List Definition) :
  (∀ d, d ∈ flattenAll roots ↔ Reachable roots d) ∧
    (∀ before d after, flattenAll roots = before ++ d :: after →
      flattenAll d.dependencies <:+ before ∧ ∀ e, TransGen DependsOn d e → e ∈ before) ∧
    (∀ d, ((flattenAll roots).count d : ℕ∞) = {p | follow roots p = some d}.encard) ∧
    ∃ paths, Tracks roots paths
  := by
  refine ⟨fun d => mem_flattenAll_iff, ?_, count_flattenAll roots, exists_tracks roots⟩
  intro before d after h
  exact ⟨dependencies_suffix h, fun e he => mem_of_dependsOn h he⟩

theorem flattenAll_lists_paths_toolkit :
  flattenAll [Toolkit.player, Toolkit.buffer] =
      [Toolkit.core, Toolkit.core, Toolkit.buffer, Toolkit.player, Toolkit.core] ++
        [Toolkit.buffer] ∧
    [Toolkit.core] <:+
      [Toolkit.core, Toolkit.core, Toolkit.buffer, Toolkit.player, Toolkit.core] ∧
    TransGen DependsOn Toolkit.buffer Toolkit.core ∧
    Toolkit.core ∈ [Toolkit.core, Toolkit.core, Toolkit.buffer, Toolkit.player, Toolkit.core] ∧
    {p | follow [Toolkit.player, Toolkit.buffer] p = some Toolkit.core}.encard = 3
  := by
  classical
  have hflat : flattenAll [Toolkit.player, Toolkit.buffer] =
      [Toolkit.core, Toolkit.core, Toolkit.buffer, Toolkit.player, Toolkit.core] ++
        [Toolkit.buffer] := rfl
  have hcore : TransGen DependsOn Toolkit.buffer Toolkit.core := .single List.mem_cons_self
  have hbuffer : Toolkit.buffer ≠ Toolkit.core :=
    fun h => absurd (congrArg space h) (by decide)
  have hplayer : Toolkit.player ≠ Toolkit.core :=
    fun h => absurd (congrArg space h) (by decide)
  obtain ⟨-, hbefore, hcount, -⟩ := flattenAll_lists_paths [Toolkit.player, Toolkit.buffer]
  obtain ⟨hdeps, hmem⟩ := hbefore _ _ _ hflat
  refine ⟨hflat, hdeps, hcore, hmem _ hcore, ?_⟩
  rw [← hcount, hflat]
  simp [hbuffer, hplayer]

end AudioPatch.Definition
