import AudioPatch.Proofs.Compile.Bystanders
import AudioPatch.Proofs.Patch.ArenaWalk
import AudioPatch.Proofs.Patch.Register

/-!
# Compiling arenas

On its way a compilation looks up ids in the register of the arena, handles in its cells, names in
their scopes, and programs by the ids of their nodes. If the register agrees with the cells, the
arena is compiled as the patch of its cells is. If the arena is valid too, all that is looked up is
there, and the compilation is stopped by obstacles only.
-/

namespace AudioPatch

/-- The button and the chime in an arena. -/
def Doorbell.arena : Arena := ⟨[some button, some chime], .ofList [("button", 0), ("chime", 1)]⟩

/-- An id is missing only if a hook has it. -/
theorem Obstacle.hook_of_unknownNode {p : Patch} {registry : Registry} {settings : Settings}
    {id : NodeId} (h : Obstacle p registry settings (.patch (.unknownNode id))) :
  id ∉ p.ids ∧ ∃ side, id ∈ (settings.hooks side).keys
  := by
  generalize he : CompileError.patch (.unknownNode id) = e at h
  cases h with
  | hookWithoutNode side hkey hid =>
      cases he
      exact ⟨hid, side, hkey⟩
  | hookWithoutPortlet side => cases side <;> cases he
  | _ => cases he

namespace Arena

variable {a : Arena} {p : Patch} {registry : Registry} {settings : Settings}

/-- An arena is compiled as the patch that it represents. -/
theorem Represents.compile_eq (h : a.Represents p) :
  a.compile = p.compile
  := by
  apply h.graph_same.compile_eq
  intro ids
  apply (h.trim ids).graph_same

/-- If all that it calls gives results, the compilation of a valid arena succeeds exactly if there
is no obstacle. What stops it is the error of an obstacle. So it is never that a name is missing, a
handle dangles or the arena has another flaw, and that a node is missing only if a hook is at a node
that is not there. -/
theorem compile_ok_iff_no_obstacle (h : a.Agrees) (hvalid : a.validate = .ok ())
    (hresponds : Responds (a.patch h) registry settings) :
  a.compile registry settings = (a.patch h).compile registry settings ∧
    ((∃ result, a.compile registry settings = .ok result)
      ↔ ∀ e, ¬ Obstacle (a.patch h) registry settings e) ∧
    ∀ e, a.compile registry settings = .error e → Obstacle (a.patch h) registry settings e ∧
      (∀ scope key, e ≠ .symbol (.unknownKey scope key)) ∧ (∀ flaw, e ≠ .patch (.flawed flaw)) ∧
      ∀ id, e = .patch (.unknownNode id) →
        a.handle? id = none ∧ ∃ side, id ∈ (settings.hooks side).keys
  := by
  have hsame := congrFun₂ h.represents.compile_eq registry settings
  have hcoherent : (a.patch h).Coherent := by
    apply Patch.coherent_of_validate
    apply h.represents.same.validate_eq.symm.trans hvalid
  have hcompile := Patch.meets_compile hcoherent hresponds
  rw [← hsame] at hcompile
  refine ⟨hsame, ⟨?_, ?_⟩, ?_⟩
  · rintro ⟨result, hresult⟩
    apply hcompile.of_eq_ok hresult
  · intro hnone
    cases hresult : a.compile registry settings with
    | ok result => exact ⟨result, rfl⟩
    | error e => cases hnone e (hcompile.of_eq_error hresult)
  · intro e hresult
    have hobstacle := hcompile.of_eq_error hresult
    refine ⟨hobstacle, hobstacle.ne_unknownKey, hobstacle.ne_flawed, ?_⟩
    rintro id rfl
    obtain ⟨hid, hhook⟩ := hobstacle.hook_of_unknownNode
    rw [← h.represents.isSome_handle?, Option.not_isSome_iff_eq_none] at hid
    exact ⟨hid, hhook⟩

theorem compile_ok_iff_no_obstacle_doorbell :
  ∃ h : Doorbell.arena.Agrees, Doorbell.arena.validate = .ok () ∧
    Responds (Doorbell.arena.patch h) Doorbell.registry Doorbell.settings ∧
    ∃ result, Doorbell.arena.compile Doorbell.registry Doorbell.settings = .ok result
  := by
  have hagrees : Doorbell.arena.Agrees := by decide
  have hvalid : Doorbell.arena.validate = .ok () := by decide
  obtain ⟨-, hresult, -⟩ := compile_ok_iff_no_obstacle hagrees hvalid Doorbell.responds
  exact ⟨hagrees, hvalid, Doorbell.responds, hresult.mpr Doorbell.unobstructed.no_obstacle⟩

end Arena

end AudioPatch
