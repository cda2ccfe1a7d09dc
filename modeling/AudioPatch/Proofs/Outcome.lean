import AudioPatch.Compile.Error
import Mathlib.Data.List.Forall2

/-!
# Outcomes

A computation that can fail *meets* a condition on values and a condition on errors if the
one holds of the value that it comes to, or the other of the error that stops it. What a
sequence of computations meets follows from what each of them meets; for one that goes
through a list, from what each round keeps.
-/

namespace AudioPatch

variable {ε ε' α β : Type} {good : α → Prop} {bad : ε → Prop}

/-- The value of a computation satisfies `good`, or its error satisfies `bad`. -/
def Meets (x : Except ε α) (good : α → Prop) (bad : ε → Prop) : Prop :=
  match x with
  | .ok a => good a
  | .error e => bad e

namespace Meets

@[simp]
theorem ok_iff (a : α) :
  Meets (.ok a : Except ε α) good bad ↔ good a
  := Iff.rfl

@[simp]
theorem pure_iff (a : α) :
  Meets (pure a : Except ε α) good bad ↔ good a
  := Iff.rfl

@[simp]
theorem error_iff (e : ε) :
  Meets (.error e : Except ε α) good bad ↔ bad e
  := Iff.rfl

/-- A computation that meets conditions meets weaker ones. -/
theorem imp {x : Except ε α} {good' : α → Prop} {bad' : ε → Prop} (hx : Meets x good bad)
    (hgood : ∀ a, good a → good' a) (hbad : ∀ e, bad e → bad' e) :
  Meets x good' bad'
  := by
  cases x with
  | ok a => apply hgood a hx
  | error e => apply hbad e hx

theorem imp_good {x : Except ε α} {good' : α → Prop} (hx : Meets x good bad)
    (hgood : ∀ a, good a → good' a) :
  Meets x good' bad
  := hx.imp hgood fun _ he => he

/-- The value of a computation satisfies the condition on values. -/
theorem of_eq_ok {x : Except ε α} (hx : Meets x good bad) {a : α} (h : x = .ok a) :
  good a
  := by
  subst h
  apply hx

/-- The error of a computation satisfies the condition on errors. -/
theorem of_eq_error {x : Except ε α} (hx : Meets x good bad) {e : ε} (h : x = .error e) :
  bad e
  := by
  subst h
  apply hx

/-- A computation that cannot fail meets every condition on errors. -/
theorem of_total {x : Except ε α} (hx : Meets x good (fun _ => False)) :
  Meets x good bad
  := hx.imp (fun _ ha => ha) (fun _ => False.elim)

/-- What a computation that cannot fail meets, its value satisfies. -/
theorem never_iff {x : Except ε α} :
  Meets x good (fun _ => False) ↔ ∃ a, x = .ok a ∧ good a
  := by
  cases x with
  | ok a => simp
  | error e => simp

/-! ### Sequences -/

/-- One computation after another. -/
theorem bind {x : Except ε α} {f : α → Except ε β} {good' : β → Prop} (hx : Meets x good bad)
    (hf : ∀ a, x = .ok a → good a → Meets (f a) good' bad) :
  Meets (x >>= f) good' bad
  := by
  cases x with
  | ok a => apply hf a rfl hx
  | error e => apply hx

theorem map_iff {x : Except ε α} {f : α → β} {good' : β → Prop} :
  Meets (x.map f) good' bad ↔ Meets x (fun a => good' (f a)) bad
  := by
  cases x with
  | ok a => rfl
  | error e => rfl

theorem mapError_iff {x : Except ε α} {f : ε → ε'} {bad' : ε' → Prop} :
  Meets (x.mapError f) good bad' ↔ Meets x good (fun e => bad' (f e))
  := by
  cases x with
  | ok a => rfl
  | error e => rfl

/-- A computation that goes through a list meets a condition that holds at the start and is
kept by every round. The condition can speak of the part of the list that is done. -/
theorem foldlM {l : List α} {f : β → α → Except ε β} {b : β} {bad : ε → Prop}
    (inv : List α → β → Prop) (hstart : inv [] b)
    (hround : ∀ done a rest, l = done ++ a :: rest → ∀ b, inv done b →
      Meets (f b a) (inv (done ++ [a])) bad) :
  Meets (l.foldlM f b) (inv l) bad
  := by
  suffices h : ∀ done rest, l = done ++ rest → ∀ b, inv done b →
      Meets (rest.foldlM f b) (inv l) bad by
    apply h [] l rfl b hstart
  intro done rest
  induction rest generalizing done with
  | nil =>
      intro hl b hb
      rw [List.append_nil] at hl
      subst hl
      apply hb
  | cons a rest ih =>
      intro hl b hb
      rw [List.foldlM_cons]
      apply bind (hround done a rest hl b hb)
      intro b' _ hb'
      apply ih (done ++ [a]) _ b' hb'
      rw [hl, List.append_assoc]
      rfl

/-- A check of every element of a list fails as the check of one of them does. -/
theorem forM {l : List α} {f : α → Except ε Unit} {holds : α → Prop} {bad : ε → Prop}
    (hf : ∀ a ∈ l, Meets (f a) (fun _ => holds a) bad) :
  Meets (l.forM f) (fun _ => ∀ a ∈ l, holds a) bad
  := by
  induction l with
  | nil => simp
  | cons a rest ih =>
      rw [List.forM]
      apply bind (hf a List.mem_cons_self)
      intro _ _ ha
      apply imp_good (ih fun b hb => hf b (List.mem_cons_of_mem a hb))
      intro _ hrest
      apply List.forall_mem_cons.mpr ⟨ha, hrest⟩

/-- A computation of a value for every element of a list. -/
theorem mapM {l : List α} {f : α → Except ε β} {r : α → β → Prop} {bad : ε → Prop}
    (hf : ∀ a ∈ l, Meets (f a) (r a) bad) :
  Meets (l.mapM f) (List.Forall₂ r l) bad
  := by
  induction l with
  | nil => simp
  | cons a rest ih =>
      rw [List.mapM_cons]
      apply bind (hf a List.mem_cons_self)
      intro b _ hb
      apply bind (ih fun c hc => hf c (List.mem_cons_of_mem a hc))
      intro bs _ hbs
      apply List.Forall₂.cons hb hbs

end Meets

/-! ### Computations that end alike -/

/-- Two computations come to values that are related, or fail for the same reason. -/
inductive SameOutcome (r : α → β → Prop) : Except ε α → Except ε β → Prop where
  | ok {a : α} {b : β} (h : r a b) : SameOutcome r (.ok a) (.ok b)
  | error {e : ε} : SameOutcome r (.error e) (.error e)

namespace SameOutcome

variable {γ δ ι : Type} {r : α → β → Prop} {r' : γ → δ → Prop} {x : Except ε α} {y : Except ε β}

theorem of_eq {x y : Except ε α} (h : x = y) :
  SameOutcome Eq x y
  := by
  subst h
  cases x with
  | ok a => exact .ok rfl
  | error e => exact .error

theorem bind {f : α → Except ε γ} {g : β → Except ε δ} (h : SameOutcome r x y)
    (hf : ∀ a b, r a b → SameOutcome r' (f a) (g b)) :
  SameOutcome r' (x >>= f) (y >>= g)
  := by
  cases h with
  | ok h => apply hf _ _ h
  | error => exact .error

theorem exists_ok {b : β} (h : SameOutcome r x (.ok b)) :
  ∃ a, x = .ok a ∧ r a b
  := by
  cases h with
  | ok h => exact ⟨_, rfl, h⟩

theorem eq_error {e : ε} (h : SameOutcome r x (.error e)) :
  x = .error e
  := by
  cases h
  rfl

/-- What is said of the values is the same. -/
theorem map_eq {f : α → γ} {g : β → γ} (h : SameOutcome r x y) (hf : ∀ a b, r a b → f a = g b) :
  x.map f = y.map g
  := by
  cases h with
  | ok h => exact congrArg Except.ok (hf _ _ h)
  | error => rfl

theorem foldlM {l : List ι} {f : α → ι → Except ε α} {g : β → ι → Except ε β} {a : α} {b : β}
    (h : r a b) (hf : ∀ i ∈ l, ∀ a b, r a b → SameOutcome r (f a i) (g b i)) :
  SameOutcome r (l.foldlM f a) (l.foldlM g b)
  := by
  induction l generalizing a b with
  | nil => exact .ok h
  | cons i rest ih =>
      obtain ⟨hi, hrest⟩ := List.forall_mem_cons.mp hf
      rw [List.foldlM_cons, List.foldlM_cons]
      apply (hi a b h).bind
      intro a' b' h'
      apply ih h' hrest

end SameOutcome

/-! ### Successes -/

theorem ok_bind (a : α) (f : α → Except ε β) :
  (Except.ok a >>= f) = f a
  := rfl

/-- A sequence of computations succeeds exactly if each of them does. -/
theorem bind_eq_ok_iff {x : Except ε α} {f : α → Except ε β} {b : β} :
  x >>= f = .ok b ↔ ∃ a, x = .ok a ∧ f a = .ok b
  := by
  cases x with
  | ok a => simp [bind, Except.bind]
  | error e => simp [bind, Except.bind]

theorem map_eq_ok_iff {x : Except ε α} {f : α → β} {b : β} :
  x.map f = .ok b ↔ ∃ a, x = .ok a ∧ f a = b
  := by
  cases x with
  | ok a => simp [Except.map]
  | error e => simp [Except.map]

/-- A computation fails exactly if it does not come to a value. -/
theorem exists_error_iff {x : Except ε α} :
  (∃ e, x = .error e) ↔ ¬ ∃ a, x = .ok a
  := by
  cases x with
  | ok a => simp
  | error e => simp

/-- What every round of a computation through a list keeps holds at its end. -/
theorem foldlM_keeps {l : List α} {f : β → α → Except ε β} {b b' : β} (inv : β → Prop)
    (h : l.foldlM f b = .ok b') (hb : inv b)
    (hround : ∀ a ∈ l, ∀ b b', f b a = .ok b' → inv b → inv b') :
  inv b'
  := by
  induction l generalizing b with
  | nil =>
      obtain rfl := Except.ok.inj h
      apply hb
  | cons a rest ih =>
      obtain ⟨hfirst, hrest⟩ := List.forall_mem_cons.mp hround
      rw [List.foldlM_cons] at h
      obtain ⟨c, hc, h⟩ := bind_eq_ok_iff.mp h
      apply ih h (hfirst b c hc hb) hrest

/-- A check of a list succeeds exactly if the check of every element does. -/
theorem forM_eq_ok_iff {l : List α} {f : α → Except ε Unit} :
  l.forM f = .ok () ↔ ∀ a ∈ l, f a = .ok ()
  := by
  induction l with
  | nil => simp [pure, Except.pure]
  | cons a rest ih =>
      rw [List.forM, bind_eq_ok_iff, List.forall_mem_cons, ← ih]
      constructor
      · rintro ⟨⟨⟩, ha, hrest⟩
        exact ⟨ha, hrest⟩
      · rintro ⟨ha, hrest⟩
        exact ⟨(), ha, hrest⟩

/-- A list of computations succeeds exactly if each of them does. -/
theorem mapM_eq_ok_iff {l : List α} {f : α → Except ε β} {bs : List β} :
  l.mapM f = .ok bs ↔ List.Forall₂ (fun a b => f a = .ok b) l bs
  := by
  induction l generalizing bs with
  | nil => simp [pure, Except.pure, eq_comm]
  | cons a rest ih =>
      simp only [List.mapM_cons, bind_eq_ok_iff, ih, List.forall₂_cons_left_iff]
      constructor
      · rintro ⟨b, hb, bs, hbs, ⟨⟩⟩
        exact ⟨b, bs, hb, hbs, rfl⟩
      · rintro ⟨b, bs, hb, hbs, rfl⟩
        exact ⟨b, hb, bs, hbs, rfl⟩

/-- The values of a list of computations, if they are known. -/
theorem map_eq_of_mapM_eq_ok {l : List α} {f : α → Except ε β} {bs : List β} {g : α → Option β}
    (hok : l.mapM f = .ok bs) (h : ∀ a ∈ l, ∃ b, f a = .ok b ∧ g a = some b) :
  l.map g = bs.map some
  := by
  induction mapM_eq_ok_iff.mp hok with
  | nil => rfl
  | cons hfirst hrest ih =>
      obtain ⟨⟨b, hb, hg⟩, hothers⟩ := List.forall_mem_cons.mp h
      rw [List.map_cons, List.map_cons, ih (mapM_eq_ok_iff.mpr hrest) hothers, hg,
        Except.ok.inj (hb.symm.trans hfirst)]

theorem eq_map_of_mapM_eq_ok {l : List α} {f : α → Except ε β} {bs : List β} {g : α → β}
    (hok : l.mapM f = .ok bs) (h : ∀ a ∈ l, ∀ b, f a = .ok b → b = g a) :
  bs = l.map g
  := by
  induction mapM_eq_ok_iff.mp hok with
  | nil => rfl
  | cons hfirst hrest ih =>
      obtain ⟨hg, hothers⟩ := List.forall_mem_cons.mp h
      rw [List.map_cons, hg _ hfirst, ih (mapM_eq_ok_iff.mpr hrest) hothers]

/-- A list of computations that have values has the values. -/
theorem exists_mapM_eq_ok {l : List α} {f : α → Except ε β} (h : ∀ a ∈ l, ∃ b, f a = .ok b) :
  ∃ bs, l.mapM f = .ok bs
  := by
  have hmapM : Meets (l.mapM f) (List.Forall₂ (fun _ _ => True) l) (fun _ => False) := by
    apply Meets.mapM
    intro a ha
    obtain ⟨b, hb⟩ := h a ha
    rw [hb]
    trivial
  obtain ⟨bs, hbs, -⟩ := Meets.never_iff.mp hmapM
  exact ⟨bs, hbs⟩

/-- Choosing between a value and an error. -/
theorem ite_ok_eq_ok_iff {p : Prop} [Decidable p] {e : ε} {a b : α} :
  (if p then .ok a else .error e) = (.ok b : Except ε α) ↔ p ∧ a = b
  := by
  by_cases hp : p
  · simp [hp]
  · simp [hp]

theorem ite_error_eq_ok_iff {p : Prop} [Decidable p] {e : ε} {x : Except ε α} {b : α} :
  (if p then .error e else x) = .ok b ↔ ¬ p ∧ x = .ok b
  := by
  by_cases hp : p
  · simp [hp]
  · simp [hp]

/-! ### Errors of other kinds -/

/-- What a computation on a patch meets in a compilation. -/
theorem Meets.liftPatch {x : Except PatchError α} {bad : CompileError → Prop}
    (hx : Meets x good (fun e => bad (.patch e))) :
  Meets (liftM x : Except CompileError α) good bad
  := Meets.mapError_iff.mpr hx

theorem liftPatch_eq_ok_iff {x : Except PatchError α} {a : α} :
  (liftM x : Except CompileError α) = .ok a ↔ x = .ok a
  := by
  cases x with
  | ok b =>
      show Except.ok b = _ ↔ _
      simp
  | error e =>
      show Except.error (CompileError.patch e) = _ ↔ _
      simp

theorem liftSymbol_eq_ok_iff {x : Except SymbolError α} {a : α} :
  (liftM x : Except CompileError α) = .ok a ↔ x = .ok a
  := by
  cases x with
  | ok b =>
      show Except.ok b = _ ↔ _
      simp
  | error e =>
      show Except.error (CompileError.symbol e) = _ ↔ _
      simp

/-- What a computation on names meets in a compilation. -/
theorem Meets.liftSymbol {x : Except SymbolError α} {bad : CompileError → Prop}
    (hx : Meets x good (fun e => bad (.symbol e))) :
  Meets (liftM x : Except CompileError α) good bad
  := Meets.mapError_iff.mpr hx

end AudioPatch
