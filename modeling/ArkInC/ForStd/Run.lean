import Mathlib.Data.List.Basic

/-!
# Runs of a labelled step relation

A `Run` keeps every step with the states before and after it, so that a property of
whole runs can speak about the steps in them. What every step keeps, a run keeps
(`Run.invariant`), and an observation that only some labels change is at the end what
it was after the last of them (`Run.eq_or_eq_after`).
-/

variable {σ α β : Type*} {step : σ → α → σ → Prop} {s s' : σ} {steps : List (σ × α × σ)}

/-- A sequence of steps that starts in `s`, each from the state the one before it led to. -/
inductive Run (step : σ → α → σ → Prop) (s : σ) : List (σ × α × σ) → σ → Prop where
  | nil : Run step s [] s
  | snoc {steps : List (σ × α × σ)} {pre post : σ} {a : α} :
    Run step s steps pre → step pre a post → Run step s (steps ++ [(pre, a, post)]) post

namespace Run

/-- A run of one step. -/
theorem single {a : α} (h : step s a s') : Run step s [(s, a, s')] s' :=
  .snoc .nil h

/-- Every entry of a run is a step. -/
theorem step_of_mem (hrun : Run step s steps s') {pre post : σ} {a : α}
    (hmem : (pre, a, post) ∈ steps) : step pre a post := by
  induction hrun with
  | nil => exact absurd hmem List.not_mem_nil
  | snoc _ hstep ih =>
    rcases List.mem_append.mp hmem with hmem | hmem
    · exact ih hmem
    · cases List.mem_singleton.mp hmem
      exact hstep

/-- What holds at the start and is kept by every step of the run holds at its end. -/
theorem invariant {I : σ → Prop} (hrun : Run step s steps s') (hs : I s)
    (hstep : ∀ pre a post, (pre, a, post) ∈ steps → I pre → I post) : I s' := by
  induction hrun with
  | nil => exact hs
  | snoc _ _ ih =>
    -- the last step is a step of the run; the steps before it keep `I` too
    refine hstep _ _ _ (List.mem_append_right _ (List.mem_singleton_self _)) (ih ?_)
    intro pre a post hmem
    exact hstep pre a post (List.mem_append_left _ hmem)

/-- If only steps with a `marked` label change an observation, then at the end it is what
    it was at the start or what it was after a marked step. -/
theorem eq_or_eq_after (hrun : Run step s steps s') (f : σ → β) (marked : α → Prop)
    (hkeep : ∀ pre a post, (pre, a, post) ∈ steps → ¬ marked a → f post = f pre) :
    f s' = f s ∨ ∃ pre a post, (pre, a, post) ∈ steps ∧ marked a ∧ f s' = f post := by
  refine hrun.invariant (I := fun x => f x = f s ∨
    ∃ pre a post, (pre, a, post) ∈ steps ∧ marked a ∧ f x = f post) (.inl rfl) ?_
  intro pre a post hmem hpre
  by_cases ha : marked a
  · exact .inr ⟨pre, a, post, hmem, ha, rfl⟩
  · rw [hkeep pre a post hmem ha]
    exact hpre

end Run
