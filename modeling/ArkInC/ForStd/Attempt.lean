import ArkInC.ForStd.Except

/-!
# Attempts

An `Attempt` changes a state and says whether it succeeded; it may also be stopped by an
error. `f.Runs s Q E` is its specification from the state `s`: no error stops it, `Q` holds of
the state after a success, and a failure means `E`.

## Key results

- `Runs.andThen`: two attempts in sequence, the second only after a success
- `Runs.mono`: weaker conclusions
-/

/-- Changes a state, and says whether it succeeded. -/
abbrev Attempt (ε σ : Type*) := σ → Except ε (Bool × σ)

namespace Attempt

variable {ε σ : Type*}

/-- `if (!first(s)) { return false; }`, and then `second(s)`. -/
def andThen (first second : Attempt ε σ) : Attempt ε σ := fun s => do
  let (ok, s) ← first s
  if ok then second s else return (false, s)

/-- Succeeds and changes nothing. -/
def done : Attempt ε σ := fun s => .ok (true, s)

/-- From `s` on no error stops `f`; it ends in a `Q` state, or fails, which means `E`. -/
def Runs (f : Attempt ε σ) (s : σ) (Q : σ → Prop) (E : Prop) : Prop :=
  ∃ ok s', f s = .ok (ok, s') ∧ (ok = true → Q s') ∧ (ok = false → E)

variable {f g : Attempt ε σ} {s : σ} {Q R : σ → Prop} {E F : Prop}

theorem runs_success {s' : σ} (h : f s = .ok (true, s')) (hQ : Q s') : f.Runs s Q E :=
  ⟨true, s', h, fun _ => hQ, fun hfalse => absurd hfalse (by decide)⟩

theorem runs_failure {s' : σ} (h : f s = .ok (false, s')) (hE : E) : f.Runs s Q E :=
  ⟨false, s', h, fun htrue => absurd htrue (by decide), fun _ => hE⟩

theorem runs_done (h : Q s) : (done : Attempt ε σ).Runs s Q E := runs_success rfl h

/-- Only what `f` does from `s` matters. -/
theorem Runs.congr (h : f s = g s) (hg : g.Runs s Q E) : f.Runs s Q E := by
  rwa [Runs, h]

theorem Runs.mono (h : f.Runs s Q E) (hQ : ∀ s', Q s' → R s') (hE : E → F) : f.Runs s R F := by
  obtain ⟨ok, s', hf, hsuccess, hfailure⟩ := h
  exact ⟨ok, s', hf, fun hok => hQ s' (hsuccess hok), fun hok => hE (hfailure hok)⟩

/-- A sequence fails in its first part, or in its second from the state the first led to. -/
theorem Runs.andThen (hf : f.Runs s Q E) (hg : ∀ s', Q s' → g.Runs s' R E) :
    (f.andThen g).Runs s R E := by
  obtain ⟨ok, s', hrun, hsuccess, hfailure⟩ := hf
  cases ok with
  | false => exact runs_failure (by rw [Attempt.andThen, hrun]; rfl) (hfailure rfl)
  | true =>
    obtain ⟨ok, s'', hrun', hgoal⟩ := hg s' (hsuccess rfl)
    exact ⟨ok, s'', by rw [Attempt.andThen, hrun]; exact hrun', hgoal⟩

end Attempt
