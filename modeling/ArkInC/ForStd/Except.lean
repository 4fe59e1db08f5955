import Mathlib.Logic.Basic

/-!
# Computations that complete

`x.Completes` says that `x` returns a value. With `bind_eq_ok` and `completes_bind` a
`do` block is taken apart step by step, without unfolding the monad.
-/

namespace Except

universe u v

variable {ε : Type u} {α β : Type v}

/-- `x` returns a value. -/
def Completes (x : Except ε α) : Prop := ∃ v, x = .ok v

@[simp] theorem ok_bind (v : α) (f : α → Except ε β) : (ok v >>= f) = f v := rfl

@[simp] theorem error_bind (e : ε) (f : α → Except ε β) : (error e >>= f) = error e := rfl

@[simp] theorem pure_eq (v : α) : (pure v : Except ε α) = ok v := rfl

/-- A sequence returns what its second part makes of the value of the first. -/
theorem bind_eq_ok {x : Except ε α} {f : α → Except ε β} {w : β} :
    (x >>= f) = ok w ↔ ∃ v, x = ok v ∧ f v = ok w := by
  cases x with
  | error e => simp
  | ok v => simp

/-- A sequence fails in its first part, or in its second on the value of the first. -/
theorem bind_eq_error {x : Except ε α} {f : α → Except ε β} {e : ε} :
    (x >>= f) = error e ↔ x = error e ∨ ∃ v, x = ok v ∧ f v = error e := by
  cases x with
  | error e => simp
  | ok v => simp

@[simp] theorem completes_ok (v : α) : (ok v : Except ε α).Completes := ⟨v, rfl⟩

@[simp] theorem not_completes_error (e : ε) : ¬ (error e : Except ε α).Completes := by
  intro hcompletes
  obtain ⟨v, h⟩ := hcompletes
  exact nomatch h

/-- A sequence completes when its first part does and its second part does on the value
    of the first. -/
theorem completes_bind {x : Except ε α} {f : α → Except ε β} :
    (x >>= f).Completes ↔ ∃ v, x = ok v ∧ (f v).Completes := by
  cases x with
  | error e => simp
  | ok v => simp

/-- A map completes when its argument does. -/
@[simp] theorem completes_bind_pure {x : Except ε α} {f : α → β} :
    (x >>= fun v => ok (f v)).Completes ↔ x.Completes := by
  cases x with
  | error e => simp
  | ok v => simp

end Except
