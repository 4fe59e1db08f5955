import ArkInC.ForStd.Except

/-!
# Programs on states that stand for abstract states

`Refines rel x t Q` says what the program `x` does to an abstract state: started in any state
that stands for `t`, it completes, and its final state stands for one that `Q` relates to the
result. A program is refined piece by piece, with `Refines.bind` where one is run after another.
-/

universe u

variable {σ τ ε α β : Type u} {rel : σ → τ → Prop} {x : StateT σ (Except ε) α}
  {k : α → StateT σ (Except ε) β} {t : τ} {Q Q' : α → τ → Prop} {R : β → τ → Prop}

/-- From a state that stands for `t`, `x` reaches one that stands for some `t'` with `Q r t'`,
    where `r` is its result. -/
def Refines (rel : σ → τ → Prop) (x : StateT σ (Except ε) α) (t : τ) (Q : α → τ → Prop) : Prop :=
  ∀ s, rel s t → ∃ r s' t', x.run s = .ok (r, s') ∧ rel s' t' ∧ Q r t'

namespace Refines

theorem pure {r : α} (h : Q r t) : Refines (ε := ε) rel (pure r) t Q :=
  fun s hs => ⟨r, s, t, rfl, hs, h⟩

theorem mono (h : Refines rel x t Q) (hQ : ∀ r t', Q r t' → Q' r t') : Refines rel x t Q' := by
  intro s hs
  obtain ⟨r, s', t', hrun, hs', hr⟩ := h s hs
  exact ⟨r, s', t', hrun, hs', hQ r t' hr⟩

theorem bind (hx : Refines rel x t Q) (hk : ∀ r t', Q r t' → Refines rel (k r) t' R) :
    Refines rel (x >>= k) t R := by
  intro s hs
  obtain ⟨r, s', t', hrun, hs', hr⟩ := hx s hs
  obtain ⟨r', s'', t'', hrun', hs'', hr'⟩ := hk r t' hr s' hs'
  exact ⟨r', s'', t'', by rw [StateT.run_bind, hrun]; exact hrun', hs'', hr'⟩

/-- A program that only reads: the abstract state stays. -/
theorem of_run {r : α} (h : ∀ s, rel s t → x.run s = .ok (r, s)) (hQ : Q r t) :
    Refines rel x t Q :=
  fun s hs => ⟨r, s, t, h s hs, hs, hQ⟩

/-- A program with one possible result and one possible abstract state afterwards. -/
theorem of_step {r : α} {t' : τ} (h : ∀ s, rel s t → ∃ s', x.run s = .ok (r, s') ∧ rel s' t')
    (hQ : Q r t') : Refines rel x t Q := by
  intro s hs
  obtain ⟨s', hrun, hs'⟩ := h s hs
  exact ⟨r, s', t', hrun, hs', hQ⟩

end Refines
