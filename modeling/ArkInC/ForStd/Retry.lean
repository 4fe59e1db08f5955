import ArkInC.ForStd.Except
import Mathlib.Data.Nat.Find
import Mathlib.Order.Bounds.Basic

/-!
# Trying again until an answer is accepted

`retry` makes numbered attempts, a bounded number of them, and stops at the first one
whose answer is accepted. An attempt that fails altogether ends it.

## Key results

- `retry_eq_some_iff`: the attempt it stops at is the first one that is accepted
- `retry_eq_none_iff`: it gives up when every attempt was rejected
-/

universe u v

variable {ε : Type u} {α : Type v} (attempt : Nat → Except ε α) (accept : α → Prop)

/-- Attempt `k` was answered, and the answer was not accepted. -/
def Rejected (k : Nat) : Prop := ∃ answer, attempt k = .ok answer ∧ ¬ accept answer

variable {attempt accept} {n i j : Nat} {answer : α}

theorem Rejected.not_accept (hrejected : Rejected attempt accept i) (h : attempt i = .ok answer) :
    ¬ accept answer := by
  obtain ⟨answer', hanswer', hreject⟩ := hrejected
  rwa [← Except.ok.inj (hanswer'.symm.trans h)]

variable (attempt accept)

/-- An attempt fails, is accepted or is rejected. -/
theorem attempt_cases (i : Nat) :
    (∃ e, attempt i = .error e) ∨ (∃ answer, attempt i = .ok answer ∧ accept answer) ∨
      Rejected attempt accept i := by
  cases h : attempt i with
  | error e => exact .inl ⟨e, rfl⟩
  | ok answer =>
    by_cases haccept : accept answer
    · exact .inr (.inl ⟨answer, rfl, haccept⟩)
    · exact .inr (.inr ⟨answer, h, haccept⟩)

variable [DecidablePred accept]

/-- Makes attempts `i`, `i + 1` and so on, at most `n` of them: the number and the answer
    of the first that is accepted. -/
def retry : (n i : Nat) → Except ε (Option (Nat × α))
  | 0, _ => .ok none
  | n + 1, i => do
    let answer ← attempt i
    if accept answer then return some (i, answer) else retry n (i + 1)

variable {attempt accept}

theorem retry_of_accept (h : attempt i = .ok answer) (haccept : accept answer) :
    retry attempt accept (n + 1) i = .ok (some (i, answer)) := by
  rw [retry, h, Except.ok_bind, if_pos haccept, Except.pure_eq]

theorem retry_of_rejected (h : Rejected attempt accept i) :
    retry attempt accept (n + 1) i = retry attempt accept n (i + 1) := by
  obtain ⟨answer, hanswer, hreject⟩ := h
  rw [retry, hanswer, Except.ok_bind, if_neg hreject]

theorem retry_of_error {e : ε} (h : attempt i = .error e) :
    retry attempt accept (n + 1) i = .error e := by
  rw [retry, h, Except.error_bind]

/-- `retry` stops at the first attempt that is accepted. -/
theorem retry_eq_some_iff :
    retry attempt accept n i = .ok (some (j, answer)) ↔
      i ≤ j ∧ j < i + n ∧ (∀ k, i ≤ k → k < j → Rejected attempt accept k) ∧
        attempt j = .ok answer ∧ accept answer := by
  induction n generalizing i with
  | zero =>
    simp only [retry, Except.ok.injEq, reduceCtorEq, false_iff]
    omega
  | succ n ih =>
    -- induction on the attempts that are left: look at the first of them
    rcases attempt_cases attempt accept i with ⟨e, he⟩ | ⟨answer', hanswer', haccept⟩ | hrejected
    · rw [retry_of_error he]
      refine iff_of_false nofun ?_
      intro h
      obtain ⟨hij, -, hbefore, hanswer, -⟩ := h
      -- attempt `i` is `j`, or it came before and was rejected: it was answered
      rcases Nat.eq_or_lt_of_le hij with rfl | hlt
      · exact nomatch he.symm.trans hanswer
      · obtain ⟨_, hi, _⟩ := hbefore i le_rfl hlt
        exact nomatch he.symm.trans hi
    · rw [retry_of_accept hanswer' haccept]
      constructor
      · intro h
        cases h
        exact ⟨le_rfl, by omega, fun k _ _ => by omega, hanswer', haccept⟩
      · intro h
        obtain ⟨hij, -, hbefore, hanswer, -⟩ := h
        rcases Nat.eq_or_lt_of_le hij with rfl | hlt
        · rw [Except.ok.inj (hanswer'.symm.trans hanswer)]
        -- an accepted attempt is not passed over
        · exact absurd haccept ((hbefore i le_rfl hlt).not_accept hanswer')
    · rw [retry_of_rejected hrejected, ih]
      constructor
      · intro h
        obtain ⟨hij, hjn, hbefore, hanswer, haccept⟩ := h
        refine ⟨by omega, by omega, fun k hik hkj => ?_, hanswer, haccept⟩
        rcases Nat.eq_or_lt_of_le hik with rfl | hlt
        · exact hrejected
        · exact hbefore k hlt hkj
      · intro h
        obtain ⟨hij, hjn, hbefore, hanswer, haccept⟩ := h
        have hne : i ≠ j := by
          rintro rfl
          exact hrejected.not_accept hanswer haccept
        exact ⟨by omega, by omega, fun k hik hkj => hbefore k (by omega) hkj, hanswer, haccept⟩

/-- `retry` gives up when every attempt was rejected. -/
theorem retry_eq_none_iff :
    retry attempt accept n i = .ok none ↔
      ∀ k, i ≤ k → k < i + n → Rejected attempt accept k := by
  induction n generalizing i with
  | zero => exact iff_of_true rfl fun k _ _ => by omega
  | succ n ih =>
    rcases attempt_cases attempt accept i with ⟨e, he⟩ | ⟨answer, hanswer, haccept⟩ | hrejected
    · rw [retry_of_error he]
      refine iff_of_false nofun fun h => ?_
      obtain ⟨_, hi, _⟩ := h i le_rfl (by omega)
      exact nomatch he.symm.trans hi
    · rw [retry_of_accept hanswer haccept]
      refine iff_of_false nofun fun h => ?_
      exact (h i le_rfl (by omega)).not_accept hanswer haccept
    · rw [retry_of_rejected hrejected, ih]
      constructor
      · intro h k hik hkn
        rcases Nat.eq_or_lt_of_le hik with rfl | hlt
        · exact hrejected
        · exact h k hlt (by omega)
      · exact fun h k hik hkn => h k (by omega) (by omega)

/-! ## Attempts that never fail -/

variable {answers : Nat → α}

/-- When every attempt is answered, `retry` stops at the least accepted one. -/
theorem retry_ok_eq_some_iff :
    retry (fun k => (.ok (answers k) : Except ε α)) accept n 0 = .ok (some (j, answer)) ↔
      IsLeast {k | k < n ∧ accept (answers k)} j ∧ answer = answers j := by
  rw [retry_eq_some_iff]
  constructor
  · intro h
    obtain ⟨-, hj, hbefore, hanswer, haccept⟩ := h
    obtain rfl := Except.ok.inj hanswer
    refine ⟨⟨⟨by omega, haccept⟩, fun k hk => not_lt.mp fun hkj => ?_⟩, rfl⟩
    exact (hbefore k (Nat.zero_le k) hkj).not_accept rfl hk.2
  · intro h
    obtain ⟨⟨⟨hj, haccept⟩, hleast⟩, rfl⟩ := h
    refine ⟨Nat.zero_le j, by omega, fun k _ hkj => ⟨_, rfl, fun hk => ?_⟩, rfl, haccept⟩
    exact absurd (hleast ⟨hkj.trans hj, hk⟩) (not_le.mpr hkj)

/-- It gives up when none is accepted. -/
theorem retry_ok_eq_none_iff :
    retry (fun k => (.ok (answers k) : Except ε α)) accept n 0 = .ok none ↔
      ∀ k < n, ¬ accept (answers k) := by
  rw [retry_eq_none_iff]
  constructor
  · exact fun h k hk => (h k (Nat.zero_le k) (by omega)).not_accept rfl
  · exact fun h k _ hk => ⟨_, rfl, h k (by omega)⟩

/-- One of the two happens. -/
theorem retry_ok_cases (ε : Type u) (answers : Nat → α) (accept : α → Prop)
    [DecidablePred accept] (n : Nat) :
    (∀ k < n, ¬ accept (answers k)) ∨
      ∃ j, IsLeast {k | k < n ∧ accept (answers k)} j ∧
        retry (fun k => (.ok (answers k) : Except ε α)) accept n 0 = .ok (some (j, answers j)) := by
  by_cases h : ∃ k, k < n ∧ accept (answers k)
  · have hleast : IsLeast {k | k < n ∧ accept (answers k)} (Nat.find h) :=
      ⟨Nat.find_spec h, fun _ hk => Nat.find_min' h hk⟩
    exact .inr ⟨_, hleast, retry_ok_eq_some_iff.mpr ⟨hleast, rfl⟩⟩
  · exact .inl fun k hk haccept => h ⟨k, hk, haccept⟩
