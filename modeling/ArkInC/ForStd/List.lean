import Mathlib.Data.List.Nodup
import Mathlib.Data.List.TakeWhile
import Mathlib.Order.Bounds.Basic

/-!
# Separators, replaced and erased elements, and the last element above a start

Lists in front of their first separator, and lists in which an element is replaced or erased.

A loop that keeps a candidate and replaces it by every element that beats the *start*,
rather than the candidate, ends with the last such element. `lastAbove` is that result
as a function of the list, and `isGreatest_lastAbove_iff` says when it is nevertheless
the greatest.
-/

namespace List

variable {α β : Type*}

/-! ## In front of a separator -/

section

variable [DecidableEq α] {sep : α} {l : List α}

/-- The search for a separator passes a list without it. -/
private theorem decide_ne_of_not_mem (h : sep ∉ l) : ∀ x ∈ l, decide (x ≠ sep) = true :=
  fun _ hx => decide_eq_true fun heq => h (heq ▸ hx)

theorem takeWhile_ne_append (h : sep ∉ l) (rest : List α) :
    (l ++ rest).takeWhile (· ≠ sep) = l ++ rest.takeWhile (· ≠ sep) :=
  takeWhile_append_of_pos (decide_ne_of_not_mem h)

theorem dropWhile_ne_append (h : sep ∉ l) (rest : List α) :
    (l ++ rest).dropWhile (· ≠ sep) = rest.dropWhile (· ≠ sep) :=
  dropWhile_append_of_pos (decide_ne_of_not_mem h)

/-- A list stands in front of the separator behind it. -/
theorem takeWhile_ne_append_cons (h : sep ∉ l) (rest : List α) :
    (l ++ sep :: rest).takeWhile (· ≠ sep) = l := by
  rw [takeWhile_ne_append h, takeWhile_cons_of_neg (by simp), append_nil]

/-- What stands in front of the first separator is everything if there is none. -/
theorem takeWhile_ne_eq_self_iff : l.takeWhile (· ≠ sep) = l ↔ sep ∉ l := by
  rw [takeWhile_eq_self_iff]
  constructor
  · intro h hsep
    simpa using h sep hsep
  · exact decide_ne_of_not_mem

end

/-! ## Replacing or erasing an element -/

/-- A `foldl` that replaces its accumulator by every match ends with the last match. -/
theorem foldl_ite_eq_getLastD (p : α → Prop) [DecidablePred p] (l : List α) (init : α) :
    l.foldl (fun acc x => if p x then x else acc) init = (l.filter p).getLastD init := by
  induction l generalizing init with
  | nil => rfl
  | cons x l ih =>
    rw [foldl_cons, ih]
    -- a match becomes the accumulator, whatever it was
    by_cases hx : p x
    · rw [if_pos hx, filter_cons_of_pos (by simpa using hx), getLastD_cons]
    · rw [if_neg hx, filter_cons_of_neg (by simpa using hx)]

variable [LinearOrder β] (f : α → β) (s : α) (l : List α)

/-- The elements whose key is above that of `s`. -/
def above : List α := l.filter fun x => f s < f x

/-- The last element whose key is above that of `s`, or `s` if there is none. -/
def lastAbove : α := (l.above f s).getLastD s

variable {f s l}

theorem mem_above {x : α} : x ∈ l.above f s ↔ x ∈ l ∧ f s < f x := by
  simp [above]

theorem lastAbove_of_getLast?_eq_some {x : α} (h : (l.above f s).getLast? = some x) :
    l.lastAbove f s = x := by
  rw [lastAbove, getLastD_eq_getLast?, h, Option.getD_some]

theorem lastAbove_of_above_eq_nil (h : l.above f s = []) : l.lastAbove f s = s := by
  rw [lastAbove, h, getLastD_nil]

/-- A property of the last element above `s`. -/
theorem lastAbove_iff {P : α → Prop} :
    P (l.lastAbove f s) ↔
      (l.above f s = [] → P s) ∧ ∀ last ∈ (l.above f s).getLast?, P last := by
  cases h : (l.above f s).getLast? with
  | none =>
    -- nothing is above `s`, so only the first clause says something
    have hnil := getLast?_eq_none_iff.mp h
    simp [lastAbove_of_above_eq_nil hnil, hnil]
  | some x =>
    have hne : l.above f s ≠ [] := fun hnil => by simp [hnil] at h
    simp [lastAbove_of_getLast?_eq_some h, hne]

/-- The last element above `s` is `s` itself or an element of the list. -/
theorem lastAbove_eq_or_mem : l.lastAbove f s = s ∨ l.lastAbove f s ∈ l := by
  cases h : (l.above f s).getLast? with
  | none => exact .inl (lastAbove_of_above_eq_nil (getLast?_eq_none_iff.mp h))
  | some x =>
    rw [lastAbove_of_getLast?_eq_some h]
    exact .inr (mem_above.mp (mem_of_getLast? h)).1

/-- The last element above `s` has the greatest key of `s` and the list exactly when no
    element above `s` has a greater one. -/
theorem isGreatest_lastAbove_iff :
    IsGreatest (insert (f s) {b | ∃ x ∈ l, f x = b}) (f (l.lastAbove f s)) ↔
      ∀ last ∈ (l.above f s).getLast?, ∀ x ∈ l.above f s, f x ≤ f last := by
  constructor
  · intro hmax last hlast x hx
    rw [← lastAbove_of_getLast?_eq_some hlast]
    exact hmax.2 (.inr ⟨x, (mem_above.mp hx).1, rfl⟩)
  · intro hlast
    constructor
    · rcases lastAbove_eq_or_mem (f := f) (s := s) (l := l) with h | h
      · exact .inl (congrArg f h)
      · exact .inr ⟨_, h, rfl⟩
    · -- an element that is not above `s` is below whatever was chosen
      have hstart : f s ≤ f (l.lastAbove f s) := by
        cases h : (l.above f s).getLast? with
        | none => rw [lastAbove_of_above_eq_nil (getLast?_eq_none_iff.mp h)]
        | some x =>
          rw [lastAbove_of_getLast?_eq_some h]
          exact (mem_above.mp (mem_of_getLast? h)).2.le
      rintro b (rfl | ⟨x, hx, rfl⟩)
      · exact hstart
      · by_cases hs : f s < f x
        · have habove : x ∈ l.above f s := mem_above.mpr ⟨hx, hs⟩
          obtain ⟨last, hlast'⟩ :=
            Option.isSome_iff_exists.mp (getLast?_isSome.mpr (ne_nil_of_mem habove))
          rw [lastAbove_of_getLast?_eq_some hlast']
          exact hlast last hlast' x habove
        · exact (not_lt.mp hs).trans hstart

end List
