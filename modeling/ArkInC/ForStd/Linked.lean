import Mathlib.Data.List.Induction
import Mathlib.Logic.Function.Basic
import Mathlib.Tactic.SplitIfs

/-!
# Doubly linked lists

`Linked next prev before xs after` says that the pointers `next` and `prev` thread the
elements of `xs`: the first one points back to `before`, the last one on to `after`.

- `linked_append`: a list is threaded if its halves are, and point at each other
- `Linked.splice`: what is left is threaded after an element has been taken out and another
  one put in its place
-/

variable {P : Type*} {next prev next' prev' : P → Option P} {before after : Option P} {p : P}
  {xs ys : List P}

def Linked (next prev : P → Option P) : Option P → List P → Option P → Prop
  | _, [], _ => True
  | before, p :: xs, after =>
    prev p = before ∧ next p = xs.head?.or after ∧ Linked next prev (some p) xs after

@[simp] theorem linked_nil : Linked next prev before [] after := trivial

@[simp] theorem linked_cons : Linked next prev before (p :: xs) after ↔
    prev p = before ∧ next p = xs.head?.or after ∧ Linked next prev (some p) xs after := Iff.rfl

@[simp] theorem linked_append : Linked next prev before (xs ++ ys) after ↔
    Linked next prev before xs (ys.head?.or after) ∧
      Linked next prev (xs.getLast?.or before) ys after := by
  induction xs generalizing before with
  | nil => simp
  | cons p xs ih =>
    -- the last element of `p :: xs` is `p` itself if there is no other
    have hlast : (p :: xs).getLast?.or before = xs.getLast?.or (some p) := by
      simp [List.getLast?_cons]
    rw [List.cons_append, linked_cons, linked_cons, ih, hlast, List.head?_append, Option.or_assoc]
    simp only [and_assoc]

namespace Linked

/-- Only the pointers of the elements count. -/
theorem congr (h : Linked next prev before xs after)
    (hnext : ∀ q ∈ xs, next' q = next q) (hprev : ∀ q ∈ xs, prev' q = prev q) :
    Linked next' prev' before xs after := by
  induction xs generalizing before with
  | nil => trivial
  | cons p xs ih =>
    obtain ⟨hp, hn, h⟩ := h
    refine ⟨(hprev p (by simp)).trans hp, (hnext p (by simp)).trans hn, ih h ?_ ?_⟩
    · exact fun q hq => hnext q (by simp [hq])
    · exact fun q hq => hprev q (by simp [hq])

/-- Points the last element somewhere else. -/
theorem redirect_last (h : Linked next prev before xs after) {after' : Option P}
    (hnext : ∀ q ∈ xs, q ∉ xs.getLast? → next' q = next q)
    (hlast : ∀ q ∈ xs.getLast?, next' q = after')
    (hprev : ∀ q ∈ xs, prev' q = prev q) (hnodup : xs.Nodup) :
    Linked next' prev' before xs after' := by
  induction xs using List.reverseRecOn with
  | nil => trivial
  | append_singleton ys l _ =>
    simp only [linked_append, linked_cons, linked_nil] at h ⊢
    -- the last element stands nowhere else
    have hl : l ∉ ys := by
      rw [List.nodup_append] at hnodup
      exact fun hmem => hnodup.2.2 l hmem l (by simp) rfl
    refine ⟨h.1.congr ?_ (fun q hq => hprev q (by simp [hq])), ?_, hlast l (by simp), trivial⟩
    · intro q hq
      refine hnext q (by simp [hq]) ?_
      rw [List.getLast?_concat]
      rintro ⟨⟩
      exact hl hq
    · exact (hprev l (by simp)).trans h.2.1

/-- Points the first element back at something else. -/
theorem redirect_first (h : Linked next prev before xs after) {before' : Option P}
    (hprev : ∀ q ∈ xs, q ∉ xs.head? → prev' q = prev q)
    (hfirst : ∀ q ∈ xs.head?, prev' q = before')
    (hnext : ∀ q ∈ xs, next' q = next q) (hnodup : xs.Nodup) :
    Linked next' prev' before' xs after := by
  cases xs with
  | nil => trivial
  | cons p xs =>
    refine ⟨hfirst p (by simp), (hnext p (by simp)).trans h.2.1, h.2.2.congr ?_ ?_⟩
    · exact fun q hq => hnext q (by simp [hq])
    · intro q hq
      refine hprev q (by simp [hq]) ?_
      rintro ⟨⟩
      exact (List.nodup_cons.mp hnodup).1 hq

end Linked

/-! ## Taking out and putting in -/

section Splice

variable [DecidableEq P] {pre post : List P} {out inn : Option P}

/-- Changes the pointer of the element at `q`, if there is one. -/
def relink (f : P → Option P) (q v : Option P) : P → Option P :=
  match q with
  | none => f
  | some q => Function.update f q v

theorem relink_apply (f : P → Option P) (q v : Option P) (p : P) :
    relink f q v p = if q = some p then v else f p := by
  cases q with
  | none => rfl
  | some q => simp [relink, Function.update_apply, eq_comm]

@[simp] theorem relink_none (f : P → Option P) (v : Option P) : relink f none v = f := rfl

theorem relink_of_ne (f : P → Option P) {q v : Option P} {p : P} (hne : ¬ q = some p) :
    relink f q v p = f p := by
  rw [relink_apply, if_neg hne]

theorem relink_eq_self {f : P → Option P} {v : Option P} {p : P} (h : f p = v) :
    relink f (some p) v = f := by
  rw [relink, ← h, Function.update_eq_self]

/-- The pointers of different elements may be changed in any order. -/
theorem relink_comm (f : P → Option P) {q r : Option P} (v w : Option P)
    (hne : ∀ p ∈ q, p ∉ r) : relink (relink f q v) r w = relink (relink f r w) q v := by
  funext p
  simp only [relink_apply]
  split_ifs with hr hq
  · exact absurd hr (hne p hq)
  all_goals rfl

/-- The pointers `next` after `out` is taken from between `pre` and `post`, and `inn` is put
    there. -/
def spliceNext (next : P → Option P) (pre : List P) (out inn : Option P) (post : List P) :
    P → Option P :=
  relink (relink (relink next pre.getLast? (inn.or post.head?)) out none) inn post.head?

/-- The pointers `prev` after the same. -/
def splicePrev (prev : P → Option P) (pre : List P) (out inn : Option P) (post : List P) :
    P → Option P :=
  relink (relink (relink prev post.head? (inn.or pre.getLast?)) out none) inn pre.getLast?

/-- The pointers of the new element may be written first, and those of the old one last. -/
theorem relink_eq_spliceNext {x y : P} (hxy : x ≠ y) (hlast : ¬ pre.getLast? = some y) :
    relink (relink (relink next (some y) post.head?) pre.getLast? (some y)) (some x) none =
      spliceNext next pre (some x) (some y) post := by
  rw [relink_comm next _ _ (by rintro p ⟨⟩; exact hlast),
    relink_comm _ post.head? none (by rintro p ⟨⟩ ⟨⟩; exact hxy rfl)]
  rfl

theorem relink_eq_splicePrev {x y : P} (hxy : x ≠ y) (hfirst : ¬ post.head? = some y) :
    relink (relink (relink prev (some y) pre.getLast?) post.head? (some y)) (some x) none =
      splicePrev prev pre (some x) (some y) post := by
  rw [relink_comm prev _ _ (by rintro p ⟨⟩; exact hfirst),
    relink_comm _ pre.getLast? none (by rintro p ⟨⟩ ⟨⟩; exact hxy rfl)]
  rfl

theorem spliceNext_of_not_mem {q : P} (hin : inn ≠ some q)
    (hq : q ∉ pre ++ out.toList ++ post) : spliceNext next pre out inn post q = next q := by
  have hout : out ≠ some q := by rintro rfl; simp at hq
  have hlast : pre.getLast? ≠ some q := fun h => hq (by simp [List.mem_of_getLast? h])
  simp [spliceNext, relink_apply, hin, hout, hlast]

theorem splicePrev_of_not_mem {q : P} (hin : inn ≠ some q)
    (hq : q ∉ pre ++ out.toList ++ post) : splicePrev prev pre out inn post q = prev q := by
  have hout : out ≠ some q := by rintro rfl; simp at hq
  have hfirst : post.head? ≠ some q := fun h => hq (by simp [List.mem_of_head? h])
  simp [splicePrev, relink_apply, hin, hout, hfirst]

/-- What is left is threaded. -/
theorem Linked.splice (h : Linked next prev none (pre ++ out.toList ++ post) none)
    (hnodup : (pre ++ out.toList ++ post).Nodup) (hin : ∀ y ∈ inn, y ∉ pre ++ out.toList ++ post) :
    Linked (spliceNext next pre out inn post) (splicePrev prev pre out inn post) none
      (pre ++ inn.toList ++ post) none := by
  simp only [List.append_assoc, List.nodup_append, List.mem_append, Option.mem_toList] at hnodup
  obtain ⟨hpre, ⟨-, hpost, hsep⟩, hsep'⟩ := hnodup
  -- the three parts have no element in common, and the new one is in none of them
  have hpre_ne : ∀ q ∈ pre, inn ≠ some q ∧ out ≠ some q ∧ post.head? ≠ some q := by
    intro q hq
    refine ⟨fun he => hin q he (by simp [hq]), fun he => hsep' q hq q (.inl he) rfl, fun he => ?_⟩
    exact hsep' q hq q (.inr (List.mem_of_head? he)) rfl
  have hpost_ne : ∀ q ∈ post, inn ≠ some q ∧ out ≠ some q ∧ pre.getLast? ≠ some q := by
    intro q hq
    refine ⟨fun he => hin q he (by simp [hq]), fun he => hsep q he q hq rfl, fun he => ?_⟩
    exact hsep' q (List.mem_of_getLast? he) q (.inr hq) rfl
  rw [List.append_assoc, linked_append, linked_append] at h ⊢
  refine ⟨h.1.redirect_last ?_ ?_ ?_ hpre, ?_, h.2.2.redirect_first ?_ ?_ ?_ hpost⟩
  · intro q hq hlast
    simp [spliceNext, relink_apply, hpre_ne q hq, show ¬ pre.getLast? = some q from hlast]
  -- the last of `pre` points to what comes next, the first of `post` back
  · intro q hq
    have hmem := List.mem_of_getLast? hq
    cases inn <;> simp_all [spliceNext, relink_apply]
  · intro q hq
    simp [splicePrev, relink_apply, hpre_ne q hq]
  · cases inn <;> simp [spliceNext, splicePrev, relink_apply]
  · intro q hq hfirst
    simp [splicePrev, relink_apply, hpost_ne q hq, show ¬ post.head? = some q from hfirst]
  · intro q hq
    have hmem := List.mem_of_head? hq
    cases inn <;> simp_all [splicePrev, relink_apply]
  · intro q hq
    simp [spliceNext, relink_apply, hpost_ne q hq]

end Splice
