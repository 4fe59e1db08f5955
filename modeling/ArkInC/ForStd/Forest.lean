import Mathlib.Data.Finset.Basic
import Mathlib.Data.Finset.Max
import Mathlib.Logic.Function.Basic
import Mathlib.Logic.Relation
import Mathlib.Order.WellFounded

/-!
# Forests

A `Forest` is a finite set of nodes with their lists of children: no node stands in two
lists, or twice in one, and no node is below itself. Three operations make a forest from a
forest: `Forest.insertNew` adds a node, `Forest.setChildren` takes nodes out of a list and
puts roots into it, and `Forest.remove` drops a root with everything below it.

- `Forest.below_iff`: a node is below another if it is that node, or below one of its children
- `Forest.not_below_of_siblings`, `Forest.not_below_both`: siblings have nothing in common
- `Forest.exists_root`: every node is below a root
- `Forest.below_setChildren`: what is not above the changed list stays as it is
-/

variable {P : Type*}

/-- Nodes with lists of children. -/
@[ext] structure Forest (P : Type*) where
  live : Finset P
  children : P → List P
  nodup : ∀ p, (children p).Nodup
  live_of_mem : ∀ {p c}, c ∈ children p → p ∈ live ∧ c ∈ live
  parent_unique : ∀ {p q c}, c ∈ children p → c ∈ children q → p = q
  wf : WellFounded fun c p => c ∈ children p

namespace Forest

variable {f : Forest P} {a c d p q x : P} {xs : List P}

/-- A node that is no child. -/
def IsRoot (f : Forest P) (p : P) : Prop := p ∈ f.live ∧ ∀ q, p ∉ f.children q

/-- `q` is `p`, or a child of it, or a child of such a child, and so on. -/
def Below (f : Forest P) (q p : P) : Prop := Relation.ReflTransGen (fun c p => c ∈ f.children p) q p

@[refl, simp] theorem Below.refl : f.Below p p := Relation.ReflTransGen.refl

theorem Below.trans (h : f.Below q p) (h' : f.Below p a) : f.Below q a :=
  Relation.ReflTransGen.trans h h'

theorem below_of_mem (h : c ∈ f.children p) : f.Below c p := .single h

theorem below_iff : f.Below q p ↔ q = p ∨ ∃ c ∈ f.children p, f.Below q c := by
  constructor
  · intro h
    rcases Relation.ReflTransGen.cases_tail h with h | ⟨c, hqc, hcp⟩
    · exact .inl h.symm
    · exact .inr ⟨c, hcp, hqc⟩
  · rintro (rfl | ⟨c, hc, hqc⟩)
    · exact .refl
    · exact hqc.trans (below_of_mem hc)

/-- Either they are the same, or the parent of the one is below the other too. -/
theorem Below.eq_or_parent (h : f.Below q p) : q = p ∨ ∃ a, q ∈ f.children a ∧ f.Below a p :=
  Relation.ReflTransGen.cases_head h

theorem Below.live (h : f.Below q p) (hp : p ∈ f.live) : q ∈ f.live := by
  rcases h.eq_or_parent with rfl | ⟨a, hqa, -⟩
  · exact hp
  · exact (f.live_of_mem hqa).2

/-- No node is below a child of its own. -/
theorem not_below_of_mem (hc : c ∈ f.children p) : ¬ f.Below p c := by
  intro h
  have hcycle : Relation.TransGen (fun c p => c ∈ f.children p) p p := .tail' h hc
  exact f.wf.transGen.irrefl.irrefl p hcycle

theorem IsRoot.eq_of_below (hp : f.IsRoot p) (h : f.Below p q) : p = q := by
  rcases h.eq_or_parent with h | ⟨a, hpa, -⟩
  · exact h
  · exact absurd hpa (hp.2 a)

theorem not_below_of_siblings (hc : c ∈ f.children p) (hd : d ∈ f.children p) (hne : c ≠ d) :
    ¬ f.Below c d := by
  intro h
  rcases h.eq_or_parent with h | ⟨a, hca, had⟩
  · exact hne h
  -- the parent of `c` is `p`, which is not below `d`
  · rw [f.parent_unique hca hc] at had
    exact not_below_of_mem hd had

/-- Of two nodes above one node, one is above the other. -/
theorem Below.total (h : f.Below q c) (h' : f.Below q d) : f.Below c d ∨ f.Below d c :=
  Relation.ReflTransGen.total_of_right_unique (fun _ _ _ hb hc => f.parent_unique hb hc) h h'

/-- No node is below two children of one node. -/
theorem not_below_both (hc : c ∈ f.children p) (hd : d ∈ f.children p) (hne : c ≠ d)
    (h : f.Below q c) : ¬ f.Below q d := by
  intro h'
  rcases h.total h' with hcd | hdc
  · exact not_below_of_siblings hc hd hne hcd
  · exact not_below_of_siblings hd hc hne.symm hdc

/-- What is below the children of a node has no part in what is below another one. -/
theorem children_apart (f : Forest P) (p : P) :
    (f.children p).Pairwise fun c d => ∀ q, f.Below q c → ¬ f.Below q d :=
  (f.nodup p).imp_of_mem fun hc hd hne _ h => not_below_both hc hd hne h

/-- The nodes at the roots `xs` of subtrees, and below them. -/
noncomputable def subtrees (f : Forest P) (xs : List P) : Finset P := by
  classical exact f.live.filter fun q => ∃ x ∈ xs, f.Below q x

theorem mem_subtrees (hxs : ∀ x ∈ xs, x ∈ f.live) :
    q ∈ f.subtrees xs ↔ ∃ x ∈ xs, f.Below q x := by
  simp only [subtrees, Finset.mem_filter, and_iff_right_iff_imp]
  rintro ⟨x, hx, hqx⟩
  exact hqx.live (hxs x hx)

@[simp] theorem subtrees_nil : f.subtrees [] = ∅ := by simp [subtrees]

theorem mem_subtrees_cons (hp : p ∈ f.live) (hxs : ∀ x ∈ xs, x ∈ f.live) :
    q ∈ f.subtrees (p :: xs) ↔ q = p ∨ q ∈ f.subtrees (f.children p) ∨ q ∈ f.subtrees xs := by
  rw [mem_subtrees (by simpa [hp] using hxs), mem_subtrees hxs,
    mem_subtrees fun c hc => (f.live_of_mem hc).2]
  simp only [List.mem_cons, exists_eq_or_imp]
  rw [below_iff, or_assoc]

/-- A node is not below its own children. -/
theorem not_mem_subtrees_children : p ∉ f.subtrees (f.children p) := by
  rw [mem_subtrees fun c hc => (f.live_of_mem hc).2]
  rintro ⟨c, hc, hpc⟩
  exact not_below_of_mem hc hpc

/-- Where subtrees have nothing in common, what is in the one is not in the others. -/
theorem not_mem_subtrees_of_apart (hxs : ∀ x ∈ xs, x ∈ f.live)
    (hapart : ∀ x ∈ xs, ∀ q, f.Below q p → ¬ f.Below q x) (hq : f.Below q p) :
    q ∉ f.subtrees xs := by
  rw [mem_subtrees hxs]
  rintro ⟨x, hx, hqx⟩
  exact hapart x hx q hq hqx

/-- The node `p` and those below it. -/
noncomputable def subtree (f : Forest P) (p : P) : Finset P := f.subtrees [p]

theorem mem_subtree (hp : p ∈ f.live) : q ∈ f.subtree p ↔ f.Below q p := by
  rw [subtree, mem_subtrees (by simpa using hp)]
  simp

/-- Every node is below a root. -/
theorem exists_root (hp : p ∈ f.live) : ∃ r, f.IsRoot r ∧ f.Below p r := by
  classical
  -- of the nodes above `p`, the one with the most nodes below it has no parent
  obtain ⟨r, hr, hmax⟩ := Finset.exists_max_image (f.live.filter fun q => f.Below p q)
    (fun q => (f.subtree q).card) ⟨p, Finset.mem_filter.mpr ⟨hp, .refl⟩⟩
  obtain ⟨hlive, hpr⟩ := Finset.mem_filter.mp hr
  refine ⟨r, ⟨hlive, fun q hq => ?_⟩, hpr⟩
  have hqlive := (f.live_of_mem hq).1
  have hrq := below_of_mem hq
  have hmore : f.subtree r ⊂ f.subtree q := by
    refine Finset.ssubset_iff_subset_ne.mpr ⟨fun c hc => ?_, fun heq => ?_⟩
    · exact (mem_subtree hqlive).mpr (((mem_subtree hlive).mp hc).trans hrq)
    · have hq' : q ∈ f.subtree r := heq ▸ (mem_subtree hqlive).mpr .refl
      exact not_below_of_mem hq ((mem_subtree hlive).mp hq')
  have hle := hmax q (Finset.mem_filter.mpr ⟨hqlive, hpr.trans hrq⟩)
  exact absurd hle (Finset.card_lt_card hmore).not_ge

theorem children_of_not_live (hp : p ∉ f.live) : f.children p = [] :=
  List.eq_nil_iff_forall_not_mem.mpr fun _ hc => hp (f.live_of_mem hc).1

/-! ## Lists of children -/

/-- What makes `xs` a list of children for `a`: the children it has may stay, and roots
    that `a` is not below may come. -/
structure Settable (f : Forest P) (a : P) (xs : List P) : Prop where
  live : a ∈ f.live
  nodup : xs.Nodup
  child_or_root : ∀ x ∈ xs, x ∈ f.children a ∨ f.IsRoot x ∧ ¬ f.Below a x

theorem Settable.not_below (h : f.Settable a xs) (hx : x ∈ xs) : ¬ f.Below a x := by
  rcases h.child_or_root x hx with hx | ⟨-, hx⟩
  · exact not_below_of_mem hx
  · exact hx

theorem Settable.eq_of_mem (h : f.Settable a xs) (hx : x ∈ xs) (hq : x ∈ f.children q) :
    q = a := by
  rcases h.child_or_root x hx with hx | ⟨hroot, -⟩
  · exact f.parent_unique hq hx
  · exact absurd hq (hroot.2 q)

theorem Settable.live_of_mem (h : f.Settable a xs) (hx : x ∈ xs) : x ∈ f.live := by
  rcases h.child_or_root x hx with hx | ⟨hroot, -⟩
  · exact (f.live_of_mem hx).2
  · exact hroot.1

/-- Taking out a child and putting in a root makes a list of children. -/
theorem settable_splice {pre post : List P} {out : Option P} (inn : Option P)
    (hch : f.children a = pre ++ out.toList ++ post) (ha : a ∈ f.live)
    (hin : ∀ y ∈ inn, f.IsRoot y ∧ ¬ f.Below a y) :
    f.Settable a (pre ++ inn.toList ++ post) := by
  have hnodup := f.nodup a
  have hnew : ∀ y ∈ inn, y ∉ f.children a := fun y hy => (hin y hy).1.2 a
  rw [hch] at hnodup hnew
  refine ⟨ha, ?_, fun x hx => ?_⟩
  · simp only [List.append_assoc, List.nodup_append, List.mem_append, Option.mem_toList] at hnodup
    simp only [List.mem_append, not_or] at hnew
    -- what comes is a root, so it stood in neither part
    cases inn with
    | none =>
      refine List.nodup_append.mpr ⟨by simpa using hnodup.1, hnodup.2.1.2.1, ?_⟩
      exact fun x hx y hy => hnodup.2.2 x (by simpa using hx) y (.inr hy)
    | some z =>
      have hz := hnew z rfl
      rw [List.append_assoc, List.nodup_append]
      refine ⟨hnodup.1, by simpa using ⟨hz.2, hnodup.2.1.2.1⟩, fun x hx y hy => ?_⟩
      rcases List.mem_cons.mp hy with rfl | hy
      · rintro rfl; exact hz.1.1 hx
      · exact hnodup.2.2 x hx y (.inr hy)
  · rw [hch]
    simp only [List.mem_append, Option.mem_toList] at hx ⊢
    rcases hx with (hx | hx) | hx
    · exact .inl (.inl (.inl hx))
    · exact .inr (hin x hx)
    · exact .inl (.inr hx)

section Operations

variable [DecidableEq P]

/-! ## Adding a node -/

/-- Adds a root without children. -/
def insertNew (f : Forest P) (p : P) : Forest P where
  live := insert p f.live
  children := f.children
  nodup := f.nodup
  live_of_mem h := by simp [f.live_of_mem h]
  parent_unique := f.parent_unique
  wf := f.wf

@[simp] theorem children_insertNew : (f.insertNew p).children = f.children := rfl

@[simp] theorem below_insertNew : (f.insertNew p).Below q c ↔ f.Below q c := Iff.rfl

theorem isRoot_insertNew (hp : p ∉ f.live) :
    (f.insertNew p).IsRoot q ↔ f.IsRoot q ∨ q = p := by
  constructor
  · rintro ⟨hq, hroot⟩
    rcases Finset.mem_insert.mp hq with rfl | hq
    · exact .inr rfl
    · exact .inl ⟨hq, hroot⟩
  · rintro (⟨hq, hroot⟩ | rfl)
    · exact ⟨Finset.mem_insert_of_mem hq, hroot⟩
    · exact ⟨Finset.mem_insert_self _ _, fun _ hc => hp (f.live_of_mem hc).2⟩

/-! ## Changing a list of children -/

theorem mem_update {q : P} : c ∈ Function.update f.children a xs q ↔
    q = a ∧ c ∈ xs ∨ q ≠ a ∧ c ∈ f.children q := by
  by_cases hq : q = a
  · subst hq; simp
  · simp [hq]

/-- The nodes that are not above `a` come first in the induction, then `a`, then the rest. -/
theorem Settable.wf (h : f.Settable a xs) :
    WellFounded fun c p => c ∈ Function.update f.children a xs p := by
  have haway : ∀ p, ¬ f.Below a p →
      Acc (fun c p => c ∈ Function.update f.children a xs p) p := by
    intro p
    induction p using f.wf.induction with
    | _ p ih =>
      intro hp
      refine ⟨p, fun c hc => ?_⟩
      rcases mem_update.mp hc with ⟨rfl, -⟩ | ⟨-, hc⟩
      · exact absurd .refl hp
      · exact ih c hc fun hac => hp (hac.trans (below_of_mem hc))
  have ha : Acc (fun c p => c ∈ Function.update f.children a xs p) a := by
    refine ⟨a, fun c hc => haway c ?_⟩
    rcases mem_update.mp hc with ⟨-, hc⟩ | ⟨hne, -⟩
    · exact h.not_below hc
    · exact absurd rfl hne
  refine ⟨fun p => ?_⟩
  induction p using f.wf.induction with
  | _ p ih =>
    by_cases hp : p = a
    · exact hp ▸ ha
    · refine ⟨p, fun c hc => ih c ?_⟩
      rcases mem_update.mp hc with ⟨hpa, -⟩ | ⟨-, hc⟩
      · exact absurd hpa hp
      · exact hc

/-- Makes `xs` the children of `a`; those it had become roots unless they are among them. -/
def setChildren (f : Forest P) (a : P) (xs : List P) (h : f.Settable a xs) : Forest P where
  live := f.live
  children := Function.update f.children a xs
  nodup p := by
    by_cases hp : p = a
    · subst hp; simpa using h.nodup
    · simpa [hp] using f.nodup p
  live_of_mem hc := by
    rcases mem_update.mp hc with ⟨rfl, hxs⟩ | ⟨-, hmem⟩
    · exact ⟨h.live, h.live_of_mem hxs⟩
    · exact f.live_of_mem hmem
  parent_unique hp hq := by
    rcases mem_update.mp hp with ⟨hpa, hpx⟩ | ⟨-, hpc⟩ <;>
    rcases mem_update.mp hq with ⟨hqa, hqx⟩ | ⟨hne, hqc⟩
    · exact hpa.trans hqa.symm
    · exact absurd (h.eq_of_mem hpx hqc) hne
    · exact (h.eq_of_mem hqx hpc).trans hqa.symm
    · exact f.parent_unique hpc hqc
  wf := h.wf

@[simp] theorem live_setChildren (h : f.Settable a xs) : (f.setChildren a xs h).live = f.live :=
  rfl

@[simp] theorem children_setChildren (h : f.Settable a xs) :
    (f.setChildren a xs h).children = Function.update f.children a xs := rfl

/-- The roots are those there were, and the old children, without the new ones. -/
theorem isRoot_setChildren (h : f.Settable a xs) : (f.setChildren a xs h).IsRoot p ↔
    (f.IsRoot p ∨ p ∈ f.children a) ∧ p ∉ xs := by
  constructor
  · rintro ⟨hp, hroot⟩
    have hxs : p ∉ xs := fun hx => hroot a (mem_update.mpr (.inl ⟨rfl, hx⟩))
    refine ⟨?_, hxs⟩
    -- an old child became a root, anything else was one
    by_cases ha : p ∈ f.children a
    · exact .inr ha
    · refine .inl ⟨hp, fun q hq => ?_⟩
      have hqa : q ≠ a := by rintro rfl; exact ha hq
      exact hroot q (mem_update.mpr (.inr ⟨hqa, hq⟩))
  · rintro ⟨hp, hxs⟩
    have hlive : p ∈ f.live := by
      rcases hp with hp | hp
      · exact hp.1
      · exact (f.live_of_mem hp).2
    refine ⟨hlive, fun q hq => ?_⟩
    rcases mem_update.mp hq with ⟨-, hq⟩ | ⟨hne, hq⟩
    · exact hxs hq
    · rcases hp with hp | hp
      · exact hp.2 q hq
      · exact hne (f.parent_unique hq hp)

/-- A child stands in one place of the list, where it is erased or replaced. -/
theorem exists_split (hx : x ∈ f.children a) : ∃ pre post, f.children a = pre ++ x :: post ∧
    (f.children a).erase x = pre ++ post ∧ ∀ y, (f.children a).replace x y = pre ++ y :: post := by
  obtain ⟨pre, post, hch⟩ := List.append_of_mem hx
  have hnodup := f.nodup a
  rw [hch] at hnodup ⊢
  have hpre : x ∉ pre := by
    rw [List.nodup_append] at hnodup
    exact fun hmem => hnodup.2.2 x hmem x (by simp) rfl
  refine ⟨pre, post, rfl, ?_, fun y => ?_⟩
  · rw [List.erase_append_right _ hpre, List.erase_cons_head]
  · rw [List.replace_append_right hpre, List.replace_cons_self]

/-- A child that has been taken out is a root. -/
theorem isRoot_of_taken_out {pre post : List P} {inn : Option P}
    (hch : f.children a = pre ++ x :: post) (hset : f.Settable a (pre ++ inn.toList ++ post))
    (hin : ∀ y ∈ inn, f.IsRoot y) : (f.setChildren a _ hset).IsRoot x := by
  have hx : x ∈ f.children a := by simp [hch]
  have hnodup := f.nodup a
  rw [hch] at hnodup
  simp only [List.nodup_append, List.nodup_cons, List.mem_cons] at hnodup
  refine (isRoot_setChildren hset).mpr ⟨.inr hx, ?_⟩
  simp only [List.mem_append, Option.mem_toList, not_or]
  exact ⟨⟨fun hpre => hnodup.2.2 x hpre x (.inl rfl) rfl, fun hinn => (hin x hinn).2 a hx⟩,
    hnodup.2.1.1⟩

/-! ## Dropping a root -/

/-- Drops a root and everything below it. -/
noncomputable def remove (f : Forest P) (x : P) (hx : f.IsRoot x) : Forest P where
  live := f.live \ f.subtree x
  children p := if p ∈ f.subtree x then [] else f.children p
  nodup p := by split <;> simp [f.nodup p]
  live_of_mem {p c} hc := by
    split at hc
    · simp at hc
    · next hp =>
      have hlive := f.live_of_mem hc
      refine ⟨Finset.mem_sdiff.mpr ⟨hlive.1, hp⟩, Finset.mem_sdiff.mpr ⟨hlive.2, fun hcx => hp ?_⟩⟩
      -- what is above a child of `p` is above `p`, or is that child
      rw [mem_subtree hx.1] at hcx ⊢
      rcases hcx.eq_or_parent with rfl | ⟨a, hca, hax⟩
      · exact absurd hc (hx.2 p)
      · exact f.parent_unique hc hca ▸ hax
  parent_unique hp hq := by
    split at hp
    · simp at hp
    · split at hq
      · simp at hq
      · exact f.parent_unique hp hq
  wf := by
    refine Subrelation.wf (fun {c p} hc => ?_) f.wf
    split at hc
    · simp at hc
    · exact hc

@[simp] theorem live_remove (hx : f.IsRoot x) : (f.remove x hx).live = f.live \ f.subtree x := rfl

theorem mem_live_remove (hx : f.IsRoot x) :
    p ∈ (f.remove x hx).live ↔ p ∈ f.live ∧ ¬ f.Below p x := by
  rw [live_remove, Finset.mem_sdiff, mem_subtree hx.1]

theorem children_remove (hx : f.IsRoot x) (hp : p ∈ (f.remove x hx).live) :
    (f.remove x hx).children p = f.children p :=
  if_neg (Finset.mem_sdiff.mp hp).2

theorem isRoot_remove (hx : f.IsRoot x) :
    (f.remove x hx).IsRoot p ↔ f.IsRoot p ∧ p ≠ x := by
  constructor
  · rintro ⟨hp, hroot⟩
    obtain ⟨hlive, hpx⟩ := (mem_live_remove hx).mp hp
    refine ⟨⟨hlive, fun q hq => ?_⟩, by rintro rfl; exact hpx .refl⟩
    -- a parent among what is dropped would drop `p` too
    have hqx : q ∉ f.subtree x := by
      rw [mem_subtree hx.1]
      exact fun hqx => hpx ((below_of_mem hq).trans hqx)
    refine hroot q ?_
    rwa [children_remove hx (Finset.mem_sdiff.mpr ⟨(f.live_of_mem hq).1, hqx⟩)]
  · rintro ⟨hp, hne⟩
    refine ⟨(mem_live_remove hx).mpr ⟨hp.1, fun hpx => hne (hp.eq_of_below hpx)⟩, fun q hq => ?_⟩
    have hq' : q ∈ (f.remove x hx).live := ((f.remove x hx).live_of_mem hq).1
    rw [children_remove hx hq'] at hq
    exact hp.2 q hq

end Operations

end Forest
