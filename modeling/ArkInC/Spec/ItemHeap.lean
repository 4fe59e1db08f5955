import ArkInC.ForStd.Except
import ArkInC.ForStd.Forest
import ArkInC.ForStd.Linked
import ArkInC.Native.JsonItems

/-!
# Heaps of items that represent a forest

`Represents h f` says that the items in memory are the nodes of the forest `f`: the pointer
`child` of an item and the pointers `next` and `prev` of its children are its list of children,
and the roots point nowhere. The children of a reference belong to another item, so it has none
in the forest.

- `Represents.slot`: what the pointers around a child are
- `Represents.splice`: taking a child out and putting a root in changes the list of children
- `Represents.remove`, `Represents.insertNew`: freeing a root with all below it, and a new item
-/

namespace ArkInC.Native.Items

variable {P : Type} [DecidableEq P] {h : Heap P} {f : Forest P} {a p q x y : P}
  {v link : Option P} {pre post : List P} {out inn : Option P}

/-! ## Steps on the heap -/

/-- NULL, or the address of an item in memory. -/
def Valid (live : Finset P) (item : Option P) : Prop := ∀ p, item = some p → p ∈ live

@[simp] theorem follow_run (hp : p ∈ h.live) : (follow (some p)).run h = .ok (p, h) := by
  simp [follow, StateT.run, hp]

@[simp] theorem field_run {α : Type} (g : Heap P → P → α) (hp : p ∈ h.live) :
    (field g (some p)).run h = .ok (g h p, h) := by
  simp [field, hp]

@[simp] theorem setNext_run (hp : p ∈ h.live) :
    (setNext (some p) v).run h = .ok ((), { h with next := relink h.next (some p) v }) := by
  simp [setNext, relink, hp]

@[simp] theorem setPrev_run (hp : p ∈ h.live) :
    (setPrev (some p) v).run h = .ok ((), { h with prev := relink h.prev (some p) v }) := by
  simp [setPrev, relink, hp]

@[simp] theorem setChild_run (hp : p ∈ h.live) : (setChild (some p) v).run h =
    .ok ((), { h with child := Function.update h.child p v }) := by
  simp [setChild, hp]

@[simp] theorem setValue_run {value : ItemValue} (hp : p ∈ h.live) :
    (setValue (some p) value).run h =
      .ok ((), { h with value := Function.update h.value p value }) := by
  simp [setValue, hp]

@[simp] theorem setString_run {string : Option CString} (hp : p ∈ h.live) :
    (setString (some p) string).run h =
      .ok ((), { h with string := Function.update h.string p string }) := by
  simp [setString, hp]

@[simp] theorem setStringIsConst_run {b : Bool} (hp : p ∈ h.live) :
    (setStringIsConst (some p) b).run h =
      .ok ((), { h with stringIsConst := Function.update h.stringIsConst p b }) := by
  simp [setStringIsConst, hp]

@[simp] theorem setIsReference_run {b : Bool} (hp : p ∈ h.live) :
    (setIsReference (some p) b).run h =
      .ok ((), { h with isReference := Function.update h.isReference p b }) := by
  simp [setIsReference, hp]

@[simp] theorem deallocate_run (hp : p ∈ h.live) :
    (deallocate (some p)).run h = .ok ((), { h with live := h.live.erase p }) := by
  simp [deallocate, hp]

/-- Reading a field leaves the heap as it is. -/
theorem onlyIf_field {α : Type} {g : Heap P → P → α} {m : α → Edit P Unit} {c : Prop}
    [Decidable c] (hx : x ∈ h.live) :
    (onlyIf c (field g (some x) >>= m)).run h = (onlyIf c (m (g h x))).run h := by
  by_cases hc : c <;> simp [onlyIf, hc, hx]

/-- `if (link != NULL) link->next = v` -/
theorem setNext_unless_null [Decidable (¬ link = none)] (hlink : Valid h.live link) :
    (onlyIf (¬ link = none) (setNext link v)).run h =
      .ok ((), { h with next := relink h.next link v }) := by
  cases link with
  | none => simp [onlyIf]
  | some p => simp [onlyIf, hlink p rfl]

/-- `if (link != NULL) link->prev = v` -/
theorem setPrev_unless_null [Decidable (¬ link = none)] (hlink : Valid h.live link) :
    (onlyIf (¬ link = none) (setPrev link v)).run h =
      .ok ((), { h with prev := relink h.prev link v }) := by
  cases link with
  | none => simp [onlyIf]
  | some p => simp [onlyIf, hlink p rfl]

/-! ## What a heap represents -/

/-- The items of the heap and their pointers are the forest. -/
structure Represents (h : Heap P) (f : Forest P) : Prop where
  live : f.live = h.live
  child : ∀ p ∈ f.live, h.isReference p = false → h.child p = (f.children p).head?
  linked : ∀ p, Linked h.next h.prev none (f.children p) none
  reference : ∀ p, h.isReference p = true → f.children p = []
  root : ∀ p, f.IsRoot p → h.next p = none ∧ h.prev p = none

/-- What the pointers around `x` are where it stands between `pre` and `post` among the
    children of `a`. -/
structure Slot (h : Heap P) (a : P) (pre : List P) (x : P) (post : List P) : Prop where
  parent_live : a ∈ h.live
  live : x ∈ h.live
  prev : h.prev x = pre.getLast?
  next : h.next x = post.head?
  first : h.child a = some x ↔ pre = []
  before_valid : Valid h.live pre.getLast?
  after_valid : Valid h.live post.head?
  before_ne : ¬ pre.getLast? = some x
  after_ne : ¬ post.head? = some x
  before_ne_after : ∀ p ∈ pre.getLast?, p ∉ post.head?

omit [DecidableEq P] in
theorem Represents.mem_live (hr : Represents h f) (hx : x ∈ f.children a) : x ∈ h.live :=
  hr.live ▸ (f.live_of_mem hx).2

omit [DecidableEq P] in
theorem Represents.slot (hr : Represents h f) (ha : h.isReference a = false)
    (hch : f.children a = pre ++ x :: post) : Slot h a pre x post := by
  have hmem : ∀ q, q ∈ pre ∨ q = x ∨ q ∈ post → q ∈ h.live := by
    intro q hq
    exact hr.mem_live (by rw [hch]; simpa using hq)
  have haf : a ∈ f.live := (f.live_of_mem (by simp [hch] : x ∈ f.children a)).1
  have hlinked := hr.linked a
  have hchild := hr.child a haf ha
  have hnodup := f.nodup a
  rw [hch] at hlinked hchild hnodup
  -- the list cut at `x` says what stands before and behind it
  simp only [linked_append, linked_cons, Option.or_none] at hlinked
  simp only [List.nodup_append, List.nodup_cons, List.mem_cons] at hnodup
  obtain ⟨-, ⟨hxpost, -⟩, hne⟩ := hnodup
  refine ⟨hr.live ▸ haf, hmem x (by simp), hlinked.2.1, hlinked.2.2.1, ?_, ?_, ?_, ?_, ?_, ?_⟩
  -- `child` points at the first child, and that is `x` only if none is before it
  · rw [hchild]
    cases pre with
    | nil => simp
    | cons p pre => simpa using hne p (by simp) x (.inl rfl)
  · exact fun q hq => hmem q (.inl (List.mem_of_getLast? hq))
  · exact fun q hq => hmem q (.inr (.inr (List.mem_of_head? hq)))
  · exact fun hq => hne x (List.mem_of_getLast? hq) x (.inl rfl) rfl
  · exact fun hq => hxpost (List.mem_of_head? hq)
  · exact fun q hq hq' => hne q (List.mem_of_getLast? hq) q (.inr (List.mem_of_head? hq')) rfl

/-! ## Changing a list of children -/

/-- The heap after `out` is taken from between `pre` and `post` among the children of `a`,
    and `inn` put there. -/
def Heap.splice (h : Heap P) (a : P) (pre : List P) (out inn : Option P) (post : List P) :
    Heap P :=
  { h with
    next := spliceNext h.next pre out inn post
    prev := splicePrev h.prev pre out inn post
    child := if pre = [] then Function.update h.child a (inn.or post.head?) else h.child }

theorem Represents.splice (hr : Represents h f) (out inn : Option P)
    (ha : h.isReference a = false)
    (hch : f.children a = pre ++ out.toList ++ post)
    (hset : f.Settable a (pre ++ inn.toList ++ post))
    (hin : ∀ y ∈ inn, f.IsRoot y) :
    Represents (h.splice a pre out inn post)
      (f.setChildren a (pre ++ inn.toList ++ post) hset) := by
  have hnew : ∀ y ∈ inn, ∀ q, y ∉ f.children q := fun y hy => (hin y hy).2
  refine ⟨hr.live, ?_, ?_, ?_, ?_⟩
  -- `child` of `a` changes only where the list of children changes at its front
  · intro p hp href
    by_cases hpa : p = a
    · subst hpa
      have hchild := hr.child p hp href
      rw [hch] at hchild
      cases pre with
      | nil => cases inn <;> simp [Heap.splice]
      | cons q pre => simpa [Heap.splice] using hchild
    · have hkeep : (h.splice a pre out inn post).child p = h.child p := by
        unfold Heap.splice
        split <;> simp [hpa]
      rw [hkeep, hr.child p hp href]
      simp [hpa]
  · intro p
    by_cases hpa : p = a
    · subst hpa
      have hlinked := hr.linked p
      have hnodup := f.nodup p
      rw [hch] at hlinked hnodup
      simpa [Heap.splice] using hlinked.splice hnodup fun y hy => hch ▸ hnew y hy p
    · -- the list of another item has none of these elements
      have hother : ∀ q ∈ f.children p, ¬ inn = some q ∧ q ∉ pre ++ out.toList ++ post := by
        intro q hq
        refine ⟨fun hy => hnew q hy p hq, fun hmem => hpa (f.parent_unique hq ?_)⟩
        rwa [hch]
      rw [Forest.children_setChildren, Function.update_of_ne hpa]
      refine (hr.linked p).congr ?_ ?_
      · exact fun q hq => spliceNext_of_not_mem (hother q hq).1 (hother q hq).2
      · exact fun q hq => splicePrev_of_not_mem (hother q hq).1 (hother q hq).2
  -- a reference is not `a`, so it still has no children
  · intro p href
    have hpa : p ≠ a := by
      rintro rfl
      exact absurd (ha.symm.trans href) (by simp)
    simpa [hpa] using hr.reference p href
  -- the pointers of a root are NULL: of one that was, and of the child taken out
  · intro p hp
    rw [Forest.isRoot_setChildren] at hp
    obtain ⟨hp, hxs⟩ := hp
    have hinn : ¬ inn = some p := by rintro rfl; simp at hxs
    show spliceNext h.next pre out inn post p = none ∧ splicePrev h.prev pre out inn post p = none
    by_cases hold : p ∈ f.children a
    · -- the child that has been taken out
      have hout : out = some p := by
        rw [hch] at hold
        simp only [List.mem_append, Option.mem_toList, not_or] at hold hxs
        simpa [hxs] using hold
      simp [spliceNext, splicePrev, relink_apply, hinn, hout]
    · have hroot := hr.root p (hp.resolve_right hold)
      rw [hch] at hold
      rw [spliceNext_of_not_mem hinn hold, splicePrev_of_not_mem hinn hold]
      exact hroot

/-! ## Items that come and go -/

theorem Represents.remove (hr : Represents h f) (hx : f.IsRoot x) :
    Represents { h with live := h.live \ f.subtree x } (f.remove x hx) := by
  -- no pointer is written; what is left has the lists it had
  have hlist : ∀ p, (f.remove x hx).children p = f.children p ∨
      (f.remove x hx).children p = [] := by
    intro p
    by_cases hp : p ∈ (f.remove x hx).live
    · exact .inl (Forest.children_remove hx hp)
    · exact .inr (Forest.children_of_not_live hp)
  refine ⟨by rw [Forest.live_remove, hr.live], ?_, ?_, ?_, ?_⟩
  · intro p hp href
    rw [Forest.children_remove hx hp]
    exact hr.child p ((Forest.mem_live_remove hx).mp hp).1 href
  · intro p
    rcases hlist p with hp | hp
    · exact hp ▸ hr.linked p
    · rw [hp]; trivial
  · intro p href
    rcases hlist p with hp | hp
    · exact hp ▸ hr.reference p href
    · exact hp
  · intro p hp
    exact hr.root p ((Forest.isRoot_remove hx).mp hp).1

theorem Represents.zeroed (hr : Represents h f) (hp : p ∉ h.live) :
    Represents (h.zeroed p) (f.insertNew p) := by
  have hpf : p ∉ f.live := hr.live ▸ hp
  have hne : ∀ q, q ∈ f.live → q ≠ p := by rintro q hq rfl; exact hpf hq
  refine ⟨by simp [Forest.insertNew, Heap.zeroed, hr.live], ?_, ?_, ?_, ?_⟩
  -- the new item has no children, the others keep theirs
  · intro q hq href
    rcases Finset.mem_insert.mp hq with rfl | hq
    · simp [Heap.zeroed, Forest.insertNew, Forest.children_of_not_live hpf]
    · simp only [Heap.zeroed, Function.update_of_ne (hne q hq)] at href ⊢
      exact hr.child q hq href
  · intro q
    refine (hr.linked q).congr ?_ ?_ <;>
    · intro c hc
      exact Function.update_of_ne (hne c (f.live_of_mem hc).2) _ _
  · intro q href
    by_cases hq : q = p
    · subst hq; simpa using Forest.children_of_not_live hpf
    · simp only [Heap.zeroed, Function.update_of_ne hq] at href
      exact hr.reference q href
  · intro q hq
    rcases (Forest.isRoot_insertNew hpf).mp hq with hq | rfl
    · simpa [Heap.zeroed, hne q hq.1] using hr.root q hq
    · simp [Heap.zeroed]

/-! ## Freeing -/

/-- `cJSON_Delete` frees the items of the list and all below them, each of them once. -/
theorem deleteItems_run (hr : Represents h f) {fuel : Nat} {live : Finset P} {xs : List P}
    {before : Option P} (hlinked : Linked h.next h.prev before xs none)
    (hapart : xs.Pairwise fun x y => ∀ q, f.Below q x → ¬ f.Below q y)
    (hxs : ∀ x ∈ xs, x ∈ f.live) (hlive : f.subtrees xs ⊆ live)
    (hfuel : (f.subtrees xs).card < fuel) :
    (deleteItems fuel xs.head?).run { h with live := live } =
      .ok ((), { h with live := live \ f.subtrees xs }) := by
  -- the fuel is for the items of the list and all below them
  induction fuel generalizing xs live before with
  | zero => omega
  | succ fuel ih =>
    cases xs with
    | nil =>
      simp [deleteItems]
    | cons p rest =>
      obtain ⟨-, hnext, hlinked⟩ := hlinked
      obtain ⟨hp_apart, hapart⟩ := List.pairwise_cons.mp hapart
      have hp : p ∈ f.live := hxs p (by simp)
      have hrest : ∀ x ∈ rest, x ∈ f.live := fun x hx => hxs x (by simp [hx])
      have hchildren : ∀ x ∈ f.children p, x ∈ f.live := fun x hx => (f.live_of_mem hx).2
      have hcons : ∀ q, q ∈ f.subtrees (p :: rest) ↔
          q = p ∨ q ∈ f.subtrees (f.children p) ∨ q ∈ f.subtrees rest :=
        fun q => Forest.mem_subtrees_cons hp hrest
      -- `p`, what is below it and what is below the rest have nothing in common
      have hp_below : p ∉ f.subtrees (f.children p) := Forest.not_mem_subtrees_children
      have hp_rest : p ∉ f.subtrees rest :=
        Forest.not_mem_subtrees_of_apart hrest hp_apart .refl
      have hdisjoint : ∀ q ∈ f.subtrees (f.children p), q ∉ f.subtrees rest := by
        intro q hq
        obtain ⟨c, hc, hqc⟩ := (Forest.mem_subtrees hchildren).mp hq
        exact Forest.not_mem_subtrees_of_apart hrest hp_apart
          (hqc.trans (Forest.below_of_mem hc))
      -- what is below `p`, and what is below the rest, are fewer items
      have hless : ∀ {s : Finset P}, p ∉ s → (∀ q ∈ s, q ∈ f.subtrees (p :: rest)) →
          s.card < fuel := by
        intro s hs hsub
        have hlt := Finset.card_lt_card ⟨hsub, fun hle => hs (hle ((hcons p).mpr (.inl rfl)))⟩
        omega
      -- first the children of `p`, unless it is a reference
      have hbelow : (onlyIf (!h.isReference p ∧ h.child p ≠ none)
            (deleteItems fuel (h.child p))).run { h with live := live } =
          .ok ((), { h with live := live \ f.subtrees (f.children p) }) := by
        cases href : h.isReference p with
        | true => simp [onlyIf, hr.reference p href]
        | false =>
          rw [hr.child p hp href]
          have hrun := ih (hr.linked p) (f.children_apart p) hchildren
            (fun q hq => hlive ((hcons q).mpr (.inr (.inl hq))))
            (hless hp_below fun q hq => (hcons q).mpr (.inr (.inl hq)))
          cases hch : f.children p with
          | nil => simp [onlyIf]
          | cons c cs => simpa [onlyIf, hch] using hrun
      have hp_live : p ∈ live := hlive ((hcons p).mpr (.inl rfl))
      have hp_live' : p ∈ live \ f.subtrees (f.children p) :=
        Finset.mem_sdiff.mpr ⟨hp_live, hp_below⟩
      -- then `p` itself, and the rest of the list is still there
      have hlive' : f.subtrees rest ⊆ (live \ f.subtrees (f.children p)).erase p := by
        intro q hq
        refine Finset.mem_erase.mpr ⟨by rintro rfl; exact hp_rest hq, ?_⟩
        refine Finset.mem_sdiff.mpr ⟨hlive ((hcons q).mpr (.inr (.inr hq))), ?_⟩
        exact fun hq' => hdisjoint q hq' hq
      have hloop := ih hlinked hapart hrest hlive'
        (hless hp_rest fun q hq => (hcons q).mpr (.inr (.inr hq)))
      have hfreed : (live \ f.subtrees (f.children p)).erase p \ f.subtrees rest =
          live \ f.subtrees (p :: rest) := by
        ext q
        simp only [Finset.mem_sdiff, Finset.mem_erase, hcons]
        tauto
      rw [hfreed] at hloop
      simp only [List.head?_cons, deleteItems, StateT.run_bind, field_run, hp_live,
        Except.ok_bind, hbelow, deallocate_run, hp_live', hnext, Option.or_none]
      exact hloop

/-- `cJSON_Delete` of a root frees its subtree and nothing else. -/
theorem cJSONDelete_run (hr : Represents h f) (hx : f.IsRoot x) :
    (cJSONDelete (some x)).run h = .ok ((), { h with live := h.live \ f.subtree x }) := by
  have hsub : f.subtree x ⊆ h.live := by
    intro q hq
    exact hr.live ▸ ((Forest.mem_subtree hx.1).mp hq).live hx.1
  -- a root is a list of one item
  have hlinked : Linked h.next h.prev none [x] none := by
    obtain ⟨hnext, hprev⟩ := hr.root x hx
    simp [hnext, hprev]
  have hcard := Finset.card_le_card hsub
  exact deleteItems_run hr hlinked (List.pairwise_singleton _ _) (by simpa using hx.1) hsub
    (Nat.lt_succ_of_le hcard)

end ArkInC.Native.Items
