import ArkInC.Spec.ItemHeap

/-!
# Walks along the lists of items, and their edits

What the loops along `next` return, and what the functions that change a list leave, on a
heap that represents a forest.

- `skipItems_run`, `countItems_run`, `findItem_run`, `lastItem_run`: the loops
- `cJSONDetachItemViaPointer_run`, `cJSONAddItemToArray_run`, `cJSONInsertItemInArray_run`,
  `cJSONReplaceItemViaPointer_run`: the edits, as `Heap.splice`
-/

namespace ArkInC.Native.Items

variable {P : Type} [DecidableEq P] {h : Heap P} {f : Forest P} {a p q x y : P}
  {pre post xs : List P}

/-! ## Loops -/

/-- A list of items in memory, threaded along `next`. -/
structure Walk (h : Heap P) (xs : List P) : Prop where
  live : ∀ x ∈ xs, x ∈ h.live
  linked : ∃ before, Linked h.next h.prev before xs none

omit [DecidableEq P] in
theorem Walk.head (hw : Walk h (x :: xs)) : x ∈ h.live := hw.live x (by simp)

omit [DecidableEq P] in
theorem Walk.next (hw : Walk h (x :: xs)) : h.next x = xs.head? := by
  obtain ⟨before, hlinked⟩ := hw.linked
  simpa using hlinked.2.1

omit [DecidableEq P] in
theorem Walk.tail (hw : Walk h (x :: xs)) : Walk h xs := by
  obtain ⟨before, hlinked⟩ := hw.linked
  exact ⟨fun y hy => hw.live y (by simp [hy]), some x, hlinked.2.2⟩

omit [DecidableEq P] in
/-- The children of an item can be walked along. -/
theorem Represents.walk (hr : Represents h f) (a : P) : Walk h (f.children a) :=
  ⟨fun _ hx => hr.mem_live hx, none, hr.linked a⟩

/-- A list of children is no longer than the number of items. -/
theorem Represents.length_children (hr : Represents h f) (a : P) :
    (f.children a).length < h.live.card + 1 := by
  have hsub : (f.children a).toFinset ⊆ h.live := by
    intro x hx
    exact hr.mem_live (List.mem_toFinset.mp hx)
  have hcard := Finset.card_le_card hsub
  rw [List.toFinset_card_of_nodup (f.nodup a)] at hcard
  omega

theorem skipItems_run (hw : Walk h xs) (i : Nat) :
    (skipItems i xs.head?).run h = .ok (xs[i]?, h) := by
  -- induction on the list: the index counts down as the walk goes on
  induction xs generalizing i with
  | nil => cases i <;> simp [skipItems]
  | cons x xs ih =>
    cases i with
    | zero => simp [skipItems]
    | succ i => simp [skipItems, hw.head, hw.next, ih hw.tail]

theorem countItems_run (hw : Walk h xs) (fuel : Nat) (hfuel : xs.length < fuel) :
    (countItems fuel xs.head?).run h = .ok (xs.length, h) := by
  induction xs generalizing fuel with
  | nil =>
    cases fuel with
    | zero => omega
    | succ fuel => simp [countItems]
  | cons x xs ih =>
    cases fuel with
    | zero => omega
    | succ fuel =>
      have hrun := ih hw.tail fuel (by simpa using hfuel)
      simp [countItems, hw.head, hw.next, hrun]

theorem lastItem_run (hw : Walk h (x :: xs)) (fuel : Nat) (hfuel : (x :: xs).length < fuel) :
    (lastItem fuel (some x)).run h = .ok ((x :: xs).getLast?, h) := by
  -- the last item is the one whose `next` is NULL
  induction xs generalizing x fuel with
  | nil =>
    cases fuel with
    | zero => omega
    | succ fuel => simp [lastItem, hw.head, hw.next]
  | cons y xs ih =>
    cases fuel with
    | zero => omega
    | succ fuel =>
      have hrun := ih hw.tail fuel (by simpa using hfuel)
      simp [lastItem, hw.head, hw.next, hrun]

/-- Whether an item of that name is the one `get_object_item` looks for. -/
def nameMatches (caseSensitive : Bool) (name : CString) (string : Option CString) : Bool :=
  if caseSensitive then string = some name else caseInsensitiveStrcmp (some name) string = 0

theorem differs_eq {caseSensitive : Bool} (name : CString) {string : Option CString}
    (hstring : caseSensitive → string ≠ none) :
    differs caseSensitive name string = .ok (!nameMatches caseSensitive name string) := by
  cases caseSensitive with
  | false => simp [differs, nameMatches]
  | true =>
    cases string with
    | none => simp at hstring
    | some string =>
      have hsame : strcmp name string = 0 ↔ string = name := by
        rw [strcmp_eq_zero]; exact eq_comm
      simp [differs, nameMatches, hsame]

/-- The first item of that name is found. A case-sensitive search must not meet an item without
    a name. -/
theorem findItem_run {caseSensitive : Bool} (name : CString) (hw : Walk h xs)
    (hnamed : caseSensitive → ∀ x ∈ xs, h.string x ≠ none) (fuel : Nat)
    (hfuel : xs.length < fuel) :
    (findItem caseSensitive name fuel xs.head?).run h =
      .ok (xs.find? fun x => nameMatches caseSensitive name (h.string x), h) := by
  -- the loop stops at the first item of that name, or behind the last item
  induction xs generalizing fuel with
  | nil =>
    cases fuel with
    | zero => omega
    | succ fuel => simp [findItem]
  | cons x xs ih =>
    cases fuel with
    | zero => omega
    | succ fuel =>
      have hrun := ih hw.tail (fun hcs y hy => hnamed hcs y (by simp [hy])) fuel
        (by simpa using hfuel)
      have hdiffers := differs_eq name fun hcs => hnamed hcs x (by simp)
      cases hmatch : nameMatches caseSensitive name (h.string x) <;>
        simp [findItem, hw.head, hw.next, hdiffers, hmatch, hrun]

/-! ## Lookups -/

theorem getArrayItem_run (hr : Represents h f) (ha : a ∈ f.live) (href : h.isReference a = false)
    (i : Nat) : (getArrayItem (some a) i).run h = .ok ((f.children a)[i]?, h) := by
  have hskip := skipItems_run (hr.walk a) i
  rw [← hr.child a ha href] at hskip
  simp [getArrayItem, hr.live ▸ ha, hskip]

theorem cJSONGetArraySize_run (hr : Represents h f) (ha : a ∈ f.live)
    (href : h.isReference a = false) :
    (cJSONGetArraySize (some a)).run h = .ok (intOfSize (f.children a).length, h) := by
  have hcount := countItems_run (hr.walk a) _ (hr.length_children a)
  rw [← hr.child a ha href] at hcount
  simp [cJSONGetArraySize, hr.live ▸ ha, hcount]

theorem getObjectItem_run (hr : Represents h f) (ha : a ∈ f.live)
    (href : h.isReference a = false) {caseSensitive : Bool} {name : CString}
    (hnamed : caseSensitive → ∀ x ∈ f.children a, h.string x ≠ none) :
    (getObjectItem (some a) (some name) caseSensitive).run h =
      .ok ((f.children a).find? fun x => nameMatches caseSensitive name (h.string x), h) := by
  have hfind := findItem_run name (hr.walk a) hnamed _ (hr.length_children a)
  rw [← hr.child a ha href] at hfind
  simp [getObjectItem, hr.live ▸ ha, hfind]

/-! ## Edits -/

theorem cJSONDetachItemViaPointer_run (hs : Slot h a pre x post) :
    (cJSONDetachItemViaPointer (some a) (some x)).run h =
      .ok (some x, h.splice a pre (some x) none post) := by
  simp only [cJSONDetachItemViaPointer, StateT.run_bind, StateT.run_pure, field_run,
    onlyIf_field, setNext_unless_null, setPrev_unless_null, hs.parent_live, hs.live, hs.prev,
    hs.next, hs.before_valid, hs.after_valid, hs.before_ne, relink_of_ne, reduceCtorEq, or_self,
    if_false, Except.ok_bind, Except.pure_eq, ne_eq,
    not_false_eq_true]
  by_cases hpre : pre = []
  -- the first child: `child` of the parent is moved on
  · simp [onlyIf, Heap.splice, spliceNext, splicePrev, hpre, hs.first.mpr hpre, hs.parent_live,
      hs.live]
  · have hchild : ¬ some x = h.child a := fun hx => hpre (hs.first.mp hx.symm)
    simp [onlyIf, Heap.splice, spliceNext, splicePrev, hpre, hchild, hs.live]

/-- An item that is nowhere else is put at the end. -/
theorem cJSONAddItemToArray_run (hr : Represents h f) (ha : a ∈ f.live)
    (href : h.isReference a = false) (hy : f.IsRoot y) :
    (cJSONAddItemToArray (some a) (some y)).run h =
      .ok ((), h.splice a (f.children a) none (some y) []) := by
  have haf : a ∈ h.live := hr.live ▸ ha
  have hyh : y ∈ h.live := hr.live ▸ hy.1
  have hwalk := hr.walk a
  have hlength := hr.length_children a
  have hy_mem : y ∉ f.children a := hy.2 a
  have hchild := hr.child a ha href
  cases hch : f.children a with
  -- the first child of an empty array
  | nil =>
    rw [hch] at hchild
    simp [cJSONAddItemToArray, Heap.splice, spliceNext, splicePrev, haf, hchild,
      relink_eq_self (hr.root y hy).1, relink_eq_self (hr.root y hy).2]
  | cons c cs =>
    rw [hch] at hchild hwalk hlength hy_mem
    -- behind the last child, whose `next` is written; that of the new item is NULL already
    obtain ⟨l, hl⟩ : ∃ l, (c :: cs).getLast? = some l := ⟨_, List.getLast?_cons⟩
    have hl_mem := List.mem_of_getLast? hl
    have hl_live : l ∈ h.live := hwalk.live l hl_mem
    have hne : ¬ some l = some y := by rintro ⟨⟩; exact hy_mem hl_mem
    have hnext : relink h.next (some l) (some y) y = none := by
      rw [relink_of_ne _ hne]
      exact (hr.root y hy).1
    have hlast := lastItem_run hwalk _ hlength
    simp only [cJSONAddItemToArray, StateT.run_bind, StateT.run_get, field_run, haf, hchild,
      List.head?_cons, reduceCtorEq, or_self, if_false, Except.ok_bind, Except.pure_eq, hlast, hl,
      suffixObject, setNext_run, setPrev_run, hl_live, hyh]
    simp [Heap.splice, spliceNext, splicePrev, hl, relink_eq_self hnext]

/-- An item that is nowhere else is put in front of a child. -/
theorem cJSONInsertItemInArray_run (hr : Represents h f) (ha : h.isReference a = false)
    (hch : f.children a = pre ++ x :: post) (hy : f.IsRoot y) :
    (cJSONInsertItemInArray (some a) pre.length (some y)).run h =
      .ok ((), h.splice a pre none (some y) (x :: post)) := by
  have hs := hr.slot ha hch
  have haf : a ∈ f.live := hr.live ▸ hs.parent_live
  have hyh : y ∈ h.live := hr.live ▸ hy.1
  have hx_child : x ∈ f.children a := by simp [hch]
  have hy_mem : y ∉ f.children a := hy.2 a
  have hyx : ¬ some y = some x := by rintro ⟨⟩; exact hy_mem hx_child
  have hy_before : ∀ p ∈ pre.getLast?, p ∉ some y := by
    rintro p hp ⟨⟩
    exact hy_mem (by rw [hch]; simp [List.mem_of_getLast? hp])
  -- the child at the index is `x`
  have hget := getArrayItem_run hr haf ha pre.length
  rw [hch, List.getElem?_append_right (Nat.le_refl _), Nat.sub_self] at hget
  have hwhich : ¬ (pre.length : Int) < 0 := by omega
  simp only [cJSONInsertItemInArray, StateT.run_bind, field_run, hwhich, if_false,
    Int.toNat_natCast, hget, List.getElem?_cons_zero, Except.ok_bind, reduceCtorEq, setNext_run,
    setPrev_run, hyh, hs.live, hs.parent_live, hs.prev]
  -- the source writes the pointers of the new item first
  have hnext : relink (relink h.next (some y) (some x)) pre.getLast? (some y) =
      relink (relink h.next pre.getLast? (some y)) (some y) (some x) :=
    (relink_comm h.next (some y) (some x) hy_before).symm
  have hprev : relink (relink h.prev (some y) pre.getLast?) (some x) (some y) =
      relink (relink h.prev (some x) (some y)) (some y) pre.getLast? :=
    relink_comm h.prev pre.getLast? (some y) (by rintro p ⟨⟩ ⟨⟩; exact hyx rfl)
  by_cases hpre : pre = []
  · subst hpre
    simpa [Heap.splice, spliceNext, splicePrev, hs.first.mpr rfl, hs.parent_live] using hprev
  · have hchild : ¬ some x = h.child a := fun hx => hpre (hs.first.mp hx.symm)
    obtain ⟨l, hl⟩ : ∃ l, pre.getLast? = some l := by
      cases hl : pre.getLast? with
      | none => exact absurd (List.getLast?_eq_none_iff.mp hl) hpre
      | some l => exact ⟨l, rfl⟩
    rw [hl] at hnext hprev
    simp [Heap.splice, spliceNext, splicePrev, hpre, hchild, hyh, hnext, hprev, hl, relink_apply,
      hs.before_valid l hl]

/-- The child is freed, and the other item takes its place. -/
theorem cJSONReplaceItemViaPointer_run (hr : Represents h f) (ha : h.isReference a = false)
    (hch : f.children a = pre ++ x :: post) (hy : f.IsRoot y)
    (hset : f.Settable a (pre ++ y :: post)) :
    (cJSONReplaceItemViaPointer (some a) (some x) (some y)).run h =
      .ok (true, { h.splice a pre (some x) (some y) post with
        live := h.live \ (f.setChildren a (pre ++ y :: post) hset).subtree x }) := by
  have hs := hr.slot ha hch
  have hyh : y ∈ h.live := hr.live ▸ hy.1
  have hy_mem : y ∉ f.children a := hy.2 a
  rw [hch] at hy_mem
  have hxy : x ≠ y := by rintro rfl; simp at hy_mem
  have hyx : ¬ some y = some x := by rintro ⟨⟩; exact hxy rfl
  have hbefore : ¬ pre.getLast? = some y := fun hy' => hy_mem (by simp [List.mem_of_getLast? hy'])
  have hafter : ¬ post.head? = some y := fun hy' => hy_mem (by simp [List.mem_of_head? hy'])
  -- `child` of the parent, if the child was the first one
  have hchild : (onlyIf (h.child a = some x) (setChild (some a) (some y))).run
      { h with next := relink (relink h.next (some y) post.head?) pre.getLast? (some y)
               prev := relink (relink h.prev (some y) pre.getLast?) post.head? (some y) } =
      .ok ((), { h.splice a pre (some x) (some y) post with
        next := relink (relink h.next (some y) post.head?) pre.getLast? (some y)
        prev := relink (relink h.prev (some y) pre.getLast?) post.head? (some y) }) := by
    by_cases hpre : pre = []
    · simp [onlyIf, Heap.splice, hpre, hs.first.mpr hpre, hs.parent_live]
    · have hne : ¬ h.child a = some x := fun hx => hpre (hs.first.mp hx)
      simp [onlyIf, Heap.splice, hpre, hne]
  -- with the pointers of the child gone too, the child is a root
  have hx_root : (f.setChildren a (pre ++ y :: post) hset).IsRoot x := by
    have hset' : f.Settable a (pre ++ (some y).toList ++ post) := by simpa using hset
    have hroot := Forest.isRoot_of_taken_out hch hset' (by rintro z ⟨⟩; exact hy)
    simpa using hroot
  have hspliced := hr.splice (some x) (some y) ha (by simpa using hch) (by simpa using hset)
    (by rintro z ⟨⟩; exact hy)
  -- so it may be freed with all below it
  have hdelete := cJSONDelete_run (by simpa using hspliced) hx_root
  have hx_live : x ∈ (h.splice a pre (some x) (some y) post).live := hs.live
  simp only [cJSONReplaceItemViaPointer, StateT.run_bind, StateT.run_pure, field_run,
    reduceCtorEq, or_self, if_false, Except.ok_bind, Except.pure_eq, setNext_run, setPrev_run, hyh,
    hs.live, hs.parent_live, hs.prev, hs.next, hyx, relink_apply, if_true, setPrev_unless_null,
    setNext_unless_null, hs.before_valid, hs.after_valid, hafter, hchild, hx_live,
    relink_eq_spliceNext hxy hbefore, relink_eq_splicePrev hxy hafter]
  show (do
    let p ← (cJSONDelete (some x)).run (h.splice a pre (some x) (some y) post)
    Except.ok (true, p.2)) = _
  rw [hdelete]
  rfl

end ArkInC.Native.Items
