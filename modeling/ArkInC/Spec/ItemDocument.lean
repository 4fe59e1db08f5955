import ArkInC.ForStd.Refinement
import ArkInC.Spec.ItemLists

/-!
# Documents, and what the functions on items do to them

A `Document` is a forest of items with their values and names. `Models h d` says that the heap
`h` holds just that document. Each function of the source is refined by what it does to the
document: an item is added, a list of children is changed, a root is dropped with all below it.

- `cJSONAddItemToArray_refines`, `cJSONInsertItemInArray_refines`,
  `cJSONDetachItemViaPointer_refines`, `cJSONReplaceItemViaPointer_refines`: the lists of children
- `cJSONDelete_refines`: what is freed
-/

namespace ArkInC.Native.Items

/-! ## Documents -/

/-- Items with their children, values and names. -/
structure Document (P : Type) extends Forest P where
  value : P → ItemValue
  string : P → Option CString
  stringIsConst : P → Bool
  isReference : P → Bool

variable {P : Type} [DecidableEq P] {h : Heap P} {d d' d₁ : Document P} {a p q x y : P}
  {pre post xs : List P} {out inn array item object parent : Option P} {s : CString} {b : Bool}

/-- The heap holds the items of the document, and nothing else. -/
structure Models (h : Heap P) (d : Document P) : Prop where
  represents : Represents h d.toForest
  value : h.value = d.value
  string : h.string = d.string
  stringIsConst : h.stringIsConst = d.stringIsConst
  isReference : h.isReference = d.isReference

namespace Document

/-- An item whose children are its own. -/
def IsContainer (d : Document P) (a : P) : Prop := a ∈ d.live ∧ d.isReference a = false

/-- The item `y` is nowhere else, and may become a child of `a`. -/
structure Attachable (d : Document P) (a y : P) : Prop where
  container : d.IsContainer a
  root : d.IsRoot y
  not_below : ¬ d.Below a y

/-- The document in which `xs` are the children of `a`. -/
def withChildren (d : Document P) (a : P) (xs : List P) (h : d.Settable a xs) : Document P :=
  { d with toForest := d.setChildren a xs h }

/-- The document in which `y` has a name. -/
def named (d : Document P) (y : P) (string : Option CString) (isConst : Bool) : Document P :=
  { d with
    string := Function.update d.string y string
    stringIsConst := Function.update d.stringIsConst y isConst }

/-- The document with one more item. -/
def created (d : Document P) (p : P) (value : ItemValue) : Document P where
  toForest := d.insertNew p
  value := Function.update d.value p value
  string := Function.update d.string p none
  stringIsConst := Function.update d.stringIsConst p false
  isReference := Function.update d.isReference p false

/-- The document with a reference to the item `x`, as one more item. -/
def referred (d : Document P) (p x : P) : Document P where
  toForest := d.insertNew p
  value := Function.update d.value p (d.value x)
  string := Function.update d.string p none
  stringIsConst := Function.update d.stringIsConst p (d.stringIsConst x)
  isReference := Function.update d.isReference p true

/-- The document without a root and all below it. -/
noncomputable def removed (d : Document P) (x : P) (hx : d.IsRoot x) : Document P :=
  { d with toForest := d.remove x hx }

end Document

namespace Models

theorem splice (hm : Models h d) (ha : d.isReference a = false)
    (hch : d.children a = pre ++ out.toList ++ post)
    (hset : d.Settable a (pre ++ inn.toList ++ post)) (hin : ∀ y ∈ inn, d.IsRoot y) :
    Models (h.splice a pre out inn post) (d.withChildren a (pre ++ inn.toList ++ post) hset) :=
  ⟨hm.represents.splice out inn (hm.isReference ▸ ha) hch hset hin, hm.value, hm.string,
    hm.stringIsConst, hm.isReference⟩

theorem removed (hm : Models h d) (hx : d.IsRoot x) :
    Models { h with live := h.live \ d.subtree x } (d.removed x hx) :=
  ⟨hm.represents.remove hx, hm.value, hm.string, hm.stringIsConst, hm.isReference⟩

theorem zeroed (hm : Models h d) (hp : p ∉ d.live) :
    Models (h.zeroed p) (d.created p .invalid) := by
  refine ⟨hm.represents.zeroed (hm.represents.live ▸ hp), ?_, ?_, ?_, ?_⟩
  · simp [Heap.zeroed, Document.created, hm.value]
  · simp [Heap.zeroed, Document.created, hm.string]
  · simp [Heap.zeroed, Document.created, hm.stringIsConst]
  · simp [Heap.zeroed, Document.created, hm.isReference]

end Models

/-! ## Making and freeing -/

namespace Document

/-- A new item, if there is room for one. -/
def Created (d : Document P) (alloc : Allocator P) (value : ItemValue) (r : Option P)
    (d' : Document P) : Prop :=
  r = alloc.item d.live ∧ match r with
    | none => d' = d
    | some p => d' = d.created p value

/-- The root `item` is gone, with all below it. -/
def Removed (d : Document P) (item : Option P) (d' : Document P) : Prop :=
  match item with
  | none => d' = d
  | some x => ∃ hx, d' = d.removed x hx

end Document

theorem setValue_refines (hp : p ∈ d.live) (v : ItemValue) :
    Refines Models (setValue (some p) v) d fun _ d' =>
      d' = { d with value := Function.update d.value p v } := by
  refine .of_step (r := ()) (fun h hm => ?_) rfl
  have hr := hm.represents
  -- no pointer is changed, so the heap still represents the forest
  refine ⟨_, setValue_run (hr.live ▸ hp), ⟨hr.live, hr.child, hr.linked, hr.reference, hr.root⟩,
    ?_, hm.string, hm.stringIsConst, hm.isReference⟩
  rw [hm.value]

theorem cJSONNewItem_run {alloc : Allocator P} {r : Option P} (ha : alloc.item h.live = r) :
    (cJSONNewItem alloc).run h = .ok (r, r.elim h h.zeroed) := by
  cases r <;> simp [cJSONNewItem, ha]

theorem cJSONNewItem_refines (alloc : Allocator P) :
    Refines Models (cJSONNewItem alloc) d (d.Created alloc .invalid) := by
  cases ha : alloc.item d.live with
  | none =>
    -- no room: the heap and the document stay as they are
    refine .of_run (fun h hm => ?_) ⟨ha.symm, rfl⟩
    exact cJSONNewItem_run (hm.represents.live ▸ ha)
  | some p =>
    refine .of_step (fun h hm => ⟨h.zeroed p, ?_, hm.zeroed (alloc.fresh ha)⟩) ⟨ha.symm, rfl⟩
    exact cJSONNewItem_run (hm.represents.live ▸ ha)

theorem create_refines (alloc : Allocator P) (value : ItemValue) :
    Refines Models (create alloc value) d (d.Created alloc value) := by
  refine (cJSONNewItem_refines alloc).bind ?_
  rintro r d' ⟨rfl, hd'⟩
  cases ha : alloc.item d.live with
  | none =>
    rw [ha] at hd'
    exact .pure ⟨ha.symm, hd'⟩
  | some p =>
    rw [ha] at hd'
    subst hd'
    -- the new item is live, so its value may be set
    have hp : p ∈ (d.created p .invalid).live := Finset.mem_insert_self _ _
    refine (setValue_refines hp value).bind ?_
    rintro - d' rfl
    refine .pure ⟨ha.symm, ?_⟩
    simp [Document.created]

theorem cJSONDelete_refines (hitem : ∀ x ∈ item, d.IsRoot x) :
    Refines Models (cJSONDelete item) d fun _ d' => d.Removed item d' := by
  cases item with
  | none => exact .of_run (r := ()) (fun h _ => by simp [cJSONDelete, deleteItems]) rfl
  | some x =>
    have hx := hitem x rfl
    refine .of_step (r := ()) (fun h hm => ?_) ⟨hx, rfl⟩
    exact ⟨_, cJSONDelete_run hm.represents hx, hm.removed hx⟩

/-- If the text cannot be copied, the item that was made is gone again. -/
def Document.CreatedString (d : Document P) (alloc : Allocator P) (string : Option CString)
    (r : Option P) (d' : Document P) : Prop :=
  match cJSONStrdup alloc string with
  | some copy => d.Created alloc (.string copy) r d'
  | none => r = none ∧ ∃ d₁, d.Created alloc .invalid (alloc.item d.live) d₁ ∧
      d₁.Removed (alloc.item d.live) d'

theorem cJSONCreateString_refines (alloc : Allocator P) (string : Option CString) :
    Refines Models (cJSONCreateString alloc string) d (d.CreatedString alloc string) := by
  unfold Document.CreatedString cJSONCreateString
  refine (cJSONNewItem_refines alloc).bind ?_
  rintro r d' ⟨rfl, hd'⟩
  cases ha : alloc.item d.live with
  | none =>
    rw [ha] at hd'
    subst hd'
    refine .of_run (r := none) (fun h _ => by simp) ?_
    cases cJSONStrdup alloc string with
    | some copy => exact ⟨ha.symm, rfl⟩
    | none => exact ⟨rfl, d', ⟨by rw [ha], rfl⟩, rfl⟩
  | some p =>
    rw [ha] at hd'
    subst hd'
    have hp : p ∈ (d.created p .invalid).live := Finset.mem_insert_self _ _
    -- the new item is a root, so it may be freed again if its text cannot be copied
    have hroot : (d.created p .invalid).IsRoot p :=
      (Forest.isRoot_insertNew (alloc.fresh ha)).mpr (.inr rfl)
    simp only [reduceCtorEq, if_false]
    cases cJSONStrdup alloc string with
    | some copy =>
      refine (setValue_refines hp (.string copy)).bind ?_
      rintro - d' rfl
      refine .pure ⟨ha.symm, ?_⟩
      simp [Document.created]
    | none =>
      refine (cJSONDelete_refines (by rintro x ⟨⟩; exact hroot)).bind ?_
      intro _ d' hd'
      exact .pure ⟨rfl, _, ⟨by rw [ha], rfl⟩, hd'⟩

/-! ## Lookups -/

namespace Document

/-- The children of `*item`. -/
def childrenOf (d : Document P) (item : Option P) : List P :=
  match item with
  | none => []
  | some a => d.children a

/-- The first child of that name. -/
def lookup (d : Document P) (object : Option P) (string : Option CString)
    (caseSensitive : Bool) : Option P :=
  string.bind fun name =>
    (d.childrenOf object).find? fun x => nameMatches caseSensitive name (d.string x)

end Document

theorem cJSONGetArraySize_refines (harray : ∀ a ∈ array, d.IsContainer a) :
    Refines Models (cJSONGetArraySize array) d fun r d' =>
      r = intOfSize (d.childrenOf array).length ∧ d' = d := by
  cases array with
  | none =>
    refine .of_run (r := 0) (fun h _ => ?_) ?_
    -- the size of NULL is zero
    · simp [cJSONGetArraySize]
    · exact ⟨Int.zero_bmod.symm, rfl⟩
  | some a =>
    obtain ⟨ha, href⟩ := harray a rfl
    exact .of_run (fun h hm => cJSONGetArraySize_run hm.represents ha (hm.isReference ▸ href))
      ⟨rfl, rfl⟩

theorem getArrayItem_refines (harray : ∀ a ∈ array, d.IsContainer a) (i : Nat) :
    Refines Models (getArrayItem array i) d fun r d' =>
      r = (d.childrenOf array)[i]? ∧ d' = d := by
  cases array with
  | none => exact .of_run (r := none) (fun h _ => by simp [getArrayItem]) ⟨rfl, rfl⟩
  | some a =>
    obtain ⟨ha, href⟩ := harray a rfl
    exact .of_run (fun h hm => getArrayItem_run hm.represents ha (hm.isReference ▸ href) i)
      ⟨rfl, rfl⟩

theorem getObjectItem_refines {caseSensitive : Bool} (string : Option CString)
    (hobject : ∀ a ∈ object, d.IsContainer a)
    (hnamed : caseSensitive → ∀ x ∈ d.childrenOf object, d.string x ≠ none) :
    Refines Models (getObjectItem object string caseSensitive) d fun r d' =>
      r = d.lookup object string caseSensitive ∧ d' = d := by
  cases object with
  | none =>
    refine .of_run (r := none) (fun h _ => by simp [getObjectItem]) ⟨?_, rfl⟩
    cases string <;> rfl
  | some a =>
    obtain ⟨ha, href⟩ := hobject a rfl
    cases string with
    | none => exact .of_run (r := none) (fun h _ => by simp [getObjectItem]) ⟨rfl, rfl⟩
    | some name =>
      refine .of_run (fun h hm => ?_) ⟨rfl, rfl⟩
      -- the names of the document are those in the heap
      rw [← hm.string] at hnamed
      have hrun : (getObjectItem (some a) (some name) caseSensitive).run h =
          .ok (_, h) := getObjectItem_run hm.represents ha (hm.isReference ▸ href) hnamed
      rwa [hm.string] at hrun

/-! ## Adding -/

namespace Document

/-- The children of `a` are `xs` now. -/
def Changed (d : Document P) (a : P) (xs : List P) (d' : Document P) : Prop :=
  ∃ hset, d' = d.withChildren a xs hset

/-- The item is put at the end of the list of children, if neither is NULL. -/
def Appended (d : Document P) (array item : Option P) (d' : Document P) : Prop :=
  match array, item with
  | some a, some y => d.Changed a (d.children a ++ [y]) d'
  | _, _ => d' = d

/-- The item gets a name and is put into the object, if neither it nor the name is NULL. -/
def AppendedNamed (d : Document P) (object : Option P) (string : Option CString)
    (isConst : Bool) (item : Option P) (d' : Document P) : Prop :=
  match string, item with
  | some s, some y => (d.named y (some s) isConst).Appended object item d'
  | _, _ => d' = d

end Document

theorem setString_refines (hp : p ∈ d.live) (string : Option CString) :
    Refines Models (setString (some p) string) d fun _ d' =>
      d' = { d with string := Function.update d.string p string } := by
  refine .of_step (r := ()) (fun h hm => ?_) rfl
  have hr := hm.represents
  -- a name is no pointer between items
  refine ⟨_, setString_run (hr.live ▸ hp), ⟨hr.live, hr.child, hr.linked, hr.reference, hr.root⟩,
    hm.value, ?_, hm.stringIsConst, hm.isReference⟩
  rw [hm.string]

theorem setStringIsConst_refines (hp : p ∈ d.live) (b : Bool) :
    Refines Models (setStringIsConst (some p) b) d fun _ d' =>
      d' = { d with stringIsConst := Function.update d.stringIsConst p b } := by
  refine .of_step (r := ()) (fun h hm => ?_) rfl
  have hr := hm.represents
  refine ⟨_, setStringIsConst_run (hr.live ▸ hp),
    ⟨hr.live, hr.child, hr.linked, hr.reference, hr.root⟩, hm.value, hm.string, ?_,
    hm.isReference⟩
  rw [hm.stringIsConst]

omit [DecidableEq P] in
/-- What is taken out may be put in somewhere between the other children. -/
theorem Document.Attachable.settable (hat : d.Attachable a y)
    (hch : d.children a = pre ++ out.toList ++ post) : d.Settable a (pre ++ y :: post) := by
  have hset := Forest.settable_splice (some y) hch hat.container.1
    (by rintro z ⟨⟩; exact ⟨hat.root, hat.not_below⟩)
  simpa using hset

/-- A name changes nothing about where an item may be put. -/
theorem Document.Attachable.named (hat : d.Attachable a x) {string : Option CString} :
    (d.named y string b).Attachable a x :=
  ⟨hat.container, hat.root, hat.not_below⟩

theorem Models.put (hm : Models h d) (hat : d.Attachable a y)
    (hch : d.children a = pre ++ out.toList ++ post) :
    Models (h.splice a pre out (some y) post)
      (d.withChildren a (pre ++ y :: post) (hat.settable hch)) := by
  have hset : d.Settable a (pre ++ (some y).toList ++ post) := by simpa using hat.settable hch
  have hspliced := hm.splice hat.container.2 hch hset (by rintro z ⟨⟩; exact hat.root)
  simpa using hspliced

omit [DecidableEq P] in
/-- An item may be taken out of a list of children. -/
theorem Document.IsContainer.settable (ha : d.IsContainer a)
    (hch : d.children a = pre ++ x :: post) : d.Settable a (pre ++ post) := by
  have hch' : d.children a = pre ++ (some x).toList ++ post := by simpa using hch
  have hset := Forest.settable_splice none hch' ha.1 (by simp)
  simpa using hset

theorem Models.take (hm : Models h d) (ha : d.IsContainer a)
    (hch : d.children a = pre ++ x :: post) :
    Models (h.splice a pre (some x) none post)
      (d.withChildren a (pre ++ post) (ha.settable hch)) := by
  have hch' : d.children a = pre ++ (some x).toList ++ post := by simpa using hch
  have hset : d.Settable a (pre ++ (none : Option P).toList ++ post) := by
    simpa using ha.settable hch
  have hspliced := hm.splice ha.2 hch' hset (by simp)
  simpa using hspliced

theorem cJSONAddItemToArray_refines (hat : ∀ a ∈ array, ∀ y ∈ item, d.Attachable a y) :
    Refines Models (cJSONAddItemToArray array item) d fun _ d' => d.Appended array item d' := by
  cases array with
  | none =>
    refine .of_run (r := ()) (fun h _ => by simp [cJSONAddItemToArray]) ?_
    cases item <;> rfl
  | some a =>
    cases item with
    | none => exact .of_run (r := ()) (fun h _ => by simp [cJSONAddItemToArray]) rfl
    | some y =>
      have hay := hat a rfl y rfl
      -- nothing is taken out, and nothing stands behind the new child
      have hch : d.children a = d.children a ++ (none : Option P).toList ++ [] := by simp
      refine .of_step (r := ()) (fun h hm => ⟨_, ?_, hm.put hay hch⟩) ⟨_, rfl⟩
      exact cJSONAddItemToArray_run hm.represents hay.container.1
        (hm.isReference ▸ hay.container.2) hay.root

theorem cJSONAddItemToObjectCS_refines {string : Option CString} (hitem : ∀ y ∈ item, y ∈ d.live)
    (hat : ∀ a ∈ object, ∀ y ∈ item, d.Attachable a y) :
    Refines Models (cJSONAddItemToObjectCS object string item) d fun _ d' =>
      d.AppendedNamed object string true item d' := by
  cases item with
  | none =>
    refine .of_run (r := ()) (fun h _ => by simp [cJSONAddItemToObjectCS]) ?_
    cases string <;> rfl
  | some y =>
    cases string with
    | none => exact .of_run (r := ()) (fun h _ => by simp [cJSONAddItemToObjectCS]) rfl
    | some s =>
      have hy := hitem y rfl
      unfold cJSONAddItemToObjectCS
      simp only [reduceCtorEq, or_self, if_false]
      -- first the name, then the flag, then the item is appended
      refine (setString_refines hy (some s)).bind ?_
      rintro - d₁ rfl
      refine Refines.bind (setStringIsConst_refines ?_ true) ?_
      · exact hy
      · rintro - d₂ rfl
        exact cJSONAddItemToArray_refines (d := d.named y (some s) true)
          fun a ha z hz => (hat a ha z hz).named

/-- The item gets a copy of the name and is put into the object. Without a name, or room for the
    copy, it only loses its flag. -/
def Document.AddedToObject (d : Document P) (alloc : Allocator P) (object : Option P)
    (string : Option CString) (item : Option P) (d' : Document P) : Prop :=
  match item, cJSONStrdup alloc string with
  | some y, some copy => d.AppendedNamed object (some copy) false (some y) d'
  | some y, none => d' = d.named y (d.string y) false
  | none, _ => d' = d

theorem cJSONAddItemToObject_refines (alloc : Allocator P) {string : Option CString}
    (hitem : ∀ y ∈ item, y ∈ d.live) (hat : ∀ a ∈ object, ∀ y ∈ item, d.Attachable a y) :
    Refines Models (cJSONAddItemToObject alloc object string item) d fun _ d' =>
      d.AddedToObject alloc object string item d' := by
  cases item with
  | none => exact .of_run (r := ()) (fun h _ => by simp [cJSONAddItemToObject]) rfl
  | some y =>
    unfold cJSONAddItemToObject
    simp only [reduceCtorEq, if_false]
    -- the source calls its twin for constant names, then takes the flag away
    refine (cJSONAddItemToObjectCS_refines hitem hat).bind ?_
    intro _ d₁ hd₁
    unfold Document.AddedToObject
    cases hcopy : cJSONStrdup alloc string with
    | none =>
      -- without a copy the twin did nothing
      rw [hcopy] at hd₁
      cases hd₁
      refine (setStringIsConst_refines (hitem y rfl) false).mono ?_
      rintro - d' rfl
      simp [Document.named]
    | some copy =>
      rw [hcopy] at hd₁
      cases object with
      | none =>
        cases hd₁
        refine Refines.mono (setStringIsConst_refines ?_ false) ?_
        · exact hitem y rfl
        · rintro - d' rfl
          simp [Document.AppendedNamed, Document.Appended, Document.named]
      | some a =>
        -- the flag and the list of children can be set in either order
        obtain ⟨hset, rfl⟩ := hd₁
        refine Refines.mono (setStringIsConst_refines ?_ false) ?_
        · exact hitem y rfl
        · rintro - d' rfl
          refine ⟨hset, ?_⟩
          simp [Document.withChildren, Document.named]

/-! ## References -/

/-- A new item that refers to `*item`. -/
def Document.Referred (d : Document P) (alloc : Allocator P) (item r : Option P)
    (d' : Document P) : Prop :=
  match item with
  | none => r = none ∧ d' = d
  | some x => r = alloc.item d.live ∧ match r with
    | none => d' = d
    | some p => d' = d.referred p x

theorem createReference_refines (alloc : Allocator P) (hitem : ∀ x ∈ item, x ∈ d.live) :
    Refines Models (createReference alloc item) d (d.Referred alloc item) := by
  cases item with
  | none => exact .of_run (r := none) (fun h _ => by simp [createReference]) ⟨rfl, rfl⟩
  | some x =>
    have hx := hitem x rfl
    cases ha : alloc.item d.live with
    | none =>
      refine .of_run (r := none) (fun h hm => ?_) ⟨ha.symm, rfl⟩
      have hrun := cJSONNewItem_run (hm.represents.live ▸ ha)
      simp [createReference, hrun]
    | some p =>
      refine .of_step (r := some p) (fun h hm => ?_) ⟨ha.symm, rfl⟩
      have hp := alloc.fresh ha
      have hxp : x ≠ p := by rintro rfl; exact hp hx
      rw [hm.represents.live] at ha hx
      have hz := hm.zeroed hp
      have hr := hz.represents
      -- `memcpy` of the item, then the links and the name are cleared and the flag is set
      refine ⟨{ h.zeroed p with
        child := Function.update (h.zeroed p).child p (h.child x)
        value := Function.update (h.zeroed p).value p (h.value x)
        stringIsConst := Function.update (h.zeroed p).stringIsConst p (h.stringIsConst x)
        isReference := Function.update (h.zeroed p).isReference p true }, ?_,
        ⟨hr.live, ?_, hr.linked, ?_, hr.root⟩, ?_, ?_, ?_, ?_⟩
      · have hrun := cJSONNewItem_run ha
        simp [createReference, hrun, Heap.zeroed, hx, hxp]
      -- a container other than the reference has kept its child
      · intro q hq href
        have hqp : q ≠ p := by rintro rfl; simp at href
        simp only [Function.update_of_ne hqp] at href ⊢
        exact hr.child q hq href
      -- a reference has no children of its own, the new one least of all
      · intro q href
        by_cases hqp : q = p
        · subst hqp
          exact Forest.children_of_not_live (f := d.toForest) hp
        · simp only [Function.update_of_ne hqp] at href
          exact hr.reference q href
      · simp [Heap.zeroed, Document.referred, hm.value]
      · simp [Heap.zeroed, Document.referred, hm.string]
      · simp [Heap.zeroed, Document.referred, hm.stringIsConst]
      · simp [Heap.zeroed, Document.referred, hm.isReference]

/-- A reference that has just been made may be put anywhere. -/
theorem Document.Referred.attachable {alloc : Allocator P} {r : Option P}
    (hd : d.Referred alloc item r d') (ha : d.IsContainer a) : ∀ y ∈ r, d'.Attachable a y := by
  rintro y rfl
  cases item with
  | none => cases hd.1
  | some x =>
    obtain ⟨hy, rfl⟩ := hd
    have hy_new := alloc.fresh hy.symm
    have hne : a ≠ y := by rintro rfl; exact hy_new ha.1
    refine ⟨⟨Finset.mem_insert_of_mem ha.1, ?_⟩, ?_, ?_⟩
    · simpa [Document.referred, hne] using ha.2
    · exact (Forest.isRoot_insertNew hy_new).mpr (.inr rfl)
    -- nothing is below an item that has just been made
    · intro hbelow
      rcases Forest.below_iff.mp hbelow with hay | ⟨c, hc, -⟩
      · exact hne hay
      · rw [show (d.referred y x).children y = [] from
          Forest.children_of_not_live (f := d.toForest) hy_new] at hc
        simp at hc

theorem cJSONAddItemReferenceToArray_refines (alloc : Allocator P)
    (harray : ∀ a ∈ array, d.IsContainer a) (hitem : ∀ x ∈ item, x ∈ d.live) :
    Refines Models (cJSONAddItemReferenceToArray alloc array item) d fun _ d' =>
      if array = none then d' = d
      else ∃ r d₁, d.Referred alloc item r d₁ ∧ d₁.Appended array r d' := by
  unfold cJSONAddItemReferenceToArray
  split
  · exact .pure rfl
  · refine (createReference_refines alloc hitem).bind fun r d₁ hd₁ => ?_
    have hat : ∀ a ∈ array, ∀ y ∈ r, d₁.Attachable a y := fun a ha => hd₁.attachable (harray a ha)
    exact (cJSONAddItemToArray_refines hat).mono fun _ d' hd' => ⟨r, d₁, hd₁, hd'⟩

theorem cJSONAddItemReferenceToObject_refines (alloc : Allocator P) {string : Option CString}
    (hobject : ∀ a ∈ object, d.IsContainer a) (hitem : ∀ x ∈ item, x ∈ d.live) :
    Refines Models (cJSONAddItemReferenceToObject alloc object string item) d fun _ d' =>
      if object = none ∨ string = none then d' = d
      else ∃ r d₁, d.Referred alloc item r d₁ ∧ d₁.AddedToObject alloc object string r d' := by
  unfold cJSONAddItemReferenceToObject
  split
  · exact .pure rfl
  · next hnull =>
    refine (createReference_refines alloc hitem).bind fun r d₁ hd₁ => ?_
    obtain ⟨a, rfl⟩ : ∃ a, object = some a := by
      cases object with
      | none => simp at hnull
      | some a => exact ⟨a, rfl⟩
    have hat := hd₁.attachable (hobject a rfl)
    refine (cJSONAddItemToObject_refines alloc (fun y hy => (hat y hy).root.1) ?_).mono
      fun _ d' hd' => ⟨r, d₁, hd₁, hd'⟩
    -- the object is not NULL, so there is a new reference to add
    rintro b ⟨⟩
    exact hat

/-! ## Taking out -/

/-- The item is taken out of the list of children, if neither is NULL. -/
def Document.Detached (d : Document P) (parent item r : Option P) (d' : Document P) : Prop :=
  match parent, item with
  | some a, some x => r = some x ∧ d.Changed a ((d.children a).erase x) d'
  | _, _ => r = none ∧ d' = d

theorem cJSONDetachItemViaPointer_refines
    (hitem : ∀ a ∈ parent, ∀ x ∈ item, d.IsContainer a ∧ x ∈ d.children a) :
    Refines Models (cJSONDetachItemViaPointer parent item) d (d.Detached parent item) := by
  cases parent with
  | none =>
    refine .of_run (r := none) (fun h _ => by simp [cJSONDetachItemViaPointer]) ?_
    cases item <;> exact ⟨rfl, rfl⟩
  | some a =>
    cases item with
    | none =>
      exact .of_run (r := none) (fun h _ => by simp [cJSONDetachItemViaPointer]) ⟨rfl, rfl⟩
    | some x =>
      obtain ⟨ha, hx⟩ := hitem a rfl x rfl
      -- the list around the item: its neighbours are linked to each other
      obtain ⟨pre, post, hch, herase, -⟩ := Forest.exists_split hx
      refine .of_step (r := some x) (fun h hm => ⟨_, ?_, hm.take ha hch⟩) ⟨rfl, ?_⟩
      · exact cJSONDetachItemViaPointer_run (hm.represents.slot (hm.isReference ▸ ha.2) hch)
      · rw [herase]
        exact ⟨_, rfl⟩

/-- What has been taken out is a root. -/
theorem Document.Detached.isRoot {r : Option P} (hd : d.Detached parent item r d')
    (hitem : ∀ a ∈ parent, ∀ x ∈ item, x ∈ d.children a) : ∀ x ∈ r, d'.IsRoot x := by
  rintro x rfl
  cases parent with
  | none => cases hd.1
  | some a =>
    cases item with
    | none => cases hd.1
    | some y =>
      obtain ⟨⟨⟩, hset, rfl⟩ := hd
      obtain ⟨pre, post, hch, herase, -⟩ := Forest.exists_split (hitem a rfl x rfl)
      refine (Forest.isRoot_setChildren hset).mpr ⟨.inr (hitem a rfl x rfl), ?_⟩
      -- it stood in one list only, and once
      exact (d.nodup a).not_mem_erase

namespace Document

/-- The child at the index `which` is taken out. -/
def DetachedFromArray (d : Document P) (array : Option P) (which : Int) (r : Option P)
    (d' : Document P) : Prop :=
  if which < 0 then r = none ∧ d' = d
  else d.Detached array (d.childrenOf array)[which.toNat]? r d'

/-- The first child of that name is taken out. -/
def DetachedFromObject (d : Document P) (object : Option P) (string : Option CString)
    (caseSensitive : Bool) (r : Option P) (d' : Document P) : Prop :=
  d.Detached object (d.lookup object string caseSensitive) r d'

omit [DecidableEq P] in
theorem mem_of_getElem? {i : Nat} (ha : array = some a) (hx : (d.childrenOf array)[i]? = some x) :
    x ∈ d.children a := by
  subst ha
  exact List.mem_of_getElem? hx

omit [DecidableEq P] in
theorem mem_of_lookup {string : Option CString} (ha : object = some a)
    (hx : d.lookup object string b = some x) : x ∈ d.children a := by
  subst ha
  cases string with
  | none => simp [lookup] at hx
  | some name => exact List.mem_of_find?_eq_some hx

theorem DetachedFromArray.isRoot {which : Int} {r : Option P}
    (hd : d.DetachedFromArray array which r d') : ∀ x ∈ r, d'.IsRoot x := by
  unfold DetachedFromArray at hd
  split at hd
  · rintro x rfl
    cases hd.1
  · exact hd.isRoot fun a ha x hx => mem_of_getElem? ha hx

theorem DetachedFromObject.isRoot {string : Option CString} {r : Option P}
    (hd : d.DetachedFromObject object string b r d') : ∀ x ∈ r, d'.IsRoot x :=
  Detached.isRoot hd fun _ ha _ hx => mem_of_lookup ha hx

end Document

theorem cJSONDetachItemFromArray_refines (harray : ∀ a ∈ array, d.IsContainer a) (which : Int) :
    Refines Models (cJSONDetachItemFromArray array which) d
      (d.DetachedFromArray array which) := by
  unfold cJSONDetachItemFromArray Document.DetachedFromArray
  split
  · exact .pure ⟨rfl, rfl⟩
  -- the child that is found is in the list, so it can be taken out
  · refine (getArrayItem_refines harray which.toNat).bind ?_
    rintro r d₁ ⟨rfl, rfl⟩
    exact cJSONDetachItemViaPointer_refines fun a ha x hx =>
      ⟨harray a ha, Document.mem_of_getElem? ha hx⟩

theorem cJSONDeleteItemFromArray_refines (harray : ∀ a ∈ array, d.IsContainer a) (which : Int) :
    Refines Models (cJSONDeleteItemFromArray array which) d fun _ d' =>
      ∃ r d₁, d.DetachedFromArray array which r d₁ ∧ d₁.Removed r d' := by
  refine (cJSONDetachItemFromArray_refines harray which).bind fun r d₁ hd₁ => ?_
  exact (cJSONDelete_refines hd₁.isRoot).mono fun _ d' hd' => ⟨r, d₁, hd₁, hd'⟩

/-- The common shape of `cJSON_DetachItemFromObject` and its case-sensitive twin. -/
theorem detachItemFromObject_refines {caseSensitive : Bool} (string : Option CString)
    (hobject : ∀ a ∈ object, d.IsContainer a)
    (hnamed : caseSensitive → ∀ x ∈ d.childrenOf object, d.string x ≠ none) :
    Refines Models
      (getObjectItem object string caseSensitive >>= cJSONDetachItemViaPointer object) d
      (d.DetachedFromObject object string caseSensitive) := by
  refine (getObjectItem_refines string hobject hnamed).bind ?_
  rintro r d₁ ⟨rfl, rfl⟩
  exact cJSONDetachItemViaPointer_refines fun a ha x hx =>
    ⟨hobject a ha, Document.mem_of_lookup ha hx⟩

theorem deleteItemFromObject_refines {caseSensitive : Bool} (string : Option CString)
    (hobject : ∀ a ∈ object, d.IsContainer a)
    (hnamed : caseSensitive → ∀ x ∈ d.childrenOf object, d.string x ≠ none) :
    Refines Models
      (getObjectItem object string caseSensitive >>= cJSONDetachItemViaPointer object >>=
        cJSONDelete) d fun _ d' =>
      ∃ r d₁, d.DetachedFromObject object string caseSensitive r d₁ ∧ d₁.Removed r d' := by
  refine (detachItemFromObject_refines string hobject hnamed).bind fun r d₁ hd₁ => ?_
  exact (cJSONDelete_refines hd₁.isRoot).mono fun _ d' hd' => ⟨r, d₁, hd₁, hd'⟩

/-! ## Putting in -/

namespace Document

/-- The item is put in front of the child at the index `which`, or at the end. -/
def Inserted (d : Document P) (array : Option P) (which : Int) (newitem : Option P)
    (d' : Document P) : Prop :=
  match array, newitem with
  | some a, some y =>
    if which < 0 then d' = d
    else d.Changed a
      ((d.children a).take which.toNat ++ y :: (d.children a).drop which.toNat) d'
  | _, _ => d' = d

/-- The replacement takes the place of the item, which is freed with all below it. -/
def Replaced (d : Document P) (parent item replacement : Option P) (r : Bool)
    (d' : Document P) : Prop :=
  match parent, item, replacement with
  | some a, some x, some y =>
    r = true ∧
      if y = x then d' = d
      else ∃ d₁, d.Changed a ((d.children a).replace x y) d₁ ∧ d₁.Removed (some x) d'
  | _, _, _ => r = false ∧ d' = d

end Document

/-- NULL is put nowhere, but it must not be put in front of a child. -/
theorem cJSONInsertItemInArray_refines {which : Int} {newitem : Option P}
    (harray : ∀ a ∈ array, d.IsContainer a)
    (hat : ∀ a ∈ array, ∀ y ∈ newitem, d.Attachable a y)
    (hnull : newitem = none → 0 ≤ which → (d.childrenOf array)[which.toNat]? = none) :
    Refines Models (cJSONInsertItemInArray array which newitem) d fun _ d' =>
      d.Inserted array which newitem d' := by
  by_cases hwhich : which < 0
  · refine .of_run (r := ()) (fun h _ => by simp [cJSONInsertItemInArray, hwhich]) ?_
    cases array <;> cases newitem <;> simp [Document.Inserted, hwhich]
  · obtain ⟨i, rfl⟩ := Int.eq_ofNat_of_zero_le (Int.not_lt.mp hwhich)
    by_cases hi : (d.childrenOf array)[i]? = none
    · -- there is no such child
      unfold cJSONInsertItemInArray
      simp only [hwhich, if_false]
      refine (getArrayItem_refines harray i).bind ?_
      rintro r d₁ ⟨rfl, rfl⟩
      rw [hi, if_pos rfl]
      refine (cJSONAddItemToArray_refines hat).mono fun _ d' hd' => ?_
      cases array with
      | none => cases newitem <;> exact hd'
      | some a =>
        cases newitem with
        | none => exact hd'
        | some y =>
          have hlen : (d₁.children a).length ≤ i := List.getElem?_eq_none_iff.mp hi
          simp only [Document.Inserted, hwhich, if_false, Int.toNat_natCast,
            List.take_of_length_le hlen, List.drop_eq_nil_of_le hlen]
          exact hd'
    · cases array with
      | none => simp [Document.childrenOf] at hi
      | some a =>
        cases newitem with
        | none => exact absurd (hnull rfl (Int.not_lt.mp hwhich)) hi
        | some y =>
          have hlen : i < (d.children a).length := by
            rw [← not_le, ← List.getElem?_eq_none_iff]
            exact hi
          have hdrop := List.drop_eq_getElem_cons hlen
          have hch : d.children a =
              (d.children a).take i ++ (d.children a)[i] :: (d.children a).drop (i + 1) := by
            rw [← hdrop, List.take_append_drop]
          have hay := hat a rfl y rfl
          have hsplit : d.children a = (d.children a).take i ++ (none : Option P).toList ++
              (d.children a).drop i := by simp
          refine .of_step (r := ()) (fun h hm => ⟨_, ?_, hm.put hay hsplit⟩) ?_
          -- the new item stands in front of the child that was at the index
          · have hrun := cJSONInsertItemInArray_run hm.represents
              (hm.isReference ▸ hay.container.2) hch hay.root
            rwa [List.length_take_of_le hlen.le, ← hdrop] at hrun
          · simp only [Document.Inserted, hwhich, if_false]
            exact ⟨_, rfl⟩

theorem cJSONReplaceItemViaPointer_refines {replacement : Option P}
    (hitem : ∀ a ∈ parent, ∀ x ∈ item, ∀ y ∈ replacement,
      x ∈ d.children a ∧ (y = x ∨ d.Attachable a y)) :
    Refines Models (cJSONReplaceItemViaPointer parent item replacement) d
      (d.Replaced parent item replacement) := by
  by_cases hnull : parent = none ∨ replacement = none ∨ item = none
  · refine .of_run (r := false) (fun h _ => by simp [cJSONReplaceItemViaPointer, hnull]) ?_
    rcases parent with _ | a <;> rcases item with _ | x <;> rcases replacement with _ | y <;>
      simp_all [Document.Replaced]
  · obtain ⟨a, rfl⟩ : ∃ a, parent = some a := by cases parent <;> simp_all
    obtain ⟨x, rfl⟩ : ∃ x, item = some x := by cases item <;> simp_all
    obtain ⟨y, rfl⟩ : ∃ y, replacement = some y := by cases replacement <;> simp_all
    obtain ⟨hx, hy⟩ := hitem a rfl x rfl y rfl
    by_cases hyx : y = x
    -- an item is not replaced by itself
    · subst hyx
      exact .of_run (r := true) (fun h _ => by simp [cJSONReplaceItemViaPointer])
        ⟨rfl, by simp⟩
    · have hay := hy.resolve_left hyx
      obtain ⟨pre, post, hch, -, hreplace⟩ := Forest.exists_split hx
      have hsplit : d.children a = pre ++ (some x).toList ++ post := by simpa using hch
      have hset := hay.settable hsplit
      -- once replaced, the item is a root and may be freed
      have hroot : (d.withChildren a (pre ++ y :: post) hset).IsRoot x := by
        have hset' : d.Settable a (pre ++ (some y).toList ++ post) := by simpa using hset
        have hout := Forest.isRoot_of_taken_out hch hset' (by rintro z ⟨⟩; exact hay.root)
        simpa [Document.withChildren] using hout
      refine .of_step (r := true)
        (fun h hm => ⟨_, ?_, (hm.put hay hsplit).removed hroot⟩) ⟨rfl, ?_⟩
      · exact cJSONReplaceItemViaPointer_run hm.represents (hm.isReference ▸ hay.container.2) hch
          hay.root hset
      · rw [if_neg hyx, hreplace]
        exact ⟨_, ⟨hset, rfl⟩, hroot, rfl⟩

theorem cJSONReplaceItemInArray_refines {which : Int} {newitem : Option P}
    (harray : ∀ a ∈ array, d.IsContainer a)
    (hat : ∀ a ∈ array, ∀ y ∈ newitem, d.Attachable a y) :
    Refines Models (cJSONReplaceItemInArray array which newitem) d fun _ d' =>
      if which < 0 then d' = d
      else ∃ r, d.Replaced array (d.childrenOf array)[which.toNat]? newitem r d' := by
  unfold cJSONReplaceItemInArray
  split
  · exact .pure rfl
  · refine (getArrayItem_refines harray which.toNat).bind ?_
    rintro item d₁ ⟨rfl, rfl⟩
    refine (cJSONReplaceItemViaPointer_refines fun a ha x hx y hy => ?_).bind
      fun r d' hd' => .pure ⟨r, hd'⟩
    -- what is at the index is a child
    exact ⟨Document.mem_of_getElem? ha hx, .inr (hat a ha y hy)⟩

/-- The replacement gets the name, and takes the place of the first child that has it. -/
def Document.ReplacedInObject (d : Document P) (alloc : Allocator P) (object : Option P)
    (string : Option CString) (caseSensitive : Bool) (replacement : Option P) (r : Bool)
    (d' : Document P) : Prop :=
  match replacement, string with
  | some y, some _ =>
    r = true ∧ ∃ found, (d.named y (cJSONStrdup alloc string) false).Replaced object
      (d.lookup object string caseSensitive) (some y) found d'
  | _, _ => r = false ∧ d' = d

theorem Document.lookup_named {string name : Option CString} {caseSensitive : Bool}
    (hy : y ∉ d.childrenOf object) :
    (d.named y name b).lookup object string caseSensitive =
      d.lookup object string caseSensitive := by
  cases string with
  | none => rfl
  | some name' =>
    refine List.find?_congr fun x hx => ?_
    have hxy : x ≠ y := by rintro rfl; exact hy hx
    simp [named, hxy]

theorem replaceItemInObject_refines (alloc : Allocator P) (string : Option CString)
    {caseSensitive : Bool} {replacement : Option P} (hobject : ∀ a ∈ object, d.IsContainer a)
    (hnamed : caseSensitive → ∀ x ∈ d.childrenOf object, d.string x ≠ none)
    (hlive : ∀ y ∈ replacement, y ∈ d.live)
    (hat : ∀ a ∈ object, ∀ y ∈ replacement, d.Attachable a y) :
    Refines Models (replaceItemInObject alloc object string replacement caseSensitive) d
      (d.ReplacedInObject alloc object string caseSensitive replacement) := by
  unfold replaceItemInObject
  cases replacement with
  | none => exact .of_run (r := false) (fun h _ => by simp) (by cases string <;> exact ⟨rfl, rfl⟩)
  | some y =>
    cases string with
    | none => exact .of_run (r := false) (fun h _ => by simp) ⟨rfl, rfl⟩
    | some name =>
      simp only [reduceCtorEq, or_self, if_false]
      -- the new name does not change which child is found
      have hy : y ∉ d.childrenOf object := by
        cases object with
        | none => exact List.not_mem_nil
        | some a => exact (hat a rfl y rfl).root.2 a
      -- the replacement gets the copied name before the old child is looked up
      refine (setString_refines (hlive y rfl) _).bind ?_
      rintro - d₁ rfl
      refine Refines.bind (setStringIsConst_refines ?_ false) ?_
      · exact hlive y rfl
      · rintro - d₂ rfl
        refine Refines.bind (getObjectItem_refines
          (d := d.named y (cJSONStrdup alloc (some name)) false) (some name) ?_ ?_) ?_
        · exact hobject
        · intro hcs x hx
          have hxy : x ≠ y := by rintro rfl; exact hy hx
          simpa [Document.named, hxy] using hnamed hcs x hx
        · rintro item d₃ ⟨rfl, rfl⟩
          rw [Document.lookup_named hy]
          refine (cJSONReplaceItemViaPointer_refines fun a ha x hx z hz => ?_).bind
            fun found d' hd' => .pure ⟨rfl, found, hd'⟩
          exact ⟨Document.mem_of_lookup (d := d) ha hx, .inr (hat a ha z hz).named⟩

/-! ## A document -/

/-- The lists of children of a document with six items. -/
def sampleChildren : Nat → List Nat
  | 0 => [1, 2]
  | 1 => [3, 4]
  | _ => []

/-- Children stand behind their parent. -/
theorem lt_of_mem_sampleChildren {c p : Nat} (hc : c ∈ sampleChildren p) : p < c ∧ c < 5 := by
  match p with
  | 0 | 1 => simp [sampleChildren] at hc; omega
  | p + 2 => exact absurd hc List.not_mem_nil

/-- `{"a":[true,null],"B":2}` at the addresses 0 to 4, and a text at 5 that is in no list. -/
def sampleDocument : Document Nat where
  live := {0, 1, 2, 3, 4, 5}
  children := sampleChildren
  nodup p := by
    match p with
    | 0 | 1 => decide
    | p + 2 => exact List.nodup_nil
  live_of_mem {p c} hc := by
    have := lt_of_mem_sampleChildren hc
    simp only [Finset.mem_insert, Finset.mem_singleton]
    omega
  parent_unique {p q c} hp hq := by
    match p, q with
    | 0, 0 | 1, 1 => rfl
    | 0, 1 | 1, 0 => simp [sampleChildren] at hp hq; omega
    | p + 2, _ => exact absurd hp List.not_mem_nil
    | _, q + 2 => exact absurd hq List.not_mem_nil
  wf := by
    refine Subrelation.wf (fun {c p} hc => ?_) (measure fun p => 5 - p).wf
    have := lt_of_mem_sampleChildren hc
    change 5 - c < 5 - p
    omega
  value
    | 0 => .object
    | 1 => .array
    | 2 => .number 2
    | 3 => .true
    | 4 => .null
    | _ => .string (.lit "x")
  string
    | 1 => some (.lit "a")
    | 2 => some (.lit "B")
    | _ => none
  stringIsConst _ := false
  isReference _ := false

/-- The same in memory. -/
def sampleHeap : Heap Nat where
  live := {0, 1, 2, 3, 4, 5}
  next
    | 1 => some 2
    | 3 => some 4
    | _ => none
  prev
    | 2 => some 1
    | 4 => some 3
    | _ => none
  child
    | 0 => some 1
    | 1 => some 3
    | _ => none
  value := sampleDocument.value
  string := sampleDocument.string
  stringIsConst _ := false
  isReference _ := false

theorem isRoot_sampleDocument {p : Nat} : sampleDocument.IsRoot p ↔ p = 0 ∨ p = 5 := by
  constructor
  · rintro ⟨hp, hroot⟩
    have h0 := hroot 0
    have h1 := hroot 1
    simp [sampleDocument, sampleChildren] at hp h0 h1
    omega
  · rintro (rfl | rfl)
    · exact ⟨by decide, fun q hq => absurd (lt_of_mem_sampleChildren hq).1 (by omega)⟩
    · exact ⟨by decide, fun q hq => absurd (lt_of_mem_sampleChildren hq).2 (by omega)⟩

theorem models_sampleHeap : Models sampleHeap sampleDocument where
  represents := {
    live := rfl
    child := by
      intro p _ _
      match p with
      | 0 | 1 => rfl
      | p + 2 => rfl
    linked := by
      intro p
      match p with
      | 0 | 1 => simp [sampleDocument, sampleChildren, sampleHeap]
      | p + 2 => trivial
    reference := nofun
    root := by
      intro p hp
      rcases isRoot_sampleDocument.mp hp with rfl | rfl
      · exact ⟨rfl, rfl⟩
      · exact ⟨rfl, rfl⟩ }
  value := rfl
  string := rfl
  stringIsConst := rfl
  isReference := rfl

theorem isContainer_sampleDocument {p : Nat} (hp : p ∈ sampleDocument.live) :
    sampleDocument.IsContainer p :=
  ⟨hp, rfl⟩

end ArkInC.Native.Items
