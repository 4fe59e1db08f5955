import ArkInC.ForStd.List
import ArkInC.Spec.ItemClients
import ArkInC.Spec.Lookup

/-!
# Items as values

`Document.tree` is the JSON value an item of a document holds, as the parser and the printer
know it. A new item holds the value it was made for, the lookups on the heap are those on the
value, and the edits of a list of children are edits of the value; the values of items that are
not above the list stay what they are.
-/

namespace ArkInC.Native.Items

open Binary64 (Double)

variable {P : Type} [DecidableEq P] {h : Heap P} {d d' d₁ : Document P} {a p q x y : P}
  {xs : List P}

namespace Document

/-- The value of an item without children, or of one with the children `items`. -/
def assemble (value : ItemValue) (items : List (Option CString × CJSON)) : CJSON :=
  match value with
  | .invalid => .null
  | .null => .null
  | .true => .true
  | .false => .false
  | .number x => .number x
  | .string s => .string s
  | .array => .array (items.map Prod.snd)
  | .object => .object (items.map fun item => (item.1.getD (.lit ""), item.2))

/-- The value an item holds. An item without a type stands for `null`, a member without a name
    has the empty one, and a reference has no children of its own. -/
noncomputable def tree (d : Document P) : P → CJSON :=
  d.wf.fix fun p tree =>
    assemble (d.value p) ((d.children p).attach.map fun c => (d.string c.1, tree c.1 c.2))

/-- A child as a member: its name and its value. -/
noncomputable def entry (d : Document P) (c : P) : Option CString × CJSON := (d.string c, d.tree c)

omit [DecidableEq P] in
theorem tree_eq (d : Document P) (p : P) :
    d.tree p = assemble (d.value p) ((d.children p).map d.entry) := by
  rw [tree, WellFounded.fix_eq]
  congr 1
  exact List.attach_map_val (f := d.entry) (l := d.children p)

omit [DecidableEq P] in
/-- The value depends on the items below, and on the names of those strictly below. -/
theorem tree_congr (hchildren : ∀ q, d.Below q p → d'.children q = d.children q)
    (hvalue : ∀ q, d.Below q p → d'.value q = d.value q)
    (hstring : ∀ q, d.Below q p → ∀ c ∈ d.children q, d'.string c = d.string c) :
    d'.tree p = d.tree p := by
  -- induction from the leaves up
  induction p using d.wf.induction with
  | _ p ih =>
    rw [tree_eq, tree_eq, hchildren p .refl, hvalue p .refl]
    congr 1
    refine List.map_congr_left fun c hc => ?_
    have hbelow : ∀ q, d.Below q c → d.Below q p := fun q hq => hq.trans (Forest.below_of_mem hc)
    rw [entry, entry, hstring p .refl c hc, ih c hc (fun q hq => hchildren q (hbelow q hq))
      (fun q hq => hvalue q (hbelow q hq)) fun q hq => hstring q (hbelow q hq)]

/-! ## Values after an edit -/

/-- What is left keeps its value. -/
theorem tree_removed (hx : d.IsRoot x) (hp : p ∈ d.live) (hpx : ¬ d.Below p x) :
    (d.removed x hx).tree p = d.tree p := by
  refine tree_congr (fun q hq => Forest.children_remove hx ?_) (fun _ _ => rfl) fun _ _ _ _ => rfl
  refine (Forest.mem_live_remove hx).mpr ⟨hq.live hp, fun hqx => hpx ?_⟩
  -- a root with something in common with `p` is above it
  rcases hq.total hqx with hpx | hxp
  · exact hpx
  · rw [hx.eq_of_below hxp]

theorem tree_created (hy : y ∉ d.live) (hp : p ∈ d.live) {value : ItemValue} :
    (d.created y value).tree p = d.tree p := by
  have hne : ∀ q ∈ d.live, q ≠ y := by rintro q hq rfl; exact hy hq
  refine tree_congr (fun _ _ => rfl) (fun q hq => ?_) fun q _ c hc => ?_
  · simp [created, hne q (hq.live hp)]
  -- names below `p` are those of items that were there
  · simp [created, hne c (d.live_of_mem hc).2]

end Document

/-! ## Making items -/

/-- A call of one of the functions `cJSON_Create...`. -/
inductive Creation where
  | null
  | true
  | false
  | bool (b : Bool)
  | number (num : Double)
  | string (text : Option CString)
  | array
  | object

namespace Creation

/-- The call. -/
def run (alloc : Allocator P) : Creation → Edit P (Option P)
  | null => cJSONCreateNull alloc
  | true => cJSONCreateTrue alloc
  | false => cJSONCreateFalse alloc
  | bool b => cJSONCreateBool alloc b
  | number num => cJSONCreateNumber alloc num
  | string text => cJSONCreateString alloc text
  | array => cJSONCreateArray alloc
  | object => cJSONCreateObject alloc

/-- The value that is asked for; NULL is no text to ask for. -/
def value : Creation → Option CJSON
  | null => some .null
  | true => some .true
  | false => some .false
  | bool b => some (if b then .true else .false)
  | number num => some (.number num)
  | string text => text.map .string
  | array => some (.array [])
  | object => some (.object [])

/-- There is room for the copy of a text, where one is needed. -/
def granted (alloc : Allocator P) : Creation → Bool
  | string text => (cJSONStrdup alloc text).isSome
  | _ => Bool.true

end Creation

/-- The item `r` is new and holds the value, or it is NULL and nothing is new. All others keep
    their values. -/
structure Document.Gains (d : Document P) (r : Option P) (value : Option CJSON)
    (d' : Document P) : Prop where
  null : r = none → d'.live = d.live
  item : ∀ p ∈ r, p ∉ d.live ∧ d'.live = insert p d.live ∧ d'.IsRoot p ∧ value = some (d'.tree p)
  others : ∀ q ∈ d.live, d'.tree q = d.tree q

theorem Document.Created.gains {alloc : Allocator P} {value : ItemValue} {r : Option P}
    (hd : d.Created alloc value r d') : d.Gains r (some (assemble value [])) d' := by
  obtain ⟨rfl, hd⟩ := hd
  cases ha : alloc.item d.live with
  | none =>
    rw [ha] at hd
    subst hd
    exact ⟨fun _ => rfl, nofun, fun _ _ => rfl⟩
  | some p =>
    rw [ha] at hd
    subst hd
    have hp := alloc.fresh ha
    refine ⟨nofun, ?_, fun q hq => tree_created hp hq⟩
    rintro q ⟨⟩
    refine ⟨hp, rfl, (Forest.isRoot_insertNew hp).mpr (.inr rfl), ?_⟩
    -- a new item has no children
    rw [tree_eq]
    simp [created, Forest.children_of_not_live hp]

/-- An item that is made and freed again leaves all values as they were. -/
theorem Document.Created.gains_of_removed {alloc : Allocator P} {value : ItemValue}
    {r : Option P} {v : Option CJSON} (hd : d.Created alloc value r d')
    (hd' : d'.Removed r d₁) : d.Gains none v d₁ := by
  obtain ⟨rfl, hd⟩ := hd
  cases ha : alloc.item d.live with
  | none =>
    rw [ha] at hd hd'
    obtain rfl : d₁ = d' := hd'
    subst hd
    exact ⟨fun _ => rfl, nofun, fun _ _ => rfl⟩
  | some p =>
    rw [ha] at hd hd'
    subst hd
    obtain ⟨hroot, rfl⟩ := hd'
    have hp := alloc.fresh ha
    -- nothing but the new item is below it
    have hbelow : ∀ q ∈ d.live, ¬ (d.created p value).Below q p := by
      intro q hq hqp
      rcases Forest.below_iff.mp hqp with rfl | ⟨c, hc, -⟩
      · exact hp hq
      · exact hp (d.live_of_mem hc).1
    refine ⟨fun _ => ?_, nofun, fun q hq => ?_⟩
    · ext q
      rw [removed, Forest.mem_live_remove hroot]
      constructor
      · rintro ⟨hq, hqp⟩
        refine (Finset.mem_insert.mp hq).resolve_left ?_
        rintro rfl
        exact hqp .refl
      · exact fun hq => ⟨Finset.mem_insert_of_mem hq, hbelow q hq⟩
    · rw [tree_removed hroot (Finset.mem_insert_of_mem hq) (hbelow q hq), tree_created hp hq]

theorem create_tree (alloc : Allocator P) (value : ItemValue) :
    Refines Models (create alloc value) d fun r d' =>
      r = alloc.item d.live ∧ d.Gains r (some (Document.assemble value [])) d' :=
  (create_refines alloc value).mono fun _ _ hd => ⟨hd.1, hd.gains⟩

/-- Each of these functions makes a root that holds the value, or returns NULL and leaves
    everything as it was. -/
theorem Creation.run_tree (alloc : Allocator P) (c : Creation) :
    Refines Models (c.run alloc) d fun r d' =>
      r = (if c.granted alloc then alloc.item d.live else none) ∧ d.Gains r c.value d' := by
  cases c with
  | null => exact create_tree alloc .null
  | true => exact create_tree alloc .true
  | false => exact create_tree alloc .false
  | bool b => cases b <;> exact create_tree alloc _
  | number num => exact create_tree alloc (.number num)
  | array => exact create_tree alloc .array
  | object => exact create_tree alloc .object
  | string text =>
    refine (cJSONCreateString_refines alloc text).mono fun r d' hd => ?_
    unfold Document.CreatedString at hd
    cases hcopy : cJSONStrdup alloc text with
    | some copy =>
      rw [hcopy] at hd
      -- the copy is the text
      obtain ⟨hstring, -⟩ := Option.filter_eq_some_iff.mp hcopy
      refine ⟨by simp [granted, hcopy, hd.1], ?_⟩
      rw [value, hstring]
      exact hd.gains
    | none =>
      rw [hcopy] at hd
      obtain ⟨rfl, d₁, hd₁, hd'⟩ := hd
      exact ⟨by simp [granted, hcopy], hd₁.gains_of_removed hd'⟩

/-! ## Lookups -/

namespace Document

omit [DecidableEq P] in
/-- The members of the value are the children, if they all have a name. -/
theorem child_tree_object (ha : d.value a = .object)
    (hnamed : ∀ c ∈ d.children a, d.string c ≠ none) :
    (d.tree a).child = (d.children a).map d.entry := by
  rw [tree_eq, ha]
  simp only [assemble, CJSON.child, List.map_map]
  refine List.map_congr_left fun c hc => ?_
  obtain ⟨name, hname⟩ := Option.ne_none_iff_exists'.mp (hnamed c hc)
  simp [entry, hname]

omit [DecidableEq P] in
/-- The values in an array or an object are those of the children. -/
theorem values_tree (ha : d.value a = .array ∨ d.value a = .object) :
    (d.tree a).child.map Prod.snd = (d.children a).map d.tree := by
  rw [tree_eq]
  rcases ha with ha | ha <;> simp [ha, assemble, CJSON.child, entry, Function.comp_def]

omit [DecidableEq P] in
/-- The first child of a name holds the value of the first member of that name. -/
theorem lookup_tree (ha : d.value a = .object) (hnamed : ∀ c ∈ d.children a, d.string c ≠ none)
    (name : CString) :
    (d.lookup (some a) (some name) false).map d.tree =
      Native.cJSONGetObjectItem (some (d.tree a)) name := by
  rw [Native.cJSONGetObjectItem, child_tree_object ha hnamed, List.find?_map, Option.map_map]
  rfl

end Document

/-- The lookup by name finds what the lookup in the value finds. -/
theorem cJSONGetObjectItem_tree (hm : Models h d) (hcontainer : d.IsContainer a)
    (ha : d.value a = .object) (hnamed : ∀ c ∈ d.children a, d.string c ≠ none)
    (name : CString) :
    ∃ r, (cJSONGetObjectItem (some a) (some name)).run h = .ok (r, h) ∧
      (cJSONHasObjectItem (some a) (some name)).run h = .ok (r.isSome, h) ∧
      r.map d.tree = Native.cJSONGetObjectItem (some (d.tree a)) name := by
  have hget : (cJSONGetObjectItem (some a) (some name)).run h =
      .ok (d.lookup (some a) (some name) false, h) := by
    rw [cJSONGetObjectItem, getObjectItem_run hm.represents hcontainer.1
      (hm.isReference ▸ hcontainer.2) (by simp), hm.string]
    rfl
  refine ⟨_, hget, ?_, Document.lookup_tree ha hnamed name⟩
  rw [cJSONHasObjectItem, StateT.run_bind, hget]
  cases d.lookup (some a) (some name) false <;> rfl

/-- In an object, by a name in another letter case. -/
theorem cJSONGetObjectItem_tree_sample :
    ∃ r, (cJSONGetObjectItem (some 0) (some (.lit "b"))).run sampleHeap = .ok (r, sampleHeap) ∧
      (cJSONHasObjectItem (some 0) (some (.lit "b"))).run sampleHeap =
        .ok (r.isSome, sampleHeap) ∧
      r.map sampleDocument.tree =
        Native.cJSONGetObjectItem (some (sampleDocument.tree 0)) (.lit "b") :=
  cJSONGetObjectItem_tree models_sampleHeap (isContainer_sampleDocument (by decide)) rfl
    (by decide) (.lit "b")

/-- In an array or an object the lookup by index finds what it finds in the value, and the size
    is the number of values. -/
theorem cJSONGetArrayItem_tree (hm : Models h d) (hcontainer : d.IsContainer a)
    (ha : d.value a = .array ∨ d.value a = .object) :
    (cJSONGetArraySize (some a)).run h =
        .ok (Native.cJSONGetArraySize (some (d.tree a)), h) ∧
      ∀ index, ∃ r, (cJSONGetArrayItem (some a) index).run h = .ok (r, h) ∧
        r.map d.tree = Native.cJSONGetArrayItem (some (d.tree a)) index := by
  have hvalues := Document.values_tree ha
  have hisReference : h.isReference a = false := hm.isReference ▸ hcontainer.2
  refine ⟨?_, fun index => ?_⟩
  -- as many children as values
  · have hlength := congrArg List.length hvalues
    rw [List.length_map, List.length_map] at hlength
    rw [cJSONGetArraySize_run hm.represents hcontainer.1 hisReference, ← hlength]
    rfl
  · by_cases hindex : index < 0
    · exact ⟨none, by simp [cJSONGetArrayItem, hindex], by simp [Native.cJSONGetArrayItem, hindex]⟩
    · simp only [cJSONGetArrayItem, Native.cJSONGetArrayItem, hindex, if_false]
      refine ⟨_, getArrayItem_run hm.represents hcontainer.1 hisReference _, ?_⟩
      rw [← List.getElem?_map, ← List.getElem?_map, hvalues]

theorem cJSONGetArrayItem_tree_sample :
    (cJSONGetArraySize (some 1)).run sampleHeap =
        .ok (Native.cJSONGetArraySize (some (sampleDocument.tree 1)), sampleHeap) ∧
      ∀ index, ∃ r, (cJSONGetArrayItem (some 1) index).run sampleHeap = .ok (r, sampleHeap) ∧
        r.map sampleDocument.tree =
          Native.cJSONGetArrayItem (some (sampleDocument.tree 1)) index :=
  cJSONGetArrayItem_tree models_sampleHeap (isContainer_sampleDocument (by decide)) (.inl rfl)

/-! ## Arrays as lists of values -/

/-- The value of `a` is `v` now, and all values that `a` is not part of are what they were. -/
structure Document.Becomes (d : Document P) (a : P) (v : CJSON) (d' : Document P) : Prop where
  value : d'.tree a = v
  others : ∀ p ∈ d'.live, ¬ d.Below a p → d'.tree p = d.tree p

theorem Document.Changed.live (hd : d.Changed a xs d') : d'.live = d.live := by
  obtain ⟨hset, rfl⟩ := hd
  rfl

/-- Dropping a root changes nothing about the list. -/
theorem Document.Becomes.removed {v : CJSON} (hd : d.Becomes a v d')
    (ha : a ∈ d'.live) (hx : d'.IsRoot x) (hax : ¬ d'.Below a x) :
    d.Becomes a v (d'.removed x hx) := by
  refine ⟨by rw [tree_removed hx ha hax, hd.value], fun p hp hpa => ?_⟩
  obtain ⟨hp, hpx⟩ := (Forest.mem_live_remove hx).mp hp
  rw [tree_removed hx hp hpx, hd.others p hp hpa]

/-- A child as a member of an object. -/
noncomputable def Document.member (d : Document P) (c : P) : CString × CJSON :=
  ((d.string c).getD (.lit ""), d.tree c)

end ArkInC.Native.Items
