import ArkInC.Spec.ItemDocument

/-!
# Programs that use the functions on items

A `Client` makes calls and decides by the replies how to go on. `Client.Allowed` says that each
of its calls meets the condition of the function called: what it adds is nowhere else, what it
takes out of a list is in it, and what it frees is a root.

- `Client.run_refines`: such a client never follows a pointer that is NULL or to a freed item,
  its loops end, and the heap it leaves holds the document its calls lead to
- `deleteAll_run`: freeing the roots, in any order, leaves nothing
-/

namespace ArkInC.Native.Items

variable {P : Type} [DecidableEq P] {h : Heap P} {d d' : Document P} {a p x y : P}

/-! ## Calls -/

/-- What a call returns. -/
inductive Reply (P : Type) where
  | done
  | item (item : Option P)
  | flag (b : Bool)
  | size (n : Int)

/-- The calls a client can make; `create` stands for the functions `cJSON_Create...` without a
    text. -/
inductive Call (P : Type) where
  | create (alloc : Allocator P) (value : ItemValue)
  | createString (alloc : Allocator P) (string : Option CString)
  | delete (item : Option P)
  | getArraySize (array : Option P)
  | getArrayItem (array : Option P) (index : Int)
  | getObjectItem (object : Option P) (string : Option CString) (caseSensitive : Bool)
  | addItemToArray (array item : Option P)
  | addItemToObject (alloc : Allocator P) (object : Option P) (string : Option CString)
      (item : Option P)
  | addItemToObjectCS (object : Option P) (string : Option CString) (item : Option P)
  | addItemReferenceToArray (alloc : Allocator P) (array item : Option P)
  | addItemReferenceToObject (alloc : Allocator P) (object : Option P)
      (string : Option CString) (item : Option P)
  | detachItemViaPointer (parent item : Option P)
  | detachItemFromArray (array : Option P) (which : Int)
  | detachItemFromObject (object : Option P) (string : Option CString) (caseSensitive : Bool)
  | deleteItemFromArray (array : Option P) (which : Int)
  | deleteItemFromObject (object : Option P) (string : Option CString) (caseSensitive : Bool)
  | insertItemInArray (array : Option P) (which : Int) (newitem : Option P)
  | replaceItemViaPointer (parent item replacement : Option P)
  | replaceItemInArray (array : Option P) (which : Int) (newitem : Option P)
  | replaceItemInObject (alloc : Allocator P) (object : Option P) (string : Option CString)
      (caseSensitive : Bool) (newitem : Option P)

namespace Call

/-- The function of the source that is called. -/
def run : Call P → Edit P (Reply P)
  | create alloc value => return .item (← Items.create alloc value)
  | createString alloc string => return .item (← cJSONCreateString alloc string)
  | delete item => do cJSONDelete item; return .done
  | getArraySize array => return .size (← cJSONGetArraySize array)
  | getArrayItem array index => return .item (← cJSONGetArrayItem array index)
  | getObjectItem object string false => return .item (← cJSONGetObjectItem object string)
  | getObjectItem object string true =>
    return .item (← cJSONGetObjectItemCaseSensitive object string)
  | addItemToArray array item => do cJSONAddItemToArray array item; return .done
  | addItemToObject alloc object string item => do
    cJSONAddItemToObject alloc object string item
    return .done
  | addItemToObjectCS object string item => do
    cJSONAddItemToObjectCS object string item
    return .done
  | addItemReferenceToArray alloc array item => do
    cJSONAddItemReferenceToArray alloc array item
    return .done
  | addItemReferenceToObject alloc object string item => do
    cJSONAddItemReferenceToObject alloc object string item
    return .done
  | detachItemViaPointer parent item => return .item (← cJSONDetachItemViaPointer parent item)
  | detachItemFromArray array which => return .item (← cJSONDetachItemFromArray array which)
  | detachItemFromObject object string false =>
    return .item (← cJSONDetachItemFromObject object string)
  | detachItemFromObject object string true =>
    return .item (← cJSONDetachItemFromObjectCaseSensitive object string)
  | deleteItemFromArray array which => do cJSONDeleteItemFromArray array which; return .done
  | deleteItemFromObject object string false => do
    cJSONDeleteItemFromObject object string
    return .done
  | deleteItemFromObject object string true => do
    cJSONDeleteItemFromObjectCaseSensitive object string
    return .done
  | insertItemInArray array which newitem => do
    cJSONInsertItemInArray array which newitem
    return .done
  | replaceItemViaPointer parent item replacement =>
    return .flag (← cJSONReplaceItemViaPointer parent item replacement)
  | replaceItemInArray array which newitem => do
    cJSONReplaceItemInArray array which newitem
    return .done
  | replaceItemInObject alloc object string false newitem => do
    cJSONReplaceItemInObject alloc object string newitem
    return .done
  | replaceItemInObject alloc object string true newitem => do
    cJSONReplaceItemInObjectCaseSensitive alloc object string newitem
    return .done

/-- The lists a call walks along are those of containers. -/
def Containers (d : Document P) (item : Option P) : Prop := ∀ a ∈ item, d.IsContainer a

/-- A case-sensitive search needs the names of all children. -/
def Searchable (d : Document P) (object : Option P) (caseSensitive : Bool) : Prop :=
  Containers d object ∧ (caseSensitive → ∀ x ∈ d.childrenOf object, d.string x ≠ none)

/-- The item may be put into the list, if neither is NULL. -/
def Addable (d : Document P) (array item : Option P) : Prop :=
  ∀ a ∈ array, ∀ y ∈ item, d.Attachable a y

/-- The item is in memory, if it is not NULL. -/
def Present (d : Document P) (item : Option P) : Prop := ∀ y ∈ item, y ∈ d.live

/-- When a call may be made. -/
def Allowed (d : Document P) : Call P → Prop
  | create _ _ => True
  | createString _ _ => True
  | delete item => ∀ x ∈ item, d.IsRoot x
  | getArraySize array => Containers d array
  | getArrayItem array _ => Containers d array
  | getObjectItem object _ caseSensitive => Searchable d object caseSensitive
  | addItemToArray array item => Addable d array item
  | addItemToObject _ object _ item => Present d item ∧ Addable d object item
  | addItemToObjectCS object _ item => Present d item ∧ Addable d object item
  | addItemReferenceToArray _ array item => Containers d array ∧ Present d item
  | addItemReferenceToObject _ object _ item => Containers d object ∧ Present d item
  | detachItemViaPointer parent item =>
    ∀ a ∈ parent, ∀ x ∈ item, d.IsContainer a ∧ x ∈ d.children a
  | detachItemFromArray array _ => Containers d array
  | detachItemFromObject object _ caseSensitive => Searchable d object caseSensitive
  | deleteItemFromArray array _ => Containers d array
  | deleteItemFromObject object _ caseSensitive => Searchable d object caseSensitive
  | insertItemInArray array which newitem => Containers d array ∧ Addable d array newitem ∧
    -- the pointers of NULL would be written
    (newitem = none → 0 ≤ which → (d.childrenOf array)[which.toNat]? = none)
  | replaceItemViaPointer parent item replacement =>
    ∀ a ∈ parent, ∀ x ∈ item, ∀ y ∈ replacement,
      x ∈ d.children a ∧ (y = x ∨ d.Attachable a y)
  | replaceItemInArray array _ newitem => Containers d array ∧ Addable d array newitem
  | replaceItemInObject _ object _ caseSensitive newitem =>
    Searchable d object caseSensitive ∧ Present d newitem ∧ Addable d object newitem

/-- What a call does to the document. -/
def Effect (d : Document P) (reply : Reply P) (d' : Document P) : Call P → Prop
  | create alloc value => ∃ r, reply = .item r ∧ d.Created alloc value r d'
  | createString alloc string => ∃ r, reply = .item r ∧ d.CreatedString alloc string r d'
  | delete item => reply = .done ∧ d.Removed item d'
  | getArraySize array => reply = .size (intOfSize (d.childrenOf array).length) ∧ d' = d
  | getArrayItem array index =>
    reply = .item (if index < 0 then none else (d.childrenOf array)[index.toNat]?) ∧ d' = d
  | getObjectItem object string caseSensitive =>
    reply = .item (d.lookup object string caseSensitive) ∧ d' = d
  | addItemToArray array item => reply = .done ∧ d.Appended array item d'
  | addItemToObject alloc object string item =>
    reply = .done ∧ d.AddedToObject alloc object string item d'
  | addItemToObjectCS object string item =>
    reply = .done ∧ d.AppendedNamed object string true item d'
  | addItemReferenceToArray alloc array item => reply = .done ∧
    if array = none then d' = d
    else ∃ r d₁, d.Referred alloc item r d₁ ∧ d₁.Appended array r d'
  | addItemReferenceToObject alloc object string item => reply = .done ∧
    if object = none ∨ string = none then d' = d
    else ∃ r d₁, d.Referred alloc item r d₁ ∧ d₁.AddedToObject alloc object string r d'
  | detachItemViaPointer parent item => ∃ r, reply = .item r ∧ d.Detached parent item r d'
  | detachItemFromArray array which => ∃ r, reply = .item r ∧ d.DetachedFromArray array which r d'
  | detachItemFromObject object string caseSensitive =>
    ∃ r, reply = .item r ∧ d.DetachedFromObject object string caseSensitive r d'
  | deleteItemFromArray array which => reply = .done ∧
    ∃ r d₁, d.DetachedFromArray array which r d₁ ∧ d₁.Removed r d'
  | deleteItemFromObject object string caseSensitive => reply = .done ∧
    ∃ r d₁, d.DetachedFromObject object string caseSensitive r d₁ ∧ d₁.Removed r d'
  | insertItemInArray array which newitem => reply = .done ∧ d.Inserted array which newitem d'
  | replaceItemViaPointer parent item replacement =>
    ∃ r, reply = .flag r ∧ d.Replaced parent item replacement r d'
  | replaceItemInArray array which newitem => reply = .done ∧
    if which < 0 then d' = d
    else ∃ r, d.Replaced array (d.childrenOf array)[which.toNat]? newitem r d'
  | replaceItemInObject alloc object string caseSensitive newitem => reply = .done ∧
    ∃ r, d.ReplacedInObject alloc object string caseSensitive newitem r d'

/-- A call that may be made does what it says. -/
theorem run_effect (c : Call P) (hc : c.Allowed d) :
    Refines Models c.run d fun r d' => c.Effect d r d' := by
  cases c with
  | create alloc value =>
    exact (create_refines alloc value).bind fun r d' hd' => .pure ⟨r, rfl, hd'⟩
  | createString alloc string =>
    exact (cJSONCreateString_refines alloc string).bind fun r d' hd' => .pure ⟨r, rfl, hd'⟩
  | delete item => exact (cJSONDelete_refines hc).bind fun r d' hd' => .pure ⟨rfl, hd'⟩
  | getArraySize array =>
    refine (cJSONGetArraySize_refines hc).bind ?_
    rintro r d' ⟨hr, rfl⟩
    exact .pure ⟨congrArg Reply.size hr, rfl⟩
  | getArrayItem array index =>
    by_cases hindex : index < 0
    -- a negative index finds nothing
    · simp only [run, cJSONGetArrayItem, Effect, hindex, if_true]
      exact .pure ⟨rfl, rfl⟩
    · simp only [run, cJSONGetArrayItem, Effect, hindex, if_false]
      refine (getArrayItem_refines hc index.toNat).bind ?_
      rintro r d' ⟨rfl, rfl⟩
      exact .pure ⟨rfl, rfl⟩
  | getObjectItem object string caseSensitive =>
    have hget := getObjectItem_refines string hc.1 hc.2
    -- both spellings of the function are the one with a flag
    cases caseSensitive <;>
    · refine hget.bind ?_
      rintro r d' ⟨rfl, rfl⟩
      exact .pure ⟨rfl, rfl⟩
  | addItemToArray array item =>
    exact (cJSONAddItemToArray_refines hc).bind fun _ d' hd' => .pure ⟨rfl, hd'⟩
  | addItemToObject alloc object string item =>
    exact (cJSONAddItemToObject_refines alloc hc.1 hc.2).bind fun _ d' hd' => .pure ⟨rfl, hd'⟩
  | addItemToObjectCS object string item =>
    exact (cJSONAddItemToObjectCS_refines hc.1 hc.2).bind fun _ d' hd' => .pure ⟨rfl, hd'⟩
  | addItemReferenceToArray alloc array item =>
    exact (cJSONAddItemReferenceToArray_refines alloc hc.1 hc.2).bind
      fun _ d' hd' => .pure ⟨rfl, hd'⟩
  | addItemReferenceToObject alloc object string item =>
    exact (cJSONAddItemReferenceToObject_refines alloc hc.1 hc.2).bind
      fun _ d' hd' => .pure ⟨rfl, hd'⟩
  | detachItemViaPointer parent item =>
    exact (cJSONDetachItemViaPointer_refines hc).bind fun r d' hd' => .pure ⟨r, rfl, hd'⟩
  | detachItemFromArray array which =>
    exact (cJSONDetachItemFromArray_refines hc which).bind fun r d' hd' => .pure ⟨r, rfl, hd'⟩
  | detachItemFromObject object string caseSensitive =>
    have hdetach := detachItemFromObject_refines string hc.1 hc.2
    cases caseSensitive <;> exact hdetach.bind fun r d' hd' => .pure ⟨r, rfl, hd'⟩
  | deleteItemFromArray array which =>
    exact (cJSONDeleteItemFromArray_refines hc which).bind fun _ d' hd' => .pure ⟨rfl, hd'⟩
  | deleteItemFromObject object string caseSensitive =>
    have hdelete := deleteItemFromObject_refines string hc.1 hc.2
    cases caseSensitive <;> exact hdelete.bind fun _ d' hd' => .pure ⟨rfl, hd'⟩
  | insertItemInArray array which newitem =>
    exact (cJSONInsertItemInArray_refines hc.1 hc.2.1 hc.2.2).bind
      fun _ d' hd' => .pure ⟨rfl, hd'⟩
  | replaceItemViaPointer parent item replacement =>
    exact (cJSONReplaceItemViaPointer_refines hc).bind fun r d' hd' => .pure ⟨r, rfl, hd'⟩
  | replaceItemInArray array which newitem =>
    exact (cJSONReplaceItemInArray_refines hc.1 hc.2).bind fun _ d' hd' => .pure ⟨rfl, hd'⟩
  | replaceItemInObject alloc object string caseSensitive newitem =>
    have hreplace := replaceItemInObject_refines alloc string hc.1.1 hc.1.2 hc.2.1
      hc.2.2
    -- what the function returns is dropped
    have hrun : Refines Models (do
        let _ ← Items.replaceItemInObject alloc object string newitem caseSensitive
        return ()) d fun _ d' =>
        ∃ r, d.ReplacedInObject alloc object string caseSensitive newitem r d' :=
      hreplace.bind fun r d' hd' => .pure ⟨r, hd'⟩
    cases caseSensitive <;> exact hrun.bind fun _ d' hd' => .pure ⟨rfl, hd'⟩

end Call

/-! ## Clients -/

/-- A program: it stops, or makes a call and goes on with what it returns. -/
inductive Client (P : Type) where
  | stop
  | call (c : Call P) (k : Reply P → Client P)

namespace Client

/-- Makes the calls. -/
def run : Client P → Edit P Unit
  | stop => return ()
  | call c k => do (k (← c.run)).run

/-- Every call may be made where it is made. -/
def Allowed : Client P → Document P → Prop
  | stop, _ => True
  | call c k, d => c.Allowed d ∧ ∀ r d', c.Effect d r d' → (k r).Allowed d'

/-- Frees the items one after the other. -/
def deleteAll : List P → Client P
  | [] => .stop
  | x :: xs => .call (.delete (some x)) fun _ => deleteAll xs

theorem deleteAll_refines {roots : List P} (hnodup : roots.Nodup)
    (hroots : ∀ x, x ∈ roots ↔ d.IsRoot x) :
    Refines Models (deleteAll roots).run d fun _ d' => d'.live = ∅ := by
  -- induction on the roots that are left
  induction roots generalizing d with
  | nil =>
    refine .pure (Finset.eq_empty_of_forall_notMem fun p hp => ?_)
    obtain ⟨r, hr, -⟩ := Forest.exists_root hp
    exact absurd ((hroots r).mpr hr) List.not_mem_nil
  | cons x xs ih =>
    obtain ⟨hx, hnodup⟩ := List.nodup_cons.mp hnodup
    have hroot : d.IsRoot x := (hroots x).mp List.mem_cons_self
    have hdelete := (Call.delete (some x)).run_effect (d := d) (by rintro y ⟨⟩; exact hroot)
    refine hdelete.bind fun r d₁ hd₁ => ih hnodup fun y => ?_
    obtain ⟨-, _, rfl⟩ := hd₁
    -- the other roots stay roots, and nothing becomes one
    refine Iff.trans ?_ (Forest.isRoot_remove hroot).symm
    rw [← hroots y, List.mem_cons]
    constructor
    · exact fun hy => ⟨.inr hy, by rintro rfl; exact hx hy⟩
    · exact fun hy => hy.1.resolve_left hy.2

/-- Nothing leaks: freeing the roots in any order frees every item, each of them once. -/
theorem deleteAll_run (hm : Models h d) {roots : List P} (hnodup : roots.Nodup)
    (hroots : ∀ x, x ∈ roots ↔ d.IsRoot x) :
    ∃ h', (deleteAll roots).run.run h = .ok ((), h') ∧ h'.live = ∅ := by
  obtain ⟨_, h', d', hrun, hm', hempty⟩ := deleteAll_refines hnodup hroots h hm
  exact ⟨h', hrun, hm'.represents.live ▸ hempty⟩

theorem deleteAll_run_sample :
    ∃ h', (deleteAll [5, 0]).run.run sampleHeap = .ok ((), h') ∧ h'.live = ∅ :=
  deleteAll_run models_sampleHeap (by decide) fun x => by
    rw [isRoot_sampleDocument, List.mem_pair, or_comm]

end Client

end ArkInC.Native.Items
