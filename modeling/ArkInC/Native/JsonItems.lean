import ArkInC.Native.Json
import Mathlib.Data.Finset.Basic
import Mathlib.Data.Finset.Card
import Mathlib.Logic.Function.Basic

/-!
# The linked lists of cJSON items

The functions of `cJSON-master/cJSON.c` that make items, free them, link them into arrays and
objects and look them up, on a heap of items: the blocks of memory that are allocated, and the
fields of each `struct cJSON`. Following a pointer is checked: a fault if it is NULL, or if the
item it points to has been freed. A loop along the lists is given as many turns as there are
items; only a list that leads back into itself needs more.

Strings are values here: where they lie, and the calls that free them, are left out.
-/

namespace ArkInC.Native.Items

open Binary64 (Double)

/-! ## The heap -/

/-- What goes wrong where a pointer is followed. -/
inductive ItemFault where
  /-- The pointer is NULL. -/
  | nullItem
  /-- `strcmp` is given NULL. -/
  | nullString
  /-- The item is not allocated. -/
  | freedItem
  /-- A loop does not end. -/
  | endless
  deriving DecidableEq

/-- `item->type` without its flags, with the value fields that go with it. -/
inductive ItemValue where
  | invalid
  | null
  | false
  | true
  | number (valuedouble : Double)
  | string (valuestring : CString)
  | array
  | object

/-- The items in memory: which addresses are allocated, and the fields of the item at each. -/
structure Heap (P : Type) where
  live : Finset P
  next : P → Option P
  prev : P → Option P
  child : P → Option P
  value : P → ItemValue
  string : P → Option CString
  stringIsConst : P → Bool
  isReference : P → Bool

/-- A function on the heap. -/
abbrev Edit (P α : Type) := StateT (Heap P) (Except ItemFault) α

/-- `if (c) { ... }` -/
def onlyIf {P : Type} (c : Prop) [Decidable c] (m : Edit P Unit) : Edit P Unit :=
  if c then m else return ()

/-- The memory functions: where a new item is put, and which texts a block is found for. -/
structure Allocator (P : Type) where
  item : Finset P → Option P
  /-- No block is handed out that is in use. -/
  fresh : ∀ {live p}, item live = some p → p ∉ live
  grants : CString → Bool

variable {P : Type} [DecidableEq P]

/-- The address of `*item`. -/
def follow (item : Option P) : Edit P P := fun h =>
  match item with
  | none => .error .nullItem
  | some p => if p ∈ h.live then .ok (p, h) else .error .freedItem

/-- Reads a field of `*item`. -/
def field (f : Heap P → P → α) (item : Option P) : Edit P α := do
  let p ← follow item
  return f (← get) p

/-- `item->next = v` -/
def setNext (item v : Option P) : Edit P Unit := do
  let p ← follow item
  modify fun h => { h with next := Function.update h.next p v }

/-- `item->prev = v` -/
def setPrev (item v : Option P) : Edit P Unit := do
  let p ← follow item
  modify fun h => { h with prev := Function.update h.prev p v }

/-- `item->child = v` -/
def setChild (item v : Option P) : Edit P Unit := do
  let p ← follow item
  modify fun h => { h with child := Function.update h.child p v }

/-- `item->type = v`, and the value fields. -/
def setValue (item : Option P) (v : ItemValue) : Edit P Unit := do
  let p ← follow item
  modify fun h => { h with value := Function.update h.value p v }

/-- `item->string = v` -/
def setString (item : Option P) (v : Option CString) : Edit P Unit := do
  let p ← follow item
  modify fun h => { h with string := Function.update h.string p v }

/-- `item->type |= cJSON_StringIsConst`, or `&= ~cJSON_StringIsConst` -/
def setStringIsConst (item : Option P) (v : Bool) : Edit P Unit := do
  let p ← follow item
  modify fun h => { h with stringIsConst := Function.update h.stringIsConst p v }

/-- `item->type |= cJSON_IsReference` -/
def setIsReference (item : Option P) (v : Bool) : Edit P Unit := do
  let p ← follow item
  modify fun h => { h with isReference := Function.update h.isReference p v }

/-- `global_hooks.deallocate(item)` -/
def deallocate (item : Option P) : Edit P Unit := do
  let p ← follow item
  modify fun h => { h with live := h.live.erase p }

/-- `cJSON_strdup`: the text, unless it is NULL or no block is found for the copy. -/
def cJSONStrdup (a : Allocator P) (string : Option CString) : Option CString :=
  string.filter a.grants

/-! ## Making and freeing items -/

/-- The heap with one more item, whose fields are all zero. -/
def Heap.zeroed (h : Heap P) (p : P) : Heap P where
  live := insert p h.live
  next := Function.update h.next p none
  prev := Function.update h.prev p none
  child := Function.update h.child p none
  value := Function.update h.value p .invalid
  string := Function.update h.string p none
  stringIsConst := Function.update h.stringIsConst p false
  isReference := Function.update h.isReference p false

/-- `cJSON_New_Item`: an item whose fields are all zero, or NULL. -/
def cJSONNewItem (a : Allocator P) : Edit P (Option P) := do
  match a.item (← get).live with
  | none => return none
  | some p =>
    modify (·.zeroed p)
    return some p

/-- `cJSON_Delete`, with at most `fuel` turns and calls inside each other. -/
def deleteItems : Nat → Option P → Edit P Unit
  | 0, _ => throw .endless
  | _ + 1, none => return ()
  | fuel + 1, some p => do
    let next ← field Heap.next (some p)
    let child ← field Heap.child (some p)
    let isReference ← field Heap.isReference (some p)
    -- the children of a reference are those of another item
    onlyIf (!isReference ∧ child ≠ none) (deleteItems fuel child)
    deallocate (some p)
    deleteItems fuel next

def cJSONDelete (item : Option P) : Edit P Unit := do
  deleteItems ((← get).live.card + 1) item

/-- The common shape of the functions `cJSON_Create...`: a new item, and its type. -/
def create (a : Allocator P) (v : ItemValue) : Edit P (Option P) := do
  let item ← cJSONNewItem a
  onlyIf (item ≠ none) (setValue item v)
  return item

def cJSONCreateNull (a : Allocator P) : Edit P (Option P) := create a .null

def cJSONCreateTrue (a : Allocator P) : Edit P (Option P) := create a .true

def cJSONCreateFalse (a : Allocator P) : Edit P (Option P) := create a .false

def cJSONCreateBool (a : Allocator P) (b : Bool) : Edit P (Option P) :=
  create a (if b then .true else .false)

def cJSONCreateNumber (a : Allocator P) (num : Double) : Edit P (Option P) :=
  create a (.number num)

def cJSONCreateArray (a : Allocator P) : Edit P (Option P) := create a .array

def cJSONCreateObject (a : Allocator P) : Edit P (Option P) := create a .object

/-- `cJSON_CreateString`: if no copy of the text can be had, the item is freed again. -/
def cJSONCreateString (a : Allocator P) (string : Option CString) : Edit P (Option P) := do
  let item ← cJSONNewItem a
  if item = none then return none
  match cJSONStrdup a string with
  | some copy =>
    setValue item (.string copy)
    return item
  | none =>
    cJSONDelete item
    return none

/-! ## Lookups -/

/-- `(int)size` -/
def intOfSize (size : Nat) : Int := (size : Int).bmod (2 ^ 32)

/-- The loop of `cJSON_GetArraySize`. -/
def countItems : Nat → Option P → Edit P Nat
  | 0, _ => throw .endless
  | _ + 1, none => return 0
  | fuel + 1, some p => do return (← countItems fuel (← field Heap.next (some p))) + 1

def cJSONGetArraySize (array : Option P) : Edit P Int := do
  if array = none then return 0
  let size ← countItems ((← get).live.card + 1) (← field Heap.child array)
  return intOfSize size

/-- The loop of `get_array_item`. -/
def skipItems : Nat → Option P → Edit P (Option P)
  | _, none => return none
  | 0, some p => return some p
  | index + 1, some p => do skipItems index (← field Heap.next (some p))

/-- `get_array_item` -/
def getArrayItem (array : Option P) (index : Nat) : Edit P (Option P) := do
  if array = none then return none
  skipItems index (← field Heap.child array)

def cJSONGetArrayItem (array : Option P) (index : Int) : Edit P (Option P) :=
  if index < 0 then return none else getArrayItem array index.toNat

/-- Whether a name is another than that of an item, as `get_object_item` compares them. -/
def differs (caseSensitive : Bool) (name : CString) (string : Option CString) :
    Except ItemFault Bool :=
  if caseSensitive then
    match string with
    | none => .error .nullString
    | some string => .ok (strcmp name string ≠ 0)
  else .ok (caseInsensitiveStrcmp (some name) string ≠ 0)

/-- The loops of `get_object_item`. -/
def findItem (caseSensitive : Bool) (name : CString) : Nat → Option P → Edit P (Option P)
  | 0, _ => throw .endless
  | _ + 1, none => return none
  | fuel + 1, some p => do
    if ← differs caseSensitive name (← field Heap.string (some p)) then
      findItem caseSensitive name fuel (← field Heap.next (some p))
    else return some p

/-- `get_object_item` -/
def getObjectItem (object : Option P) (name : Option CString) (caseSensitive : Bool) :
    Edit P (Option P) := do
  if object = none then return none
  match name with
  | none => return none
  | some name =>
    findItem caseSensitive name ((← get).live.card + 1) (← field Heap.child object)

def cJSONGetObjectItem (object : Option P) (string : Option CString) : Edit P (Option P) :=
  getObjectItem object string false

def cJSONGetObjectItemCaseSensitive (object : Option P) (string : Option CString) :
    Edit P (Option P) :=
  getObjectItem object string true

def cJSONHasObjectItem (object : Option P) (string : Option CString) : Edit P Bool := do
  return (← cJSONGetObjectItem object string) ≠ none

/-! ## Adding items -/

/-- `suffix_object` -/
def suffixObject (prev item : Option P) : Edit P Unit := do
  setNext prev item
  setPrev item prev

/-- `create_reference`: a copy of the fields of an item, but not of its name and place. -/
def createReference (a : Allocator P) (item : Option P) : Edit P (Option P) := do
  if item = none then return none
  let reference ← cJSONNewItem a
  if reference = none then return none
  setChild reference (← field Heap.child item)
  setValue reference (← field Heap.value item)
  setStringIsConst reference (← field Heap.stringIsConst item)
  setIsReference reference true
  return reference

/-- The loop of `cJSON_AddItemToArray`. -/
def lastItem : Nat → Option P → Edit P (Option P)
  | 0, _ => throw .endless
  | fuel + 1, child => do
    let next ← field Heap.next child
    if next = none then return child
    lastItem fuel next

def cJSONAddItemToArray (array item : Option P) : Edit P Unit := do
  if item = none ∨ array = none then return
  let child ← field Heap.child array
  if child = none then
    -- the list is empty
    setChild array item
  else
    let last ← lastItem ((← get).live.card + 1) child
    suffixObject last item

def cJSONAddItemToObjectCS (object : Option P) (string : Option CString) (item : Option P) :
    Edit P Unit := do
  if item = none ∨ string = none then return
  setString item string
  setStringIsConst item true
  cJSONAddItemToArray object item

def cJSONAddItemToObject (a : Allocator P) (object : Option P) (string : Option CString)
    (item : Option P) : Edit P Unit := do
  if item = none then return
  cJSONAddItemToObjectCS object (cJSONStrdup a string) item
  setStringIsConst item false

def cJSONAddItemReferenceToArray (a : Allocator P) (array item : Option P) : Edit P Unit := do
  if array = none then return
  cJSONAddItemToArray array (← createReference a item)

def cJSONAddItemReferenceToObject (a : Allocator P) (object : Option P)
    (string : Option CString) (item : Option P) : Edit P Unit := do
  if object = none ∨ string = none then return
  cJSONAddItemToObject a object string (← createReference a item)

/-! ## Taking items out -/

def cJSONDetachItemViaPointer (parent item : Option P) : Edit P (Option P) := do
  if parent = none ∨ item = none then return none
  let prev ← field Heap.prev item
  -- not the first element
  onlyIf (prev ≠ none) do setNext prev (← field Heap.next item)
  let next ← field Heap.next item
  -- not the last element
  onlyIf (next ≠ none) do setPrev next (← field Heap.prev item)
  let child ← field Heap.child parent
  -- first element
  onlyIf (item = child) do setChild parent (← field Heap.next item)
  -- the detached item does not point anywhere anymore
  setPrev item none
  setNext item none
  return item

def cJSONDetachItemFromArray (array : Option P) (which : Int) : Edit P (Option P) := do
  if which < 0 then return none
  cJSONDetachItemViaPointer array (← getArrayItem array which.toNat)

def cJSONDeleteItemFromArray (array : Option P) (which : Int) : Edit P Unit := do
  cJSONDelete (← cJSONDetachItemFromArray array which)

def cJSONDetachItemFromObject (object : Option P) (string : Option CString) :
    Edit P (Option P) := do
  cJSONDetachItemViaPointer object (← cJSONGetObjectItem object string)

def cJSONDetachItemFromObjectCaseSensitive (object : Option P) (string : Option CString) :
    Edit P (Option P) := do
  cJSONDetachItemViaPointer object (← cJSONGetObjectItemCaseSensitive object string)

def cJSONDeleteItemFromObject (object : Option P) (string : Option CString) : Edit P Unit := do
  cJSONDelete (← cJSONDetachItemFromObject object string)

def cJSONDeleteItemFromObjectCaseSensitive (object : Option P) (string : Option CString) :
    Edit P Unit := do
  cJSONDelete (← cJSONDetachItemFromObjectCaseSensitive object string)

/-! ## Putting items in -/

def cJSONInsertItemInArray (array : Option P) (which : Int) (newitem : Option P) :
    Edit P Unit := do
  if which < 0 then return
  let afterInserted ← getArrayItem array which.toNat
  if afterInserted = none then
    -- there is no item at that index
    cJSONAddItemToArray array newitem
  else
    setNext newitem afterInserted
    setPrev newitem (← field Heap.prev afterInserted)
    setPrev afterInserted newitem
    let child ← field Heap.child array
    if afterInserted = child then setChild array newitem
    else setNext (← field Heap.prev newitem) newitem

def cJSONReplaceItemViaPointer (parent item replacement : Option P) : Edit P Bool := do
  if parent = none ∨ replacement = none ∨ item = none then return false
  if replacement = item then return true
  setNext replacement (← field Heap.next item)
  setPrev replacement (← field Heap.prev item)
  let next ← field Heap.next replacement
  onlyIf (next ≠ none) (setPrev next replacement)
  let prev ← field Heap.prev replacement
  onlyIf (prev ≠ none) (setNext prev replacement)
  let child ← field Heap.child parent
  onlyIf (child = item) (setChild parent replacement)
  -- only this item is deleted, not those behind it
  setNext item none
  setPrev item none
  cJSONDelete item
  return true

def cJSONReplaceItemInArray (array : Option P) (which : Int) (newitem : Option P) :
    Edit P Unit := do
  if which < 0 then return
  let item ← getArrayItem array which.toNat
  let _ ← cJSONReplaceItemViaPointer array item newitem

/-- `replace_item_in_object`: the replacement takes the name, whether it finds an item or not. -/
def replaceItemInObject (a : Allocator P) (object : Option P) (string : Option CString)
    (replacement : Option P) (caseSensitive : Bool) : Edit P Bool := do
  if replacement = none ∨ string = none then return false
  setString replacement (cJSONStrdup a string)
  setStringIsConst replacement false
  let item ← getObjectItem object string caseSensitive
  let _ ← cJSONReplaceItemViaPointer object item replacement
  return true

def cJSONReplaceItemInObject (a : Allocator P) (object : Option P) (string : Option CString)
    (newitem : Option P) : Edit P Unit := do
  let _ ← replaceItemInObject a object string newitem false

def cJSONReplaceItemInObjectCaseSensitive (a : Allocator P) (object : Option P)
    (string : Option CString) (newitem : Option P) : Edit P Unit := do
  let _ ← replaceItemInObject a object string newitem true

end ArkInC.Native.Items
