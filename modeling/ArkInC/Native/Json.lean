import ArkInC.Native.CLib

/-!
# cJSON items and lookups

The tree `cJSON_Parse` builds, from `cJSON-master/cJSON.c`. An item of the source is
a `struct cJSON` whose `type` says which of its value fields are meant; here every
type is a constructor that holds just those, and the value fields of the source
(`valuestring`, `valueint`, `valuedouble`) are functions that give the zero of the
freshly allocated item where the type has no value of that kind. The linked list
from `child` along `next` is a list, an element being paired with its `string`.
-/

namespace ArkInC.Native

open Binary64 (Double)

/-- A `cJSON` item. -/
inductive CJSON where
  | null
  | false
  | true
  | number (valuedouble : Double)
  | string (valuestring : CString)
  | array (child : List CJSON)
  | object (child : List (CString × CJSON))

namespace CJSON

/-- `item->valuestring`, NULL unless the item is a string. -/
def valuestring : CJSON → Option CString
  | string s => some s
  | _ => none

/-- `item->valuedouble`, zero unless the item is a number. -/
def valuedouble : CJSON → Double
  | number d => d
  | _ => 0

end CJSON

/-- The saturating conversion with which `parse_number` fills in `valueint`. -/
def saturateInt (number : Double) : Int :=
  match number with
  | .infinite negative => if negative then INT_MIN else INT_MAX
  | .finite q =>
    -- `(int)number` is only evaluated where it is defined
    if INT_MAX ≤ q then INT_MAX
    else if q ≤ INT_MIN then INT_MIN
    else number.truncate.getD 0
  | .negZero => 0

namespace CJSON

/-- `item->valueint`: one for `true`, the saturated value for a number, zero otherwise. -/
def valueint : CJSON → Int
  | true => 1
  | number d => saturateInt d
  | _ => 0

/-- The children of an item, each with its `string`; it is NULL inside an array. -/
def child : CJSON → List (Option CString × CJSON)
  | array items => items.map fun item => (none, item)
  | object members => members.map fun member => (some member.1, member.2)
  | _ => []

end CJSON

def cJSONIsNumber : CJSON → Bool
  | .number _ => true
  | _ => false

def cJSONIsString : CJSON → Bool
  | .string _ => true
  | _ => false

/-- Compares up to letter case; NULL is not equal to anything. -/
def caseInsensitiveStrcmp : Option CString → Option CString → Int
  | some a, some b => compareBytes tolower a.bytes b.bytes
  | _, _ => 1

/-- The first child whose `string` is `name` up to letter case. -/
def cJSONGetObjectItem (object : Option CJSON) (name : CString) : Option CJSON :=
  match object with
  | none => none
  | some object =>
    (object.child.find? fun element => caseInsensitiveStrcmp (some name) element.1 = 0).map Prod.snd

/-- The number of children, as an `int`. -/
def cJSONGetArraySize (array : Option CJSON) : Int :=
  match array with
  | none => 0
  | some array => (array.child.length : Int).bmod (2 ^ 32)

/-- The child at an index, found by walking the list from its head. -/
def cJSONGetArrayItem (array : Option CJSON) (index : Int) : Option CJSON :=
  if index < 0 then none
  else
    match array with
    | none => none
    | some array => array.child[index.toNat]?.map Prod.snd

/-- Reads a field of `*item`: a fault if the pointer is NULL. -/
def deref (item : Option CJSON) : Except Fault CJSON :=
  match item with
  | none => .error .nullItem
  | some item => .ok item

/-! ## Lookups -/

/-- `tolower` keeps bytes apart from NUL. -/
theorem tolower_eq_zero (b : UInt8) : tolower b = 0 ↔ b = 0 := by
  unfold tolower
  split
  · next h =>
    have hrange : 65 ≤ b.toNat ∧ b.toNat ≤ 90 := h
    have hadd : (b + 32).toNat = b.toNat + 32 := by
      rw [UInt8.toNat_add]; exact Nat.mod_eq_of_lt (show b.toNat + 32 < 2 ^ 8 by omega)
    rw [← UInt8.toNat_inj, ← UInt8.toNat_inj, hadd, UInt8.toNat_zero]
    omega
  · exact Iff.rfl

@[simp] theorem caseInsensitiveStrcmp_none (a : Option CString) :
    caseInsensitiveStrcmp a none ≠ 0 := by
  cases a <;> simp [caseInsensitiveStrcmp]

/-- Two names are found equal exactly when they agree up to letter case. -/
@[simp] theorem caseInsensitiveStrcmp_some (a b : CString) :
    caseInsensitiveStrcmp (some a) (some b) = 0 ↔ a.bytes.map tolower = b.bytes.map tolower :=
  compareBytes_eq_zero tolower_eq_zero a.noNul b.noNul

@[simp] theorem cJSONGetObjectItem_none (name : CString) : cJSONGetObjectItem none name = none :=
  rfl

/-- The elements of an array have no name, so no lookup finds one. -/
@[simp] theorem cJSONGetObjectItem_array (items : List CJSON) (name : CString) :
    cJSONGetObjectItem (some (.array items)) name = none := by
  simp [cJSONGetObjectItem, CJSON.child]

/-- Only an object has members. -/
theorem exists_object_of_cJSONGetObjectItem {item : Option CJSON} {name : CString} {v : CJSON}
    (h : cJSONGetObjectItem item name = some v) : ∃ members, item = some (.object members) := by
  cases item with
  | none => simp at h
  | some item =>
    cases item with
    | object members => exact ⟨members, rfl⟩
    | array items => simp at h
    -- the other items have no children
    | _ => simp [cJSONGetObjectItem, CJSON.child] at h

@[simp] theorem deref_some (item : CJSON) : deref (some item) = .ok item := rfl

@[simp] theorem deref_none : deref none = .error .nullItem := rfl

/-- The saturated value of an integer that fits an `int` is the integer. -/
theorem saturateInt_natCast_of_le {n : Nat} (hn : (n : Int) ≤ INT_MAX) :
    saturateInt (n : Double) = n := by
  have hmin : ¬ ((n : ℚ) ≤ (INT_MIN : Int)) := by
    rw [not_le]
    exact lt_of_lt_of_le (by norm_num [INT_MIN]) (Nat.cast_nonneg n)
  -- not negative, so the cast takes the floor
  have hnonneg : (0 : ℚ) ≤ n := Nat.cast_nonneg n
  simp only [saturateInt, Double.truncate, if_neg hmin, if_pos hnonneg]
  split
  · next hmax =>
    have : INT_MAX ≤ n := by exact_mod_cast hmax
    omega
  · simp

theorem saturateInt_range (d : Double) : INT_MIN ≤ saturateInt d ∧ saturateInt d ≤ INT_MAX := by
  have hends : INT_MIN ≤ INT_MAX := by decide
  cases d with
  | infinite negative => cases negative <;> exact ⟨by decide, by decide⟩
  | negZero => exact ⟨by decide, by decide⟩
  | finite q =>
    simp only [saturateInt, Double.truncate, Option.getD_some]
    split
    · exact ⟨hends, le_rfl⟩
    · next hmax =>
      rw [not_le] at hmax
      split
      · exact ⟨le_rfl, hends⟩
      · next hmin =>
        rw [not_le] at hmin
        split
        · exact ⟨Int.le_floor.mpr hmin.le, Int.floor_le_iff.mpr (hmax.trans (lt_add_one _))⟩
        · exact ⟨Int.le_ceil_iff.mpr ((sub_one_lt _).trans hmin), Int.ceil_le.mpr hmax.le⟩

/-- A number whose value is an `int` is read exactly. -/
theorem saturateInt_of_value {d : Double} {n : Int} (h : d.value = some (n : ℚ))
    (hlo : INT_MIN ≤ n) (hhi : n ≤ INT_MAX) : saturateInt d = n := by
  cases d with
  | infinite => exact nomatch h
  | negZero =>
    have hn : ((n : ℚ) : ℚ) = 0 := (Option.some.inj h).symm
    exact (Int.cast_eq_zero.mp hn).symm
  | finite q =>
    obtain rfl : q = n := Option.some.inj h
    simp only [saturateInt, Double.truncate, Int.floor_intCast, Int.ceil_intCast, ite_self,
      Option.getD_some, Int.cast_le]
    split
    · omega
    · split
      · omega
      · rfl

/-- Any larger integer saturates. -/
theorem saturateInt_natCast_of_ge {n : Nat} (hn : INT_MAX ≤ n) :
    saturateInt (n : Double) = INT_MAX := by
  have hmax : ((INT_MAX : Int) : ℚ) ≤ n := by exact_mod_cast hn
  simp only [saturateInt, Binary64.natCast_def, if_pos hmax]

end ArkInC.Native
