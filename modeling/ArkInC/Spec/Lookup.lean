import ArkInC.Native.Json
import Mathlib.Data.List.Basic

/-!
# Lookups in objects

What the members of an object say about a name, without the loop of
`get_object_item`: the value of the first member that has the name up to letter case, or
that no member has it.

## Key results

- `cJSONGetObjectItem_eq_some_iff`, `cJSONGetObjectItem_eq_none_iff`: what a lookup finds
-/

namespace ArkInC.Native

/-- A name as lookups compare it, up to letter case. -/
def CString.lower (name : CString) : List UInt8 := name.bytes.map tolower

/-- The first member with the name, up to letter case, has the value `v`. -/
def FirstMember (members : List (CString × CJSON)) (name : String) (v : CJSON) : Prop :=
  ∃ key before after, members = before ++ (key, v) :: after ∧
    key.lower = (CString.lit name).lower ∧
    ∀ member ∈ before, member.1.lower ≠ (CString.lit name).lower

/-- No member has the name, up to letter case. -/
def NoMember (members : List (CString × CJSON)) (name : String) : Prop :=
  ∀ member ∈ members, member.1.lower ≠ (CString.lit name).lower

instance (members : List (CString × CJSON)) (name : String) : Decidable (NoMember members name) :=
  inferInstanceAs (Decidable (∀ member ∈ members, member.1.lower ≠ (CString.lit name).lower))

variable {members : List (CString × CJSON)} {name : String} {v : CJSON}

/-- A lookup in an object finds the first member of that name. -/
theorem cJSONGetObjectItem_object (members : List (CString × CJSON)) (name : CString) :
    cJSONGetObjectItem (some (.object members)) name =
      (members.find? fun member => decide (name.lower = member.1.lower)).map Prod.snd := by
  simp only [cJSONGetObjectItem, CJSON.child, List.find?_map, Option.map_map, Function.comp_def,
    caseInsensitiveStrcmp_some, CString.lower]
  rfl

theorem cJSONGetObjectItem_eq_some_iff :
    cJSONGetObjectItem (some (.object members)) (.lit name) = some v ↔
      FirstMember members name v := by
  rw [cJSONGetObjectItem_object, Option.map_eq_some_iff]
  constructor
  · rintro ⟨⟨key, v⟩, hfind, rfl⟩
    -- the loop stops at the first name that matches
    obtain ⟨hkey, before, after, hsplit, hbefore⟩ := List.find?_eq_some_iff_append.mp hfind
    refine ⟨key, before, after, hsplit, (of_decide_eq_true hkey).symm, fun member hmember => ?_⟩
    have hother := hbefore member hmember
    rw [Bool.not_eq_true', decide_eq_false_iff_not] at hother
    exact Ne.symm hother
  · rintro ⟨key, before, after, hsplit, hkey, hbefore⟩
    refine ⟨(key, v), List.find?_eq_some_iff_append.mpr ⟨decide_eq_true hkey.symm, before, after,
      hsplit, fun member hmember => ?_⟩, rfl⟩
    rw [Bool.not_eq_true', decide_eq_false_iff_not]
    exact (hbefore member hmember).symm

theorem cJSONGetObjectItem_eq_none_iff :
    cJSONGetObjectItem (some (.object members)) (.lit name) = none ↔ NoMember members name := by
  rw [cJSONGetObjectItem_object, Option.map_eq_none_iff, List.find?_eq_none]
  simp only [decide_eq_true_eq, NoMember, ne_comm, ne_eq]

/-- There is one first member of a name, or none. -/
theorem FirstMember.unique {w : CJSON} (hv : FirstMember members name v)
    (hw : FirstMember members name w) : v = w :=
  Option.some.inj ((cJSONGetObjectItem_eq_some_iff.mpr hv).symm.trans
    (cJSONGetObjectItem_eq_some_iff.mpr hw))

theorem FirstMember.not_noMember (hv : FirstMember members name v) : ¬ NoMember members name :=
  fun hno => nomatch (cJSONGetObjectItem_eq_some_iff.mpr hv).symm.trans
    (cJSONGetObjectItem_eq_none_iff.mpr hno)

theorem exists_firstMember_or_noMember (members : List (CString × CJSON)) (name : String) :
    (∃ v, FirstMember members name v) ∨ NoMember members name := by
  -- one or the other is what a lookup finds
  cases h : cJSONGetObjectItem (some (.object members)) (.lit name) with
  | none => exact .inr (cJSONGetObjectItem_eq_none_iff.mp h)
  | some v => exact .inl ⟨v, cJSONGetObjectItem_eq_some_iff.mp h⟩

end ArkInC.Native
