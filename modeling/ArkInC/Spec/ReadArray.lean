import ArkInC.ForStd.Except
import ArkInC.Native.Api
import Mathlib.Data.List.Forall2

/-!
# The list endpoints and the children they decode

The list endpoints count the children of a list, allocate, and look every child up by
its index. `readChildren` is the list of children that are decoded that way, and the
array holds their records in order.

## Key results

- `readArray_completes`: a list endpoint completes if every child it reads decodes
- `readArray_getElem`: its array holds the decoded children, in order
- `readArray_eq_error`: it fails at the first child that does not decode
-/

namespace ArkInC.Native

variable {α : Type} {decode : Nat → Except Fault α} {total : Nat}

/-! ## The loop -/

theorem fillArray_completes :
    (fillArray decode total).Completes ↔ ∀ i < total, (decode i).Completes := by
  induction total with
  | zero => simp [fillArray]
  | succ total ih =>
    simp only [fillArray, Except.completes_bind, Except.pure_eq, Except.completes_ok, and_true]
    constructor
    · rintro ⟨data, hdata, hlast⟩ i hi
      -- the indices below `total` were decoded by the loop so far
      rcases Nat.lt_succ_iff_lt_or_eq.mp hi with hlt | rfl
      · exact ih.mp ⟨data, hdata⟩ i hlt
      · exact hlast
    · intro h
      obtain ⟨data, hdata⟩ := ih.mpr fun i hi => h i (Nat.lt_succ_of_lt hi)
      exact ⟨data, hdata, h total (Nat.lt_succ_self total)⟩

/-- Every entry of the filled array is the record decoded for its index. -/
theorem fillArray_getElem {x : { data : List α // data.length = total }}
    (h : fillArray decode total = .ok x) (i : Nat) (hi : i < x.1.length) :
    decode i = .ok x.1[i] := by
  induction total with
  | zero => exact absurd (x.2 ▸ hi) (Nat.not_lt_zero i)
  | succ total ih =>
    simp only [fillArray, Except.pure_eq] at h
    obtain ⟨⟨data, hlen⟩, hdata, h⟩ := Except.bind_eq_ok.mp h
    obtain ⟨record, hrecord, h⟩ := Except.bind_eq_ok.mp h
    cases h
    -- an entry is from the turns before, or from the last one
    rcases Nat.lt_or_ge i data.length with hlt | hge
    · rw [ih hdata hlt, List.getElem_append_left hlt]
    · obtain rfl : i = total := by simp at hi; omega
      simp only [hrecord, List.getElem_append_right hge, hlen, Nat.sub_self, List.getElem_singleton]

/-- The loop stops at the first index that does not decode, with its fault. -/
theorem fillArray_eq_error {fault : Fault} :
    fillArray decode total = .error fault ↔
      ∃ i < total, decode i = .error fault ∧ ∀ j < i, (decode j).Completes := by
  induction total with
  | zero => simp [fillArray]
  | succ total ih =>
    simp only [fillArray, Except.pure_eq, Except.bind_eq_error, ih]
    constructor
    · rintro (⟨i, hi, herror, hbefore⟩ | ⟨data, hdata, herror⟩)
      · exact ⟨i, Nat.lt_succ_of_lt hi, herror, hbefore⟩
      -- the turns before went through
      · have herror : decode total = .error fault := by simpa using herror
        exact ⟨total, Nat.lt_succ_self total, herror, fillArray_completes.mp ⟨data, hdata⟩⟩
    · rintro ⟨i, hi, herror, hbefore⟩
      rcases Nat.lt_succ_iff_lt_or_eq.mp hi with hlt | rfl
      · exact .inl ⟨i, hlt, herror, hbefore⟩
      · obtain ⟨data, hdata⟩ := fillArray_completes.mpr hbefore
        exact .inr ⟨data, hdata, by simp [herror]⟩

/-- The array depends on the records at its indices, and on nothing else. -/
theorem fillArray_congr {decode' : Nat → Except Fault α} (h : ∀ i < total, decode i = decode' i) :
    fillArray decode total = fillArray decode' total := by
  induction total with
  | zero => rfl
  | succ total ih =>
    rw [fillArray, fillArray, ih fun i hi => h i (Nat.lt_succ_of_lt hi),
      h total (Nat.lt_succ_self total)]

/-! ## The children -/

/-- The children of an item. -/
def children : Option CJSON → List CJSON
  | none => []
  | some item => item.child.map Prod.snd

/-- The count of the children is their number, as long as that fits an `int`. -/
theorem cJSONGetArraySize_eq (list : Option CJSON) :
    cJSONGetArraySize list = ((children list).length : Int).bmod (2 ^ 32) := by
  cases list with
  | none => exact Int.zero_bmod.symm
  | some item =>
    have hlen : (children (some item)).length = item.child.length := List.length_map _
    rw [hlen]
    rfl

theorem cJSONGetArraySize_toNat_le (list : Option CJSON) :
    (cJSONGetArraySize list).toNat ≤ (children list).length := by
  -- past `INT_MAX` the count wraps to something smaller
  rw [cJSONGetArraySize_eq, Int.bmod_def]
  omega

/-- The child at an index. -/
theorem cJSONGetArrayItem_natCast (list : Option CJSON) (i : Nat) :
    cJSONGetArrayItem list i = (children list)[i]? := by
  cases list with
  | none => simp [cJSONGetArrayItem, children]
  | some item => simp [cJSONGetArrayItem, children]

/-- The children a list endpoint decodes: as many as it counts, if there is room. -/
def readChildren (t : Target) (record : ArkRecord) (list : Option CJSON) : List CJSON :=
  if t.malloc (t.arrayBytes record (cJSONGetArraySize list)) then
    (children list).take (cJSONGetArraySize list).toNat
  else []

section

variable {t : Target} {record : ArkRecord} {decode decode' : Nat → Option CJSON → Except Fault α}
  {list : Option CJSON}

/-- The counted children are there. -/
theorem length_take_children : ((children list).take (cJSONGetArraySize list).toNat).length =
    (cJSONGetArraySize list).toNat :=
  List.length_take_of_le (cJSONGetArraySize_toNat_le list)

/-- The loop over the children of a list looks up the counted ones. -/
private theorem cJSONGetArrayItem_take {i : Nat}
    (hi : i < ((children list).take (cJSONGetArraySize list).toNat).length) :
    cJSONGetArrayItem list i =
      some ((children list).take (cJSONGetArraySize list).toNat)[i] := by
  rw [cJSONGetArrayItem_natCast, List.getElem_take, List.getElem?_eq_getElem]

theorem decodeChildren_completes :
    (decodeChildren decode list).Completes ↔
      ∀ (i : Nat) (hi : i < ((children list).take (cJSONGetArraySize list).toNat).length),
        (decode i (some ((children list).take (cJSONGetArraySize list).toNat)[i])).Completes := by
  rw [decodeChildren, fillArray_completes]
  constructor
  · intro h i hi
    rw [← cJSONGetArrayItem_take hi]
    exact h i (length_take_children ▸ hi)
  · intro h i hi
    rw [← length_take_children] at hi
    rw [cJSONGetArrayItem_take hi]
    exact h i hi

/-- A list endpoint completes when every child it reads decodes. -/
theorem readArray_completes :
    (readArray t record decode list).Completes ↔
      ∀ (i : Nat) (hi : i < (readChildren t record list).length),
        (decode i (some (readChildren t record list)[i])).Completes := by
  by_cases hmalloc : t.malloc (t.arrayBytes record (cJSONGetArraySize list)) = true
  · simp only [readArray, readChildren, hmalloc, if_true, Bool.not_true, Bool.false_eq_true,
      if_false, Except.pure_eq, Except.completes_bind_pure]
    exact decodeChildren_completes
  · simp [readArray, readChildren, hmalloc]

/-- Where the index makes no difference to that, the children may be looked at one by one. -/
theorem readArray_completes_of_forall {P : CJSON → Prop}
    (hdecode : ∀ i item, (decode i (some item)).Completes ↔ P item) :
    (readArray t record decode list).Completes ↔
      ∀ item ∈ readChildren t record list, P item := by
  rw [readArray_completes, List.forall_mem_iff_getElem]
  exact forall₂_congr fun i hi => hdecode i _

/-- The array of a list endpoint holds the records of the children it reads, in order. -/
theorem readArray_getElem {tuple : ArkArray α} (h : readArray t record decode list = .ok tuple) :
    tuple.data.length = (readChildren t record list).length ∧
      ∀ (i : Nat) (hi : i < (readChildren t record list).length) (hi' : i < tuple.data.length),
        decode i (some (readChildren t record list)[i]) = .ok tuple.data[i] := by
  by_cases hmalloc : t.malloc (t.arrayBytes record (cJSONGetArraySize list)) = true
  · simp only [readArray, hmalloc, Bool.not_true, Bool.false_eq_true, if_false,
      Except.pure_eq] at h
    obtain ⟨⟨data, hdata⟩, hfill, h⟩ := Except.bind_eq_ok.mp h
    cases h
    simp only [readChildren, hmalloc, if_true]
    refine ⟨hdata.trans length_take_children.symm, fun i hi hi' => ?_⟩
    rw [← cJSONGetArrayItem_take hi]
    exact fillArray_getElem hfill i hi'
  -- without room nothing is read
  · simp only [readArray, hmalloc, Bool.not_false, if_true, Except.pure_eq] at h
    cases h
    simp [readChildren, hmalloc, ArkArray.empty]

/-- For a decoder that does not look at the index, that is a relation of the two lists. -/
theorem readArray_forall₂ {decode : Option CJSON → Except Fault α} {tuple : ArkArray α}
    (h : readArray t record (fun _ => decode) list = .ok tuple) :
    List.Forall₂ (fun item v => decode (some item) = .ok v) (readChildren t record list)
      tuple.data := by
  obtain ⟨hlength, hrecord⟩ := readArray_getElem h
  exact List.forall₂_iff_get.mpr ⟨hlength.symm, fun i hi hi' => hrecord i hi hi'⟩

/-- The array depends on the records of the children that are read, and on nothing else. -/
theorem readArray_congr (h : ∀ (i : Nat) (hi : i < (readChildren t record list).length),
    decode i (some (readChildren t record list)[i]) =
      decode' i (some (readChildren t record list)[i])) :
    readArray t record decode list = readArray t record decode' list := by
  by_cases hmalloc : t.malloc (t.arrayBytes record (cJSONGetArraySize list)) = true
  · simp only [readChildren, hmalloc, if_true] at h
    have hsame : decodeChildren decode list = decodeChildren decode' list := by
      refine fillArray_congr fun i hi => ?_
      rw [← length_take_children] at hi
      rw [cJSONGetArrayItem_take hi]
      exact h i hi
    simp only [readArray, hsame]
  · simp [readArray, hmalloc]

/-- A list endpoint fails at the first child that does not decode, with its fault. -/
theorem readArray_eq_error {fault : Fault} :
    readArray t record decode list = .error fault ↔
      ∃ (i : Nat) (hi : i < (readChildren t record list).length),
        decode i (some (readChildren t record list)[i]) = .error fault ∧
        ∀ (j : Nat) (hj : j < i), (decode j (some (readChildren t record list)[j])).Completes := by
  by_cases hmalloc : t.malloc (t.arrayBytes record (cJSONGetArraySize list)) = true
  · simp only [readArray, readChildren, hmalloc, if_true, Bool.not_true, Bool.false_eq_true,
      if_false, Except.pure_eq, Except.bind_eq_error, decodeChildren, fillArray_eq_error]
    constructor
    · rintro (⟨i, hi, herror, hbefore⟩ | ⟨data, -, herror⟩)
      · rw [← length_take_children] at hi
        rw [cJSONGetArrayItem_take hi] at herror
        refine ⟨i, hi, herror, fun j hj => ?_⟩
        rw [← cJSONGetArrayItem_take (hj.trans hi)]
        exact hbefore j hj
      · cases herror
    · rintro ⟨i, hi, herror, hbefore⟩
      rw [← cJSONGetArrayItem_take hi] at herror
      refine .inl ⟨i, length_take_children ▸ hi, herror, fun j hj => ?_⟩
      rw [cJSONGetArrayItem_take (hj.trans hi)]
      exact hbefore j hj
  · simp [readArray, readChildren, hmalloc]

end

end ArkInC.Native
