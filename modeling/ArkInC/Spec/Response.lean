import ArkInC.ForStd.Except
import ArkInC.Native.Api

/-!
# Successful answers

Which responses get past the tests an endpoint function makes before it decodes
anything, and what it returns for the others.
-/

namespace ArkInC.Native

variable {α : Type} {ars : ArkRestResponse} {null : α} {decode : Option CJSON → Except Fault α}

/-- The response with exactly the bytes `b` and their terminator. -/
def complete (b : List UInt8) : ArkRestResponse where
  data := some (b ++ [0])
  size := b.length

/-- A response with the given body. -/
def ArkRestResponse.ofBody (body : String) : ArkRestResponse := complete (ascii body)

/-- The tree the body of a response parses to. -/
def ArkRestResponse.root (ars : ArkRestResponse) : Option CJSON :=
  cJSONParse (ars.data.map .ofBytes)

/-- The response is not empty, and its body parses to an object that reports success. -/
structure Successful (ars : ArkRestResponse) : Prop where
  size_ne : ars.size ≠ 0
  success : arkHelpersIsResponseSuccess ars.root ≠ 0

instance : DecidablePred Successful := fun ars =>
  decidable_of_iff (ars.size ≠ 0 ∧ arkHelpersIsResponseSuccess ars.root ≠ 0)
    ⟨fun h => ⟨h.1, h.2⟩, fun h => ⟨h.1, h.2⟩⟩

@[simp] theorem arkHelpersIsResponseSuccess_none : arkHelpersIsResponseSuccess none = 0 := rfl

/-- Only an object reports success. -/
theorem exists_object_of_success {root : Option CJSON} (h : arkHelpersIsResponseSuccess root ≠ 0) :
    ∃ members, root = some (.object members) := by
  cases hitem : cJSONGetObjectItem root (.lit "success") with
  | none => simp [arkHelpersIsResponseSuccess, hitem] at h
  | some item => exact exists_object_of_cJSONGetObjectItem hitem

/-- A body that reports success is there. -/
theorem data_ne_of_success (h : arkHelpersIsResponseSuccess ars.root ≠ 0) : ars.data ≠ none := by
  intro hdata
  simp [ArkRestResponse.root, hdata, cJSONParse] at h

/-- A successful answer is decoded. -/
theorem onResponse_of_successful (h : Successful ars) :
    onResponse ars null decode = decode ars.root := by
  rw [onResponse, if_neg (not_or.mpr ⟨h.size_ne, data_ne_of_success h.success⟩)]
  exact if_neg h.success

/-- Any other answer gives the null value. -/
theorem onResponse_of_not_successful (h : ¬ Successful ars) :
    onResponse ars null decode = .ok null := by
  -- the answer fails the test of the body, or the test of the root
  by_cases hbody : ars.size = 0 ∨ ars.data = none
  · rw [onResponse, if_pos hbody, Except.pure_eq]
  · rw [onResponse, if_neg hbody]
    exact if_pos (not_not.mp fun hsuccess => h ⟨fun hsize => hbody (.inl hsize), hsuccess⟩)

/-- An endpoint function completes when it can decode the root of a successful answer. -/
theorem onResponse_completes :
    (onResponse ars null decode).Completes ↔ (Successful ars → (decode ars.root).Completes) := by
  by_cases h : Successful ars
  · rw [onResponse_of_successful h]
    exact ⟨fun hdecode _ => hdecode, fun hdecode => hdecode h⟩
  · rw [onResponse_of_not_successful h]
    exact ⟨fun _ hsuccessful => absurd hsuccessful h, fun _ => Except.completes_ok _⟩

end ArkInC.Native
