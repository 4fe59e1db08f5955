import ArkInC.Spec.Endpoint
import ArkInC.Spec.JsonText

/-!
# Amounts and counts

How the client reads the whole numbers a node sends: the fees of a node, which
`ark_api_fees_get` rounds to a `long` and `ark_api_blocks_getFee` takes from the
saturated `int` of cJSON, the balance of a voter and the block counts of a delegate.

## Key results

- `Amount.readsExactly_iff`: which numbers a place returns unchanged
- `amountsExact_iff`: which numbers every place returns unchanged
-/

namespace ArkInC.Native

open Binary64 (Double)
open Endpoint (HasMember)

/-! ## The two conversions -/

/-- A number that is not negative keeps its value as a saturated `int` if it is one. -/
theorem saturateInt_natCast_eq_iff {n : Nat} :
    saturateInt (n : Double) = n ↔ (n : Int) ≤ INT_MAX := by
  refine ⟨fun h => ?_, saturateInt_natCast_of_le⟩
  -- beyond the range the value is `INT_MAX`, which is smaller
  by_contra hlt
  have hmax := saturateInt_natCast_of_ge (n := n) (by omega)
  omega

/-- A number that is not negative keeps its value as a `long` if it is one. -/
theorem roundToLong_natCast_eq_iff {t : Target} {n : Nat} :
    t.roundToLong (n : Double) = n ↔ (n : Int) < 2 ^ (t.longBits - 1) := by
  -- out of range the cast gives some `long`, which the number is not
  refine ⟨fun h => h ▸ (t.roundToLong_range _).2, fun h => ?_⟩
  have hmin : -2 ^ (t.longBits - 1) ≤ (n : Int) := by
    have : (0 : Int) < 2 ^ (t.longBits - 1) := by positivity
    omega
  simp only [Target.roundToLong, Binary64.truncate_addHalf_natCast, if_pos (And.intro hmin h)]

/-! ## Where numbers are read -/

/-- The fields of the fees. -/
inductive FeeField where
  | send
  | vote
  | secondSignature
  | delegate
  | multiSignature
  deriving DecidableEq, Repr

namespace FeeField

/-- The member the field is read from. -/
def member : FeeField → String
  | send => "send"
  | vote => "vote"
  | secondSignature => "secondsignature"
  | delegate => "delegate"
  | multiSignature => "multisignature"

def value : FeeField → ArkFee → Int
  | send, fee => fee.send
  | vote, fee => fee.vote
  | secondSignature, fee => fee.secondSignature
  | delegate, fee => fee.delegate
  | multiSignature, fee => fee.multiSignature

end FeeField

/-- The node behind `get` answers `/api/blocks/getFee` with the fee `n`. -/
def SendsFee (get : Get) (ip : Option CString) (port : Int) (n : Nat) : Prop :=
  ∃ ars, get (snprintfUrl (hostUrl ip port "/api/blocks/getFee")) = .ok ars ∧ Successful ars ∧
    cJSONGetObjectItem ars.root (.lit "fee") = some (.number n)

/-- The node behind `get` answers `/api/blocks/getfees` with all five fees, `n` for one
    of them. -/
def SendsFees (get : Get) (ip : Option CString) (port : Int) (field : FeeField) (n : Nat) : Prop :=
  ∃ ars, get (snprintfUrl (hostUrl ip port "/api/blocks/getfees")) = .ok ars ∧ Successful ars ∧
    (∀ other : FeeField, HasMember (cJSONGetObjectItem ars.root (.lit "fees")) other.member) ∧
    cJSONGetObjectItem (cJSONGetObjectItem ars.root (.lit "fees")) (.lit field.member) =
      some (.number n)

/-- A place at which the client reads an amount or a count. -/
inductive Amount where
  | fee
  | fees (field : FeeField)
  | balance
  | producedBlocks
  | missedBlocks
  deriving DecidableEq, Repr

namespace Amount

/-- The number `n` sent to that place is returned unchanged. -/
def ReadsExactly (t : Target) (n : Nat) : Amount → Prop
  | fee => ∀ get ip port, SendsFee get ip port n → arkApiBlocksGetFee get ip port = .ok (n : Int)
  | fees field => ∀ get ip port, SendsFees get ip port field n →
      (arkApiFeesGet t get ip port).map field.value = .ok (n : Int)
  | balance => ∀ json, cJSONGetObjectItem json (.lit "balance") = some (.number n) →
      (arkHelpersGetArkVoterFromJSON t json).map ArkVoter.balance = .ok (n : Int)
  | producedBlocks => ∀ json, cJSONGetObjectItem json (.lit "producedblocks") = some (.number n) →
      (arkHelpersGetArkDelegateFromJSON t json).map ArkDelegate.producedBlocks = .ok (n : Int)
  | missedBlocks => ∀ json, cJSONGetObjectItem json (.lit "missedblocks") = some (.number n) →
      (arkHelpersGetArkDelegateFromJSON t json).map ArkDelegate.missedBlocks = .ok (n : Int)

/-- The greatest number of the type that is read: `int` for the fee, `long` elsewhere. -/
def max (t : Target) : Amount → Int
  | fee => INT_MAX
  | _ => 2 ^ (t.longBits - 1) - 1

end Amount

/-! ## What is read -/

/-- `ark_api_blocks_getFee` returns the saturated number. -/
theorem arkApiBlocksGetFee_of_sendsFee {get : Get} {ip : Option CString} {port : Int} {n : Nat}
    (h : SendsFee get ip port n) :
    arkApiBlocksGetFee get ip port = .ok (saturateInt (n : Double)) := by
  obtain ⟨ars, hget, hsuccessful, hfee⟩ := h
  rw [arkApiBlocksGetFee, hget, Except.ok_bind, onResponse_of_successful hsuccessful, hfee]
  rfl

/-- `ark_api_fees_get` returns the number rounded to a `long`. -/
theorem arkApiFeesGet_of_sendsFees {t : Target} {get : Get} {ip : Option CString} {port : Int}
    {field : FeeField} {n : Nat} (h : SendsFees get ip port field n) :
    (arkApiFeesGet t get ip port).map field.value = .ok (t.roundToLong (n : Double)) := by
  obtain ⟨ars, hget, hsuccessful, hmembers, hfield⟩ := h
  obtain ⟨send, hsend⟩ := Option.ne_none_iff_exists'.mp (hmembers .send)
  obtain ⟨vote, hvote⟩ := Option.ne_none_iff_exists'.mp (hmembers .vote)
  obtain ⟨second, hsecond⟩ := Option.ne_none_iff_exists'.mp (hmembers .secondSignature)
  obtain ⟨delegate, hdelegate⟩ := Option.ne_none_iff_exists'.mp (hmembers .delegate)
  obtain ⟨multi, hmulti⟩ := Option.ne_none_iff_exists'.mp (hmembers .multiSignature)
  simp only [FeeField.member] at hsend hvote hsecond hdelegate hmulti
  simp only [arkApiFeesGet, hget, Except.ok_bind, onResponse_of_successful hsuccessful, hsend,
    hvote, hsecond, hdelegate, hmulti, deref_some, Except.pure_eq, Except.map]
  refine congrArg Except.ok ?_
  -- `hfield` names one of the five items
  cases field with
  | send => obtain rfl := Option.some.inj (hsend.symm.trans hfield); rfl
  | vote => obtain rfl := Option.some.inj (hvote.symm.trans hfield); rfl
  | secondSignature => obtain rfl := Option.some.inj (hsecond.symm.trans hfield); rfl
  | delegate => obtain rfl := Option.some.inj (hdelegate.symm.trans hfield); rfl
  | multiSignature => obtain rfl := Option.some.inj (hmulti.symm.trans hfield); rfl

/-- A field of a decoder is the number rounded to a `long`. -/
theorem longField_of_number {t : Target} {json : Option CJSON} {name : String} {n : Nat}
    (h : cJSONGetObjectItem json (.lit name) = some (.number n)) :
    longField t json name = t.roundToLong (n : Double) := by
  rw [longField, h]
  rfl

namespace Amount

/-- What the place makes of the number `n`. -/
def read (t : Target) (n : Nat) : Amount → Int
  | fee => saturateInt (n : Double)
  | _ => t.roundToLong (n : Double)

/-- A place that keeps the number returns it, whoever sends it. -/
theorem readsExactly_of_read_eq {t : Target} {n : Nat} {a : Amount} (h : a.read t n = n) :
    a.ReadsExactly t n := by
  cases a with
  | fee => exact fun get ip port hn => (arkApiBlocksGetFee_of_sendsFee hn).trans (congrArg _ h)
  | fees field => exact fun get ip port hn => (arkApiFeesGet_of_sendsFees hn).trans (congrArg _ h)
  | balance | producedBlocks | missedBlocks =>
    exact fun json hn => congrArg Except.ok ((longField_of_number hn).trans h)

/-- A number keeps its value exactly if it is one of the type that is read. -/
theorem read_eq_iff {t : Target} {n : Nat} {a : Amount} :
    a.read t n = n ↔ (n : Int) ≤ a.max t := by
  cases a with
  | fee => exact saturateInt_natCast_eq_iff
  | _ => exact roundToLong_natCast_eq_iff.trans Int.le_sub_one_iff.symm

end Amount

/-! ## A node for every number -/

/-- The lookup in an object, member by member. -/
theorem cJSONGetObjectItem_object_cons (m : CString × CJSON) (members : List (CString × CJSON))
    (name : CString) :
    cJSONGetObjectItem (some (.object (m :: members))) name =
      if caseInsensitiveStrcmp (some name) (some m.1) = 0 then some m.2
      else cJSONGetObjectItem (some (.object members)) name := by
  simp only [cJSONGetObjectItem, CJSON.child, List.map_cons, List.find?_cons]
  split
  · next h => rw [if_pos (of_decide_eq_true h)]; rfl
  · next h => rw [if_neg (of_decide_eq_false h)]

/-- The first member is found under its own name. -/
theorem cJSONGetObjectItem_object_self (name : CString) (v : CJSON)
    (members : List (CString × CJSON)) :
    cJSONGetObjectItem (some (.object ((name, v) :: members))) name = some v := by
  rw [cJSONGetObjectItem_object_cons, if_pos ((caseInsensitiveStrcmp_some _ _).mpr rfl)]

/-- Among members with one value, every name finds it. -/
theorem cJSONGetObjectItem_object_const (names : List CString) {name : CString}
    (h : name ∈ names) (v : CJSON) :
    cJSONGetObjectItem (some (.object (names.map fun name => (name, v)))) name = some v := by
  induction names with
  | nil => exact absurd h List.not_mem_nil
  | cons first names ih =>
    rw [List.map_cons, cJSONGetObjectItem_object_cons]
    split
    · rfl
    · next hne =>
      -- the first one does not match, so the name is further on
      rcases List.mem_cons.mp h with rfl | htail
      · exact absurd ((caseInsensitiveStrcmp_some _ _).mpr rfl) hne
      · exact ih htail

/-- An object text is parsed to its members. -/
theorem root_complete_objectText (m : WrittenMember 999) (members : List (WrittenMember 999)) :
    (complete (objectText m members)).root =
      some (.object ((m :: members).map WrittenMember.tree)) := by
  rw [← cJSONParse_objectText, ← CString.ofBytes_append_zero]
  rfl

/-- `{"success":true,...}`, with one more member. -/
def successAnswer (m : WrittenMember 999) : ArkRestResponse :=
  complete (objectText (.true "success" (by decide +kernel)) [m])

theorem successful_successAnswer (m : WrittenMember 999) : Successful (successAnswer m) where
  size_ne := by simp [successAnswer, complete, objectText]
  success := by
    have hitem : cJSONGetObjectItem (successAnswer m).root (.lit "success") = some .true := by
      rw [successAnswer, root_complete_objectText]
      exact cJSONGetObjectItem_object_self _ _ _
    rw [arkHelpersIsResponseSuccess, hitem]
    decide

/-- The member is found, unless its name is taken for `success`. -/
theorem getObjectItem_successAnswer (m : WrittenMember 999)
    (hm : caseInsensitiveStrcmp (some (.lit m.name)) (some (.lit "success")) ≠ 0) :
    cJSONGetObjectItem (successAnswer m).root (.lit m.name) = some m.value := by
  rw [successAnswer, root_complete_objectText, List.map_cons, cJSONGetObjectItem_object_cons]
  exact (if_neg hm).trans (cJSONGetObjectItem_object_self _ _ _)

/-- Every number up to `2 ^ 53` can be sent as the fee. -/
theorem exists_sendsFee {n : Nat} (hn : n ≤ 2 ^ 53) : ∃ get, SendsFee get none 0 n := by
  have hname : caseInsensitiveStrcmp (some (.lit "fee")) (some (.lit "success")) ≠ 0 := by
    decide +kernel
  exact ⟨fun _ => .ok (successAnswer (.number "fee" (by decide +kernel) n hn)), _, rfl,
    successful_successAnswer _, getObjectItem_successAnswer _ hname⟩

/-- `"send":n`, and so on for the other fields. -/
def FeeField.written {n : Nat} (hn : n ≤ 2 ^ 53) (field : FeeField) : WrittenMember 998 :=
  .number field.member (by cases field <;> decide +kernel) n hn

/-- Every number up to `2 ^ 53` can be sent as each of the fees. -/
theorem exists_sendsFees {n : Nat} (hn : n ≤ 2 ^ 53) (field : FeeField) :
    ∃ get, SendsFees get none 0 field n := by
  let fees : WrittenMember 999 := .object "fees" (by decide +kernel) (FeeField.send.written hn)
    [FeeField.vote.written hn, FeeField.secondSignature.written hn, FeeField.delegate.written hn,
      FeeField.multiSignature.written hn]
  -- the fees are found behind `success`
  have hname : caseInsensitiveStrcmp (some (.lit "fees")) (some (.lit "success")) ≠ 0 := by
    decide +kernel
  have hfees : cJSONGetObjectItem (successAnswer fees).root (.lit "fees") = some fees.value :=
    getObjectItem_successAnswer fees hname
  have hmember (field : FeeField) :
      cJSONGetObjectItem (some fees.value) (.lit field.member) = some (.number n) := by
    refine cJSONGetObjectItem_object_const [.lit "send", .lit "vote", .lit "secondsignature",
      .lit "delegate", .lit "multisignature"] ?_ _
    cases field <;> simp [FeeField.member]
  refine ⟨fun _ => .ok (successAnswer fees), _, rfl, successful_successAnswer _,
    fun other => ?_, ?_⟩
  · rw [HasMember, hfees, hmember]
    exact Option.some_ne_none _
  · rw [hfees, hmember]

/-! ## The amounts that arrive -/

/-- A place returns a number unchanged exactly if it fits the type that is read there. -/
theorem Amount.readsExactly_iff {t : Target} {n : Nat} (hn : n ≤ 2 ^ 53) {a : Amount} :
    a.ReadsExactly t n ↔ (n : Int) ≤ a.max t := by
  -- a node that sends `n` shows what the place makes of it
  refine Iff.trans ⟨fun h => ?_, readsExactly_of_read_eq⟩ read_eq_iff
  cases a with
  | fee =>
    obtain ⟨get, hget⟩ := exists_sendsFee hn
    exact Except.ok.inj ((arkApiBlocksGetFee_of_sendsFee hget).symm.trans (h get _ _ hget))
  | fees field =>
    obtain ⟨get, hget⟩ := exists_sendsFees hn field
    exact Except.ok.inj ((arkApiFeesGet_of_sendsFees hget).symm.trans (h get _ _ hget))
  | balance =>
    have hitem := cJSONGetObjectItem_object_self (.lit "balance") (.number n) []
    exact (longField_of_number hitem).symm.trans (Except.ok.inj (h _ hitem))
  | producedBlocks =>
    have hitem := cJSONGetObjectItem_object_self (.lit "producedblocks") (.number n) []
    exact (longField_of_number hitem).symm.trans (Except.ok.inj (h _ hitem))
  | missedBlocks =>
    have hitem := cJSONGetObjectItem_object_self (.lit "missedblocks") (.number n) []
    exact (longField_of_number hitem).symm.trans (Except.ok.inj (h _ hitem))

/-- Every place returns `n` unchanged, and the two requests for a fee agree on it. -/
structure AmountsExact (t : Target) (n : Nat) : Prop where
  exact : ∀ a : Amount, a.ReadsExactly t n
  agree : ∀ get ip port field, SendsFee get ip port n → SendsFees get ip port field n →
    arkApiBlocksGetFee get ip port = (arkApiFeesGet t get ip port).map field.value

/-- An `int` is a `long`. -/
theorem Amount.intMax_le_max (t : Target) (a : Amount) : INT_MAX ≤ a.max t := by
  have hlong : INT_MAX ≤ 2 ^ (t.longBits - 1) - 1 := by
    rcases t.longBits_eq with h | h <;> rw [h] <;> norm_num [INT_MAX]
  cases a with
  | fee => exact le_rfl
  | _ => exact hlong

/-- Amounts arrive unchanged everywhere exactly if they fit an `int`: beyond that
    `ark_api_blocks_getFee` saturates, although the fees of a node are a `long`. -/
theorem amountsExact_iff (t : Target) {n : Nat} (hn : n ≤ 2 ^ 53) :
    AmountsExact t n ↔ (n : Int) ≤ INT_MAX := by
  refine ⟨fun h => (Amount.readsExactly_iff hn).mp (h.exact .fee), fun hint => ?_⟩
  -- no place has less room than an `int`
  have hexact (a : Amount) : a.ReadsExactly t n :=
    (Amount.readsExactly_iff hn).mpr (hint.trans (a.intMax_le_max t))
  exact ⟨hexact, fun get ip port field hfee hfees =>
    (hexact .fee get ip port hfee).trans (hexact (.fees field) get ip port hfees).symm⟩

/-- The default fee for sending arrives unchanged. -/
theorem amountsExact_feeSend : 10000000 ≤ 2 ^ 53 ∧ AmountsExact .win32 10000000 :=
  ⟨by norm_num, (amountsExact_iff .win32 (by norm_num)).mpr (by decide)⟩

/-- The default fee for a delegate does not. -/
theorem not_amountsExact_feeDelegate :
    ¬ ∀ (t : Target) (n : Nat), n ≤ 2 ^ 53 → AmountsExact t n := by
  intro h
  have hexact := (h .linux64 2500000000 (by norm_num)).exact .fee
  exact absurd ((Amount.readsExactly_iff (by norm_num)).mp hexact) (by decide)

end ArkInC.Native
