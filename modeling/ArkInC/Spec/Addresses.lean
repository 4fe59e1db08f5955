import ArkInC.Spec.Endpoint
import ArkInC.Spec.MemberOrder

/-!
# Addresses in what the endpoint functions return

The decoder of transactions returns where the parser put a string. Two calls parse twice, and
put their strings at different places, so the same body may give two different records.
`Endpoint.AddressFree` says when it cannot: no transaction that is decoded has a confirmation
that is a string.

## Key results

- `Endpoint.run_relocate`: an answer without such a confirmation is decoded alike everywhere
- `Endpoint.exists_run_ne`: any other answer is decoded to different records
-/

namespace ArkInC.Native

variable {t : Target} {ars : ArkRestResponse} {item : Option CJSON}

/-! ## Single transactions -/

theorem decodeTransaction_completes_relocate (address : Nat → CString → Int) :
    (arkHelpersGetArkTransactionFromJSON (t.relocate address) item).Completes ↔
      (arkHelpersGetArkTransactionFromJSON t item).Completes := by
  rw [arkHelpersGetArkTransactionFromJSON_completes, arkHelpersGetArkTransactionFromJSON_completes]

/-- Without a string for a confirmation, no address is read. -/
theorem decodeTransaction_relocate
    (h : TransactionReadable item → stringField item "confirmation" = none)
    (address : Nat → CString → Int) :
    arkHelpersGetArkTransactionFromJSON (t.relocate address) item =
      arkHelpersGetArkTransactionFromJSON t item := by
  refine ((Decoder.transaction_relocate_iff t item).mpr ?_ address).symm
  by_cases hreadable : TransactionReadable item
  · exact .inr (h hreadable)
  · exact .inl hreadable

/-- The faults of the decoder have nothing to do with addresses. -/
theorem decodeTransaction_eq_error_relocate {fault : Fault} (address : Nat → CString → Int) :
    arkHelpersGetArkTransactionFromJSON (t.relocate address) item = .error fault ↔
      arkHelpersGetArkTransactionFromJSON t item = .error fault := by
  have hrun := Decoder.transaction_relocate t address item
  simp only [Decoder.run] at hrun
  rw [hrun, Except.bind_eq_error]
  simp

/-- With its strings all at one place, the confirmation that is a string is that place. -/
theorem confirmation_of_const {place : Int} {v : ArkTransaction} {s : CString}
    (hs : stringField item "confirmation" = some s)
    (h : arkHelpersGetArkTransactionFromJSON (t.relocate fun _ _ => place) item = .ok v) :
    v.confirmation = place := by
  rw [Decoder.confirmation_eq h, hs]
  rfl

/-! ## Lists of transactions -/

/-- The transactions of a list, decoded. -/
abbrev readTransactions (t : Target) (list : Option CJSON) : Except Fault ArkTransactionArray :=
  readArray t .transaction (fun i => arkHelpersGetArkTransactionFromJSON (t.atRecord i)) list

variable {list : Option CJSON}

theorem readTransactions_relocate
    (h : (∀ item ∈ readChildren t .transaction list, TransactionReadable (some item)) →
      ∀ item ∈ readChildren t .transaction list, stringField (some item) "confirmation" = none)
    (address : Nat → CString → Int) :
    readTransactions (t.relocate address) list = readTransactions t list := by
  cases hrun : readTransactions t list with
  | ok array =>
    -- every child decodes, so none of them has such a confirmation
    have hreadable := Endpoint.readTransactions_completes.mp ⟨array, hrun⟩
    have hsame : readTransactions (t.relocate address) list = readTransactions t list :=
      readArray_congr fun i hi =>
        decodeTransaction_relocate (t := t.atRecord i)
          (fun _ => h hreadable _ (List.getElem_mem hi)) fun _ => address i
    rw [hsame, hrun]
  | error fault =>
    -- the first child that does not decode is the same, and so is its fault
    obtain ⟨i, hi, herror, hbefore⟩ := readArray_eq_error.mp hrun
    refine readArray_eq_error.mpr ⟨i, hi, ?_, fun j hj => ?_⟩
    · exact (decodeTransaction_eq_error_relocate (t := t.atRecord i) fun _ => address i).mpr herror
    · exact (decodeTransaction_completes_relocate (t := t.atRecord j) fun _ => address j).mpr
        (hbefore j hj)

/-- A list with a string for a confirmation: that place is in the array. -/
theorem exists_confirmation_of_const {v : CJSON} {s : CString}
    (hreadable : ∀ item ∈ readChildren t .transaction list, TransactionReadable (some item))
    (hv : v ∈ readChildren t .transaction list)
    (hs : stringField (some v) "confirmation" = some s) :
    ∃ i : Nat, ∀ place : Int, ∃ array transaction,
      readTransactions (t.relocate fun _ _ => place) list = .ok array ∧
        array.data[i]? = some transaction ∧ transaction.confirmation = place := by
  obtain ⟨i, hi, rfl⟩ := List.getElem_of_mem hv
  refine ⟨i, fun place => ?_⟩
  obtain ⟨array, harray⟩ : (readTransactions (t.relocate fun _ _ => place) list).Completes :=
    Endpoint.readTransactions_completes.mpr hreadable
  obtain ⟨hlength, hrecord⟩ := readArray_getElem harray
  have hi' : i < array.data.length := hlength ▸ hi
  -- the record of the item at that index
  refine ⟨array, array.data[i], harray, List.getElem?_eq_getElem hi', ?_⟩
  exact confirmation_of_const (t := t.atRecord i) hs (hrecord i hi hi')

namespace Endpoint

variable {e : Endpoint}

/-! ## Endpoint functions -/

/-- The items a function decodes as transactions. -/
def transactionItems (t : Target) (root : Option CJSON) : Endpoint → List (Option CJSON)
  | transactions | transactionsUnconfirmed =>
    (readChildren t .transaction (cJSONGetObjectItem root (.lit "transactions"))).map some
  | transactionsGet .. | transactionsGetUnconfirmed .. =>
    [cJSONGetObjectItem root (.lit "transaction")]
  | _ => []

/-- Nothing the function returns for a response is an address: it is not decoded, or a NULL is
    read, or no transaction has a confirmation that is a string. -/
def AddressFree (t : Target) (e : Endpoint) (ars : ArkRestResponse) : Prop :=
  e.Decodes ars → e.Readable t ars.root →
    ∀ item ∈ e.transactionItems t ars.root, stringField item "confirmation" = none

theorem addressFree_transactionsGet {id : Option CString}
    (h : stringField (cJSONGetObjectItem ars.root (.lit "transaction")) "confirmation" = none) :
    (transactionsGet id).AddressFree t ars := by
  intro _ _ item hitem
  obtain rfl := List.mem_singleton.mp hitem
  exact h

/-- A function that goes through `onResponse` decodes the root of what it decodes. -/
theorem run_of_decodes (he : e.testsSize) {url : CString}
    {decode : Option CJSON → Except Fault e.Ret}
    (hrun : ∀ get, e.run t get = get url >>= fun ars => onResponse ars e.null decode)
    (h : e.Decodes ars) : (e.run t fun _ => .ok ars) = decode ars.root := by
  rw [hrun, Except.ok_bind, onResponse_of_successful ((decodes_iff_successful he).mp h)]

theorem run_of_not_decodes (h : ¬ e.Decodes ars) : (e.run t fun _ => .ok ars) = .ok e.null := by
  obtain ⟨url, decode, hrun⟩ := run_eq t e
  rw [hrun, Except.ok_bind, if_neg h]

/-- An answer without an address is decoded alike, wherever its strings are. -/
theorem run_relocate (h : e.AddressFree t ars) (address : Nat → CString → Int) :
    (e.run (t.relocate address) fun _ => .ok ars) = e.run t fun _ => .ok ars := by
  by_cases hdecodes : e.Decodes ars
  · have hfree := h hdecodes
    cases e with
    | transactions | transactionsUnconfirmed =>
      rw [run_of_decodes rfl (fun _ => rfl) hdecodes, run_of_decodes rfl (fun _ => rfl) hdecodes]
      exact readTransactions_relocate (by simpa [Readable, transactionItems] using hfree) address
    | transactionsGet id | transactionsGetUnconfirmed id =>
      rw [run_of_decodes rfl (fun _ => rfl) hdecodes, run_of_decodes rfl (fun _ => rfl) hdecodes]
      exact decodeTransaction_relocate (by simpa [Readable, transactionItems] using hfree) address
    -- the other functions read no address
    | _ => rfl
  · rw [run_of_not_decodes hdecodes, run_of_not_decodes hdecodes]

/-- The record at the place where the strings are. -/
private theorem exists_array {v : CJSON} {s : CString}
    (hreadable : ∀ item ∈ readChildren t .transaction list, TransactionReadable (some item))
    (hv : v ∈ readChildren t .transaction list)
    (hs : stringField (some v) "confirmation" = some s) :
    ∃ value : Int → ArkTransactionArray, Function.Injective value ∧
      ∀ place, readTransactions (t.relocate fun _ _ => place) list = .ok (value place) ∧
        value place ≠ .empty := by
  obtain ⟨i, hconfirmation⟩ := exists_confirmation_of_const hreadable hv hs
  choose value transaction hrun hget hplace using hconfirmation
  refine ⟨value, fun place place' heq => ?_, fun place => ⟨hrun place, fun hempty => ?_⟩⟩
  · have hsame : some (transaction place) = some (transaction place') := by
      rw [← hget place, ← hget place', heq]
    rw [← hplace place, ← hplace place', Option.some.inj hsame]
  · have hnone := hget place
    simp [hempty, ArkArray.empty] at hnone

private theorem exists_record {s : CString} (hreadable : TransactionReadable item)
    (hs : stringField item "confirmation" = some s) :
    ∃ value : Int → ArkTransaction, Function.Injective value ∧
      ∀ place, arkHelpersGetArkTransactionFromJSON (t.relocate fun _ _ => place) item =
        .ok (value place) ∧ (place ≠ 0 → value place ≠ {}) := by
  have hcompletes : ∀ place : Int,
      (arkHelpersGetArkTransactionFromJSON (t.relocate fun _ _ => place) item).Completes :=
    fun _ => arkHelpersGetArkTransactionFromJSON_completes.mpr hreadable
  choose value hrun using hcompletes
  have hplace : ∀ place, (value place).confirmation = place := fun place =>
    confirmation_of_const hs (hrun place)
  refine ⟨value, fun place place' heq => ?_, fun place => ⟨hrun place, fun hne hzero => hne ?_⟩⟩
  · rw [← hplace place, ← hplace place', heq]
  · rw [← hplace place, hzero]

private theorem ne_of_values {α : Type} {value : Int → α} (hinj : Function.Injective value)
    {x y : Except Fault α} {null : α} (hx : x = .ok (value 1)) (hy : y = .ok (value 2))
    (hnull : value 1 ≠ null) : x ≠ .ok null ∧ x ≠ y := by
  rw [hx, hy]
  refine ⟨fun h => hnull (Except.ok.inj h), fun h => ?_⟩
  exact absurd (hinj (Except.ok.inj h)) (by decide)

/-- Any other answer is decoded to different records with its strings at different places, and
    to none of them that is the null value. -/
theorem exists_run_ne (h : ¬ e.AddressFree t ars) :
    ∃ address address' : Nat → CString → Int,
      (e.run (t.relocate address) fun _ => .ok ars) ≠ .ok e.null ∧
      (e.run (t.relocate address) fun _ => .ok ars) ≠
        e.run (t.relocate address') fun _ => .ok ars := by
  simp only [AddressFree, Classical.not_imp, not_forall] at h
  obtain ⟨hdecodes, hreadable, item, hitem, hsome⟩ := h
  obtain ⟨s, hs⟩ := Option.ne_none_iff_exists'.mp hsome
  refine ⟨fun _ _ => 1, fun _ _ => 2, ?_⟩
  -- the records with the strings at 1 and at 2 are different ones
  cases e with
  | transactions | transactionsUnconfirmed =>
    rw [run_of_decodes rfl (fun _ => rfl) hdecodes, run_of_decodes rfl (fun _ => rfl) hdecodes]
    obtain ⟨v, hv, rfl⟩ := List.mem_map.mp hitem
    obtain ⟨value, hinj, hvalue⟩ := exists_array hreadable hv hs
    exact ne_of_values hinj (hvalue 1).1 (hvalue 2).1 (hvalue 1).2
  | transactionsGet id | transactionsGetUnconfirmed id =>
    rw [run_of_decodes rfl (fun _ => rfl) hdecodes, run_of_decodes rfl (fun _ => rfl) hdecodes]
    obtain rfl := List.mem_singleton.mp hitem
    -- any address but NULL tells the record from the null value
    obtain ⟨value, hinj, hvalue⟩ := exists_record hreadable hs
    exact ne_of_values hinj (hvalue 1).1 (hvalue 2).1 ((hvalue 1).2 (by decide))
  | _ => exact absurd hitem List.not_mem_nil

/-- Two calls for one answer return the same, wherever their strings are, exactly if nothing
    they return is an address. -/
theorem run_relocate_iff (t : Target) (e : Endpoint) (ars : ArkRestResponse) :
    (∀ address address' : Nat → CString → Int, (e.run (t.relocate address) fun _ => .ok ars) =
      e.run (t.relocate address') fun _ => .ok ars) ↔ e.AddressFree t ars := by
  constructor
  · intro hsame
    by_contra hnot
    obtain ⟨address, address', -, hne⟩ := exists_run_ne hnot
    exact hne (hsame address address')
  · intro hfree address address'
    rw [run_relocate hfree, run_relocate hfree]

end Endpoint

end ArkInC.Native
