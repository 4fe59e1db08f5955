import ArkInC.Spec.ListEndpoints
import ArkInC.Spec.Lookup

/-!
# What an answer reports

When the members of an answer report a value, said by the members alone: which of them there
are, in which order and between which others makes no difference, and the fields of the four
record types that the decoder tests for may be missing. Whatever an answer reports is what
the decoder of the endpoint function makes of it.

## Key results

- `arkHelpersGetArkPeerFromJSON_of_reports` and its siblings: a record that is reported is decoded
- `readArray_of_reports`: a list of records is decoded in its order
- `Endpoint.run_of_reports`: a function returns the value that a successful answer reports
-/

namespace ArkInC.Native

open Binary64 (Double)

variable {α : Type} {t : Target} {members : List (CString × CJSON)} {name : String}

/-! ## Members -/

/-- The item for a text; there is one for NULL too. -/
def stringItem : Option CString → CJSON
  | none => .null
  | some s => .string s

/-- The numbers that `valueint` holds. -/
def IsInt (n : Int) : Prop := INT_MIN ≤ n ∧ n ≤ INT_MAX

instance : DecidablePred IsInt := fun n => inferInstanceAs (Decidable (INT_MIN ≤ n ∧ n ≤ INT_MAX))

/-- The counts that `(long)(valuedouble + 0.5)` gives back, where the sum is a `double`. -/
def IsCount (t : Target) (n : Int) : Prop := 0 ≤ n ∧ n < 2 ^ 52 ∧ n < 2 ^ (t.longBits - 1)

instance (t : Target) : DecidablePred (IsCount t) := fun n =>
  inferInstanceAs (Decidable (0 ≤ n ∧ n < 2 ^ 52 ∧ n < 2 ^ (t.longBits - 1)))

/-- The first member of that name is the text. -/
def HasString (members : List (CString × CJSON)) (name : String) (s : Option CString) : Prop :=
  FirstMember members name (stringItem s)

/-- The first member of that name is a number with the value `n`. -/
def HasInteger (members : List (CString × CJSON)) (name : String) (n : Int) : Prop :=
  ∃ d : Double, FirstMember members name (.number d) ∧ d.value = some (n : ℚ)

/-- An `int` that a member reports. -/
def HasInt (members : List (CString × CJSON)) (name : String) (n : Int) : Prop :=
  IsInt n ∧ HasInteger members name n

/-- A `long` that a member reports. -/
def HasCount (t : Target) (members : List (CString × CJSON)) (name : String) (n : Int) : Prop :=
  IsCount t n ∧ HasInteger members name n

/-- The fields of a record that is decoded with a test for each member: reported, or zero and
    not mentioned. -/
def ReportsString (members : List (CString × CJSON)) (name : String) (s : Option CString) : Prop :=
  HasString members name s ∨ NoMember members name ∧ s = none

def ReportsInt (members : List (CString × CJSON)) (name : String) (n : Int) : Prop :=
  HasInt members name n ∨ NoMember members name ∧ n = 0

def ReportsCount (t : Target) (members : List (CString × CJSON)) (name : String) (n : Int) : Prop :=
  HasCount t members name n ∨ NoMember members name ∧ n = 0

def ReportsNumber (members : List (CString × CJSON)) (name : String) (d : Double) : Prop :=
  FirstMember members name (.number d) ∨ NoMember members name ∧ d = 0

/-! ## Records -/

structure ReportsPeer (members : List (CString × CJSON)) (p : ArkPeer) : Prop where
  ip : ReportsString members "ip" p.ip
  port : ReportsInt members "port" p.port
  version : ReportsString members "version" p.version
  os : ReportsString members "os" p.os
  height : ReportsInt members "height" p.height
  status : FirstMember members "status" (.string p.status.name) ∨
    NoMember members "status" ∧ p.status = .OK
  delay : ReportsInt members "delay" p.delay

structure ReportsDelegate (t : Target) (members : List (CString × CJSON)) (d : ArkDelegate) :
    Prop where
  username : ReportsString members "username" d.username
  address : ReportsString members "address" d.address
  publicKey : ReportsString members "publicKey" d.publicKey
  vote : ReportsString members "vote" d.vote
  producedBlocks : ReportsCount t members "producedblocks" d.producedBlocks
  missedBlocks : ReportsCount t members "missedblocks" d.missedBlocks
  rate : ReportsInt members "rate" d.rate
  approval : ReportsNumber members "approval" d.approval
  productivity : ReportsNumber members "productivity" d.productivity

structure ReportsVoter (t : Target) (members : List (CString × CJSON)) (v : ArkVoter) : Prop where
  username : ReportsString members "username" v.username
  address : ReportsString members "address" v.address
  publicKey : ReportsString members "publicKey" v.publicKey
  balance : ReportsCount t members "balance" v.balance

/-- The confirmation is decoded from a string and the timestamp from nothing, so both are zero;
    the type is reported next to a `status` member, and is `SENDARK` without one. -/
structure ReportsTransaction (members : List (CString × CJSON)) (tx : ArkTransaction) : Prop where
  id : ReportsString members "id" tx.id
  amount : ReportsNumber members "amount" tx.amount
  fee : ReportsNumber members "fee" tx.fee
  height : ReportsInt members "height" tx.height
  blockId : ReportsString members "blockid" tx.blockId
  recipientId : ReportsString members "recipientid" tx.recipientId
  secondSenderPublicKey : ReportsString members "secondsenderpublickey" tx.secondSenderPublicKey
  senderId : ReportsString members "senderid" tx.senderId
  senderPublicKey : ReportsString members "senderpublickey" tx.senderPublicKey
  signature : ReportsString members "signature" tx.signature
  signSignature : ReportsString members "signsignature" tx.signSignature
  vendorField : ReportsString members "vendorfield" tx.vendorField
  confirmation : (∀ s, ¬ FirstMember members "confirmation" (.string s)) ∧ tx.confirmation = 0
  timestamp : tx.timestamp = 0
  type : NoMember members "status" ∧ tx.type = .SENDARK ∨
    ¬ NoMember members "status" ∧ FirstMember members "type" (.string tx.type.name)

/-- Fees and networks are decoded without a test, so every member is there. -/
structure ReportsFee (t : Target) (members : List (CString × CJSON)) (f : ArkFee) : Prop where
  send : HasCount t members "send" f.send
  vote : HasCount t members "vote" f.vote
  secondSignature : HasCount t members "secondsignature" f.secondSignature
  delegate : HasCount t members "delegate" f.delegate
  multiSignature : HasCount t members "multisignature" f.multiSignature

structure ReportsNetwork (members : List (CString × CJSON)) (n : ArkNetwork) : Prop where
  netHash : HasString members "nethash" n.netHash
  token : HasString members "token" n.token
  symbol : HasString members "symbol" n.symbol
  explorer : HasString members "explorer" n.explorer
  version : HasInt members "version" n.version

/-- The item is an object that reports the record. -/
def ItemReports (reports : List (CString × CJSON) → α → Prop) (item : CJSON) (r : α) : Prop :=
  ∃ inner, item = .object inner ∧ reports inner r

/-- The first member of that name reports the record. -/
def ReportsRecord (reports : List (CString × CJSON) → α → Prop)
    (members : List (CString × CJSON)) (name : String) (r : α) : Prop :=
  ∃ item, FirstMember members name item ∧ ItemReports reports item r

/-- The first member of that name is a list that reports the records one by one; an `int`
    counts them, and there is room for them. -/
structure ReportsArray (t : Target) (record : ArkRecord)
    (reports : List (CString × CJSON) → α → Prop) (members : List (CString × CJSON))
    (name : String) (a : ArkArray α) : Prop where
  items : ∃ items, FirstMember members name (.array items) ∧
    List.Forall₂ (ItemReports reports) items a.data
  length : a.length = a.data.length
  length_le : a.length ≤ INT_MAX
  inBlock : InBlock t record a.data.length
  malloc : t.malloc (t.arrayBytes record a.data.length) = true

/-! ## What is decoded from a member -/

/-- The saturated value of an `int` is the `int`. -/
theorem HasInt.exists_item {n : Int} (h : HasInt members name n) :
    ∃ item, cJSONGetObjectItem (some (.object members)) (.lit name) = some item ∧
      item.valueint = n := by
  obtain ⟨⟨hmin, hmax⟩, d, hd, hvalue⟩ := h
  exact ⟨.number d, cJSONGetObjectItem_eq_some_iff.mpr hd, saturateInt_of_value hvalue hmin hmax⟩

theorem roundToLong_of_value {d : Double} {n : Int} (hn : IsCount t n)
    (h : d.value = some (n : ℚ)) : t.roundToLong d = n := by
  obtain ⟨n, rfl⟩ := Int.eq_ofNat_of_zero_le hn.1
  have htruncate : d.addHalf.truncate = some (n : Int) := by
    cases d with
    | infinite => exact nomatch h
    | finite q =>
      obtain rfl : q = ((n : Int) : ℚ) := Option.some.inj h
      rw [Int.cast_natCast]
      exact Binary64.truncate_addHalf_natCast n
    | negZero =>
      -- half of one is left of either zero
      obtain rfl : n = 0 := by
        have hzero : (((n : Int) : ℚ)) = 0 := (Option.some.inj h).symm
        exact_mod_cast hzero
      norm_num [Double.addHalf, Double.truncate]
  -- the cast does not leave a `long`
  have hmin : -2 ^ (t.longBits - 1) ≤ (n : Int) :=
    (neg_nonpos.mpr (by positivity)).trans (Int.natCast_nonneg n)
  rw [Target.roundToLong, htruncate]
  exact if_pos ⟨hmin, hn.2.2⟩

/-- The rounded value of a count is the count. -/
theorem HasCount.exists_item {n : Int} (h : HasCount t members name n) :
    ∃ item, cJSONGetObjectItem (some (.object members)) (.lit name) = some item ∧
      t.roundToLong item.valuedouble = n := by
  obtain ⟨hn, d, hd, hvalue⟩ := h
  exact ⟨.number d, cJSONGetObjectItem_eq_some_iff.mpr hd, roundToLong_of_value hn hvalue⟩

theorem HasString.exists_item {s : Option CString} (h : HasString members name s) :
    ∃ item, cJSONGetObjectItem (some (.object members)) (.lit name) = some item ∧
      item.valuestring = s := by
  refine ⟨stringItem s, cJSONGetObjectItem_eq_some_iff.mpr h, ?_⟩
  cases s <;> rfl

/-- The four kinds of fields that are decoded with a test. -/
theorem stringField_of_reports {s : Option CString} (h : ReportsString members name s) :
    stringField (some (.object members)) name = s := by
  rcases h with h | ⟨hno, rfl⟩
  · obtain ⟨item, hitem, hvalue⟩ := h.exists_item
    rw [stringField, hitem, Option.bind_some, hvalue]
  · rw [stringField, cJSONGetObjectItem_eq_none_iff.mpr hno]
    rfl

theorem intField_of_reports {n : Int} (h : ReportsInt members name n) :
    intField (some (.object members)) name = n := by
  rcases h with h | ⟨hno, rfl⟩
  · obtain ⟨item, hitem, hvalue⟩ := h.exists_item
    rw [intField, hitem, Option.map_some, Option.getD_some, hvalue]
  · rw [intField, cJSONGetObjectItem_eq_none_iff.mpr hno]
    rfl

theorem longField_of_reports {n : Int} (h : ReportsCount t members name n) :
    longField t (some (.object members)) name = n := by
  rcases h with h | ⟨hno, rfl⟩
  · obtain ⟨item, hitem, hvalue⟩ := h.exists_item
    rw [longField, hitem, Option.map_some, Option.getD_some, hvalue]
  · rw [longField, cJSONGetObjectItem_eq_none_iff.mpr hno]
    rfl

theorem doubleField_of_reports {d : Double} (h : ReportsNumber members name d) :
    doubleField (some (.object members)) name = d := by
  rcases h with h | ⟨hno, rfl⟩
  · rw [doubleField, cJSONGetObjectItem_eq_some_iff.mpr h]
    rfl
  · rw [doubleField, cJSONGetObjectItem_eq_none_iff.mpr hno]
    rfl

/-! ## What is decoded from a record -/

theorem arkHelpersGetArkPeerStatusFromString_name (status : ARKPEERSTATUS) :
    arkHelpersGetArkPeerStatusFromString (some status.name) = .ok status := by
  cases status <;> rfl

theorem arkHelpersGetArkTransactionTypeFromString_name (type : ARKTRANSACTIONTYPE) :
    arkHelpersGetArkTransactionTypeFromString (some type.name) = .ok type :=
  arkHelpersGetArkTransactionTypeFromString_eq_ok.mpr (.inl rfl)

theorem arkHelpersGetArkPeerFromJSON_of_reports {p : ArkPeer} (h : ReportsPeer members p) :
    arkHelpersGetArkPeerFromJSON (some (.object members)) = .ok p := by
  obtain ⟨hip, hport, hversion, hos, hheight, hstatus, hdelay⟩ := h
  cases p
  simp only [arkHelpersGetArkPeerFromJSON, stringField_of_reports hip,
    intField_of_reports hport, stringField_of_reports hversion, stringField_of_reports hos,
    intField_of_reports hheight, intField_of_reports hdelay]
  -- only the status is looked up outside of the field readers
  rcases hstatus with hname | ⟨hno, rfl⟩
  · simp only [cJSONGetObjectItem_eq_some_iff.mpr hname, deref_some, Except.ok_bind,
      CJSON.valuestring, arkHelpersGetArkPeerStatusFromString_name, Except.pure_eq]
  · simp only [cJSONGetObjectItem_eq_none_iff.mpr hno, Except.pure_eq, Except.ok_bind]

theorem arkHelpersGetArkDelegateFromJSON_of_reports {d : ArkDelegate}
    (h : ReportsDelegate t members d) :
    arkHelpersGetArkDelegateFromJSON t (some (.object members)) = .ok d := by
  obtain ⟨husername, haddress, hpublicKey, hvote, hproduced, hmissed, hrate, happroval,
    hproductivity⟩ := h
  cases d
  simp only [arkHelpersGetArkDelegateFromJSON, stringField_of_reports husername,
    stringField_of_reports haddress, stringField_of_reports hpublicKey,
    stringField_of_reports hvote, longField_of_reports hproduced, longField_of_reports hmissed,
    intField_of_reports hrate, doubleField_of_reports happroval,
    doubleField_of_reports hproductivity, Except.pure_eq]

theorem arkHelpersGetArkVoterFromJSON_of_reports {v : ArkVoter} (h : ReportsVoter t members v) :
    arkHelpersGetArkVoterFromJSON t (some (.object members)) = .ok v := by
  obtain ⟨husername, haddress, hpublicKey, hbalance⟩ := h
  cases v
  simp only [arkHelpersGetArkVoterFromJSON, stringField_of_reports husername,
    stringField_of_reports haddress, stringField_of_reports hpublicKey,
    longField_of_reports hbalance, Except.pure_eq]

/-- Without a string the confirmation is no address. -/
theorem pointerField_of_not_string (h : ∀ s, ¬ FirstMember members name (.string s)) :
    pointerField t (some (.object members)) name = 0 := by
  rw [pointerField]
  cases hlookup : cJSONGetObjectItem (some (.object members)) (.lit name) with
  | none => rfl
  | some item =>
    cases item with
    | string s => exact absurd (cJSONGetObjectItem_eq_some_iff.mp hlookup) (h s)
    | _ => rfl

theorem arkHelpersGetArkTransactionFromJSON_of_reports {tx : ArkTransaction}
    (h : ReportsTransaction members tx) :
    arkHelpersGetArkTransactionFromJSON t (some (.object members)) = .ok tx := by
  obtain ⟨hid, hamount, hfee, hheight, hblockId, hrecipientId, hsecond, hsenderId, hsenderKey,
    hsignature, hsignSignature, hvendorField, ⟨hstring, hconfirmation⟩, htimestamp, htype⟩ := h
  cases tx
  subst hconfirmation htimestamp
  simp only [arkHelpersGetArkTransactionFromJSON, stringField_of_reports hid,
    doubleField_of_reports hamount, doubleField_of_reports hfee, intField_of_reports hheight,
    stringField_of_reports hblockId, stringField_of_reports hrecipientId,
    stringField_of_reports hsecond, stringField_of_reports hsenderId,
    stringField_of_reports hsenderKey, stringField_of_reports hsignature,
    stringField_of_reports hsignSignature, stringField_of_reports hvendorField,
    pointerField_of_not_string hstring]
  rcases htype with ⟨hno, rfl⟩ | ⟨hsome, hname⟩
  · simp only [cJSONGetObjectItem_eq_none_iff.mpr hno, Except.pure_eq, Except.ok_bind]
  -- the test is for the `status` member, what is read is the `type` member
  · obtain ⟨status, hstatus⟩ :=
      (exists_firstMember_or_noMember members "status").resolve_right hsome
    simp only [cJSONGetObjectItem_eq_some_iff.mpr hstatus, cJSONGetObjectItem_eq_some_iff.mpr hname,
      deref_some, Except.ok_bind, CJSON.valuestring,
      arkHelpersGetArkTransactionTypeFromString_name, Except.pure_eq]

section

variable {record : ArkRecord} {reports : List (CString × CJSON) → α → Prop} {a : ArkArray α}

@[simp] theorem children_array (items : List CJSON) : children (some (.array items)) = items := by
  simp [children, CJSON.child, Function.comp_def]

/-- The list of a report is counted without wrapping. -/
theorem ReportsArray.exists_children (h : ReportsArray t record reports members name a) :
    ∃ items, cJSONGetObjectItem (some (.object members)) (.lit name) = some (.array items) ∧
      List.Forall₂ (ItemReports reports) items a.data ∧ (items.length : Int) ≤ INT_MAX ∧
      t.malloc (t.arrayBytes record items.length) = true := by
  obtain ⟨items, hmember, hitems⟩ := h.items
  refine ⟨items, cJSONGetObjectItem_eq_some_iff.mpr hmember, hitems, ?_, ?_⟩
  · rw [hitems.length_eq, ← h.length]
    exact h.length_le
  · rw [hitems.length_eq]
    exact h.malloc

/-- A list of records is decoded in its order, whatever the decoder knows of the places. -/
theorem readArray_of_reports {decode : Nat → Option CJSON → Except Fault α}
    (hdecode : ∀ i inner r, reports inner r → decode i (some (.object inner)) = .ok r)
    (h : ReportsArray t record reports members name a) :
    readArray t record decode (cJSONGetObjectItem (some (.object members)) (.lit name)) =
      .ok a := by
  obtain ⟨items, hmember, hitems, hle, hmalloc⟩ := h.exists_children
  have hlength : items.length = a.data.length := hitems.length_eq
  -- item by item the decoder makes the record of the report
  have hrecord : ∀ (i : Nat) (hi : i < items.length) (hi' : i < a.data.length),
      decode i (some items[i]) = .ok a.data[i] := by
    intro i hi hi'
    obtain ⟨inner, hinner, hreports⟩ := (List.forall₂_iff_get.mp hitems).2 i hi hi'
    rw [List.get_eq_getElem] at hinner
    rw [hinner]
    exact hdecode i inner _ hreports
  obtain ⟨array, hread, hholds⟩ : ∃ array, readArray t record decode (some (.array items)) =
      .ok array ∧ HoldsRecords decode (children (some (.array items))) array := by
    refine readArray_holdsRecords ?_ ?_ ?_
    · rwa [children_array]
    · rwa [children_array]
    · rw [children_array]
      exact fun i hi => ⟨_, hrecord i hi (hlength ▸ hi)⟩
  rw [children_array] at hholds
  -- both arrays hold what is decoded at each index
  have hdata : array.data = a.data := by
    refine List.ext_getElem (hholds.data_length.trans hlength) fun i hi hi' => ?_
    have hi'' : i < items.length := hlength ▸ hi'
    exact Except.ok.inj ((hholds.record i hi'' hi).symm.trans (hrecord i hi'' hi'))
  have hlen : array.length = a.length := by rw [hholds.length, hlength, h.length]
  rw [hmember, hread]
  cases array
  cases a
  cases hdata
  cases hlen
  rfl

/-- The loop that drops its records goes through as well. -/
theorem decodeChildren_of_reports {decode : Nat → Option CJSON → Except Fault α}
    (hdecode : ∀ i inner r, reports inner r → decode i (some (.object inner)) = .ok r)
    (h : ReportsArray t record reports members name a) :
    let list := cJSONGetObjectItem (some (.object members)) (.lit name)
    t.malloc (t.arrayBytes record (cJSONGetArraySize list)) = true ∧
      ∃ data, decodeChildren decode list = .ok data := by
  have hread := readArray_of_reports hdecode h
  obtain ⟨items, hmember, -, hle, hmalloc⟩ := h.exists_children
  have hcount : cJSONGetArraySize (some (.array items)) = items.length := by
    rw [cJSONGetArraySize_of_le (by rwa [children_array]), children_array]
  -- it is the loop of `readArray`, which has a result
  rw [hmember] at hread ⊢
  rw [← hcount] at hmalloc
  simp only [readArray, hmalloc, Bool.not_true, Bool.false_eq_true, if_false] at hread
  obtain ⟨data, hdata, -⟩ := Except.bind_eq_ok.mp hread
  exact ⟨hmalloc, data, hdata⟩

end

/-- A record on its own. -/
theorem decode_of_reports {decode : Option CJSON → Except Fault α}
    {reports : List (CString × CJSON) → α → Prop}
    (hdecode : ∀ inner r, reports inner r → decode (some (.object inner)) = .ok r) {r : α}
    (h : ReportsRecord reports members name r) :
    decode (cJSONGetObjectItem (some (.object members)) (.lit name)) = .ok r := by
  obtain ⟨_, hmember, inner, rfl, hreports⟩ := h
  rw [cJSONGetObjectItem_eq_some_iff.mpr hmember]
  exact hdecode inner r hreports

/-! ## Answers -/

namespace Endpoint

/-- What an answer reports to a function. The status is that there are peers. -/
def Reports (t : Target) : (e : Endpoint) → List (CString × CJSON) → e.Ret → Prop
  | blocksGetHeight .., members, (v : ArkBlockHeight) =>
    HasString members "id" v.id ∧ HasInt members "height" v.height
  | blocksGetEpoch .., members, (v : Option CString) => HasString members "epoch" v
  | blocksGetFee .., members, (v : Int) => HasInt members "fee" v
  | blocksGetNethash .., members, (v : Option CString) => HasString members "nethash" v
  | blocksGetMilestone .., members, (v : Int) => HasInt members "milestone" v
  | delegates .., members, (v : ArkDelegateArray) =>
    ReportsArray t .delegate (ReportsDelegate t) members "delegates" v
  | delegatesGetByUsername .., members, (v : ArkDelegate) =>
    ReportsRecord (ReportsDelegate t) members "delegate" v
  | feesGet .., members, (v : ArkFee) => ReportsRecord (ReportsFee t) members "fees" v
  | networkAutoconfigure .., members, (v : ArkNetwork) =>
    ReportsRecord ReportsNetwork members "network" v
  | peers .., members, (v : ArkPeerArray) => ReportsArray t .peer ReportsPeer members "peers" v
  | peersGetList .., members, (v : ArkPeerArray) =>
    ReportsArray t .peer ReportsPeer members "peers" v
  | peersGet .., members, (v : ArkPeer) => ReportsRecord ReportsPeer members "peer" v
  | peersGetStatus .., members, (v : Int) =>
    v = 1 ∧ ∃ a : ArkPeerArray, ReportsArray t .peer ReportsPeer members "peers" a
  | transactions, members, (v : ArkTransactionArray) =>
    ReportsArray t .transaction ReportsTransaction members "transactions" v
  | transactionsUnconfirmed, members, (v : ArkTransactionArray) =>
    ReportsArray t .transaction ReportsTransaction members "transactions" v
  | transactionsGet .., members, (v : ArkTransaction) =>
    ReportsRecord ReportsTransaction members "transaction" v
  | transactionsGetUnconfirmed .., members, (v : ArkTransaction) =>
    ReportsRecord ReportsTransaction members "transaction" v
  | votersGetByDelegate .., members, (v : ArkVoterArray) =>
    ReportsArray t .voter (ReportsVoter t) members "accounts" v

/-- The response is not empty and its body is an object that reports success. -/
structure ReportsSuccess (ars : ArkRestResponse) (members : List (CString × CJSON)) : Prop where
  root : ars.root = some (.object members)
  size_ne : ars.size ≠ 0
  success : FirstMember members "success" .true

theorem ReportsSuccess.successful {ars : ArkRestResponse} (h : ReportsSuccess ars members) :
    Successful ars := by
  refine ⟨h.size_ne, ?_⟩
  rw [h.root, arkHelpersIsResponseSuccess, cJSONGetObjectItem_eq_some_iff.mpr h.success]
  exact one_ne_zero

/-- A function that goes through `onResponse` decodes the members of the answer. -/
private theorem run_of_success {e : Endpoint} {v : e.Ret} {ars : ArkRestResponse} {url : CString}
    {decode : Option CJSON → Except Fault e.Ret}
    (hrun : ∀ get, e.run t get = get url >>= fun ars => onResponse ars e.null decode)
    (h : ReportsSuccess ars members) (hdecode : decode (some (.object members)) = .ok v) :
    (e.run t fun _ => .ok ars) = .ok v := by
  rw [hrun, Except.ok_bind, onResponse_of_successful h.successful, h.root, hdecode]

/-- A function returns the value that a successful answer reports. -/
theorem run_of_reports {e : Endpoint} {v : e.Ret} {ars : ArkRestResponse}
    (hreports : e.Reports t members v) (h : ReportsSuccess ars members) :
    (e.run t fun _ => .ok ars) = .ok v := by
  cases e with
  | blocksGetHeight ip port =>
    obtain ⟨hid, hheight⟩ := hreports
    obtain ⟨idItem, hid, hidValue⟩ := hid.exists_item
    obtain ⟨heightItem, hheight, hheightValue⟩ := hheight.exists_item
    refine run_of_success (fun _ => rfl) h ?_
    simp only [hid, hheight, deref_some, Except.ok_bind, hidValue, hheightValue, Except.pure_eq]
  | blocksGetEpoch ip port | blocksGetNethash ip port =>
    obtain ⟨item, hitem, hvalue⟩ := HasString.exists_item hreports
    refine run_of_success (fun _ => rfl) h ?_
    simp only [hitem, deref_some, Except.ok_bind, hvalue, Except.pure_eq]
  | blocksGetFee ip port | blocksGetMilestone ip port =>
    obtain ⟨item, hitem, hvalue⟩ := HasInt.exists_item hreports
    refine run_of_success (fun _ => rfl) h ?_
    simp only [hitem, deref_some, Except.ok_bind, hvalue, Except.pure_eq]
  | delegates ip port =>
    exact run_of_success (fun _ => rfl) h
      (readArray_of_reports (fun _ _ _ => arkHelpersGetArkDelegateFromJSON_of_reports) hreports)
  | delegatesGetByUsername ip port username =>
    -- this function asks for the data instead of the size
    have hdata : ars.data ≠ none := data_ne_of_success h.successful.success
    change (if ars.data = none then _ else if arkHelpersIsResponseSuccess ars.root = 0 then _
      else arkHelpersGetArkDelegateFromJSON t (cJSONGetObjectItem ars.root (.lit "delegate"))) = _
    rw [if_neg hdata, if_neg h.successful.success, h.root]
    exact decode_of_reports (fun _ _ => arkHelpersGetArkDelegateFromJSON_of_reports) hreports
  | feesGet ip port =>
    -- five members, all read without a test
    obtain ⟨_, hmember, inner, rfl, hfee⟩ := hreports
    obtain ⟨_, hsend, hsendValue⟩ := hfee.send.exists_item
    obtain ⟨_, hvote, hvoteValue⟩ := hfee.vote.exists_item
    obtain ⟨_, hsecond, hsecondValue⟩ := hfee.secondSignature.exists_item
    obtain ⟨_, hdelegate, hdelegateValue⟩ := hfee.delegate.exists_item
    obtain ⟨_, hmulti, hmultiValue⟩ := hfee.multiSignature.exists_item
    refine run_of_success (fun _ => rfl) h ?_
    simp only [cJSONGetObjectItem_eq_some_iff.mpr hmember, hsend, hvote, hsecond, hdelegate,
      hmulti, deref_some, Except.ok_bind, hsendValue, hvoteValue, hsecondValue, hdelegateValue,
      hmultiValue, Except.pure_eq]
  | networkAutoconfigure ip port =>
    obtain ⟨_, hmember, inner, rfl, hnetwork⟩ := hreports
    obtain ⟨_, hnetHash, hnetHashValue⟩ := hnetwork.netHash.exists_item
    obtain ⟨_, htoken, htokenValue⟩ := hnetwork.token.exists_item
    obtain ⟨_, hsymbol, hsymbolValue⟩ := hnetwork.symbol.exists_item
    obtain ⟨_, hexplorer, hexplorerValue⟩ := hnetwork.explorer.exists_item
    obtain ⟨_, hversion, hversionValue⟩ := hnetwork.version.exists_item
    refine run_of_success (fun _ => rfl) h ?_
    simp only [cJSONGetObjectItem_eq_some_iff.mpr hmember, hnetHash, htoken, hsymbol, hexplorer,
      hversion, deref_some, Except.ok_bind, hnetHashValue, htokenValue, hsymbolValue,
      hexplorerValue, hversionValue, Except.pure_eq]
  | peers ip port | peersGetList ip port =>
    exact run_of_success (fun _ => rfl) h
      (readArray_of_reports (fun _ _ _ => arkHelpersGetArkPeerFromJSON_of_reports) hreports)
  | peersGet peer ip port =>
    exact run_of_success (fun _ => rfl) h
      (decode_of_reports (fun _ _ => arkHelpersGetArkPeerFromJSON_of_reports) hreports)
  | peersGetStatus ip port =>
    obtain ⟨rfl, a, ha⟩ := hreports
    obtain ⟨hmalloc, data, hdata⟩ : _ ∧ ∃ data, decodeChildren
        (fun _ => arkHelpersGetArkPeerFromJSON)
        (cJSONGetObjectItem (some (.object members)) (.lit "peers")) = .ok data :=
      decodeChildren_of_reports (fun _ _ _ => arkHelpersGetArkPeerFromJSON_of_reports) ha
    refine run_of_success (fun _ => rfl) h ?_
    simp only [hmalloc, Bool.not_true, Bool.false_eq_true, if_false, hdata, Except.ok_bind,
      Except.pure_eq]
  | transactions | transactionsUnconfirmed =>
    exact run_of_success (fun _ => rfl) h
      (readArray_of_reports (fun _ _ _ => arkHelpersGetArkTransactionFromJSON_of_reports) hreports)
  | transactionsGet id | transactionsGetUnconfirmed id =>
    exact run_of_success (fun _ => rfl) h
      (decode_of_reports (fun _ _ => arkHelpersGetArkTransactionFromJSON_of_reports) hreports)
  | votersGetByDelegate ip port publicKey =>
    exact run_of_success (fun _ => rfl) h
      (readArray_of_reports (fun _ _ _ => arkHelpersGetArkVoterFromJSON_of_reports) hreports)

end Endpoint

end ArkInC.Native
