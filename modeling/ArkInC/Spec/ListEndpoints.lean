import ArkInC.Spec.BrokenTransfer

/-!
# The list endpoints

Six functions of `arkapi.c` answer with an array. Each counts the children of one member
of the answer, allocates, and looks every child up by its index from the head of the list;
`ListEndpoint` collects them, with the member and the decoder of each.

## Key results

- `readArray_holdsRecords`: count and lookup agree, so that the array holds every child once
- `inBlock_iff`: the records have room in their block if the size of the array has not wrapped
- `ListEndpoint.run_holdsRecords`: what the six functions return
-/

namespace ArkInC.Native

/-! ## The array of a list -/

/-- The array holds the records of the items, as many and in the same order. -/
structure HoldsRecords {α : Type} (decode : Nat → Option CJSON → Except Fault α)
    (items : List CJSON) (array : ArkArray α) : Prop where
  length : array.length = items.length
  data_length : array.data.length = items.length
  record : ∀ (i : Nat) (hi : i < items.length) (hi' : i < array.data.length),
    decode i (some items[i]) = .ok array.data[i]

/-- Each of `n` records lies inside the block that was asked for. -/
def InBlock (t : Target) (record : ArkRecord) (n : Nat) : Prop :=
  ∀ i < n, (i + 1) * t.sizeof record ≤ t.arrayBytes record n

theorem arrayBytes_natCast (t : Target) (record : ArkRecord) (n : Nat) :
    t.arrayBytes record n = n * t.sizeof record % 2 ^ t.sizeBits := by
  have hcast : ((n : Int) * t.sizeof record % 2 ^ t.sizeBits) =
      ((n * t.sizeof record % 2 ^ t.sizeBits : Nat) : Int) := by push_cast; rfl
  rw [Target.arrayBytes, hcast, Int.toNat_natCast]

/-- The last record is the first to stand outside. -/
theorem inBlock_iff (t : Target) (record : ArkRecord) (n : Nat) :
    InBlock t record n ↔ n * t.sizeof record < 2 ^ t.sizeBits := by
  unfold InBlock
  rw [arrayBytes_natCast]
  constructor
  · intro h
    cases n with
    | zero => simp
    | succ n => exact (h n (Nat.lt_succ_self n)).trans_lt (Nat.mod_lt _ (Nat.two_pow_pos _))
  · intro h i hi
    -- nothing wraps, and the records are laid one behind the other
    rw [Nat.mod_eq_of_lt h]
    exact Nat.mul_le_mul_right _ hi

/-- Where `size_t` has 64 bits there is room for as many records as an `int` counts. -/
theorem inBlock_of_sizeBits {t : Target} (ht : t.sizeBits = 64) (record : ArkRecord) {n : Nat}
    (hn : (n : Int) ≤ INT_MAX) : InBlock t record n := by
  rw [inBlock_iff, ht]
  unfold INT_MAX at hn
  have hsize := t.sizeof_le record
  calc n * t.sizeof record ≤ 2147483647 * 128 := Nat.mul_le_mul (by omega) hsize
    _ < 2 ^ 64 := by norm_num

section

variable {α : Type} {t : Target} {record : ArkRecord}
  {decode : Nat → Option CJSON → Except Fault α} {list : Option CJSON}

/-- A count that fits an `int` does not wrap. -/
theorem cJSONGetArraySize_of_le (h : ((children list).length : Int) ≤ INT_MAX) :
    cJSONGetArraySize list = (children list).length := by
  unfold INT_MAX at h
  rw [cJSONGetArraySize_eq]
  exact Int.bmod_eq_of_le (by omega) (by omega)

/-- With a count that fits and room for the records, every child is read. -/
theorem readChildren_of_le (h : ((children list).length : Int) ≤ INT_MAX)
    (hmalloc : t.malloc (t.arrayBytes record (children list).length) = true) :
    readChildren t record list = children list := by
  rw [readChildren, cJSONGetArraySize_of_le h, if_pos hmalloc, Int.toNat_natCast, List.take_length]

/-- With room for the records the stored length is the count. -/
theorem readArray_length {array : ArkArray α}
    (hmalloc : t.malloc (t.arrayBytes record (cJSONGetArraySize list)) = true)
    (h : readArray t record decode list = .ok array) :
    array.length = cJSONGetArraySize list := by
  simp only [readArray, hmalloc, Bool.not_true, Bool.false_eq_true, if_false,
    Except.pure_eq] at h
  obtain ⟨data, -, h⟩ := Except.bind_eq_ok.mp h
  cases h
  rfl

/-- The array of a list whose children decode holds the record of each child. -/
theorem readArray_holdsRecords (h : ((children list).length : Int) ≤ INT_MAX)
    (hmalloc : t.malloc (t.arrayBytes record (children list).length) = true)
    (hdecode : ∀ (i : Nat) (hi : i < (children list).length),
      (decode i (some (children list)[i])).Completes) :
    ∃ array, readArray t record decode list = .ok array ∧
      HoldsRecords decode (children list) array := by
  -- the loop runs over all the children
  have hread : readChildren t record list = children list := readChildren_of_le h hmalloc
  obtain ⟨array, harray⟩ : (readArray t record decode list).Completes := by
    rw [readArray_completes]
    simpa only [hread] using hdecode
  have hrecords := readArray_getElem harray
  simp only [hread] at hrecords
  refine ⟨array, harray, ?_, hrecords.1, hrecords.2⟩
  -- the stored length is the count, and that is the number of the children
  have hsize := cJSONGetArraySize_of_le h
  rw [← hsize] at hmalloc ⊢
  exact readArray_length hmalloc harray

/-- A list that is not there gives no records, with or without room for them. -/
theorem readArray_none : readArray t record decode none = .ok .empty := by
  unfold readArray
  split
  · rfl
  · rfl

end

/-! ## The six functions -/

/-- A call of an endpoint function that answers with an array. -/
inductive ListEndpoint where
  | delegates (ip : Option CString) (port : Int)
  | peers (ip : Option CString) (port : Int)
  | peersGetList (ip : Option CString) (port : Int)
  | transactions
  | transactionsUnconfirmed
  | votersGetByDelegate (ip : Option CString) (port : Int) (publicKey : Option CString)

namespace ListEndpoint

/-- What the array holds. -/
abbrev Record : ListEndpoint → Type
  | delegates .. => ArkDelegate
  | peers .. => ArkPeer
  | peersGetList .. => ArkPeer
  | transactions => ArkTransaction
  | transactionsUnconfirmed => ArkTransaction
  | votersGetByDelegate .. => ArkVoter

/-- The call, over `get` for `ark_api_get`. -/
def run (t : Target) (get : Get) : (e : ListEndpoint) → Except Fault (ArkArray e.Record)
  | delegates ip port => arkApiDelegates t get ip port
  | peers ip port => arkApiPeers t get ip port
  | peersGetList ip port => arkApiPeersGetList t get ip port
  | transactions => arkApiTransactions t get
  | transactionsUnconfirmed => arkApiTransactionsUnconfirmed t get
  | votersGetByDelegate ip port publicKey => arkApiVotersGetByDelegate t get ip port publicKey

/-- The member of the answer that holds the list. -/
def member : ListEndpoint → String
  | delegates .. => "delegates"
  | peers .. => "peers"
  | peersGetList .. => "peers"
  | transactions => "transactions"
  | transactionsUnconfirmed => "transactions"
  | votersGetByDelegate .. => "accounts"

/-- The list of an answer, NULL if it has none. -/
def list (e : ListEndpoint) (ars : ArkRestResponse) : Option CJSON :=
  cJSONGetObjectItem ars.root (.lit e.member)

/-- The structure the array is allocated for. -/
def record : ListEndpoint → ArkRecord
  | delegates .. => .delegate
  | peers .. => .peer
  | peersGetList .. => .peer
  | transactions => .transaction
  | transactionsUnconfirmed => .transaction
  | votersGetByDelegate .. => .voter

/-- The decoder on the item at an index. -/
def decode (t : Target) : (e : ListEndpoint) → Nat → Option CJSON → Except Fault e.Record
  | delegates .. => fun _ => arkHelpersGetArkDelegateFromJSON t
  | peers .. => fun _ => arkHelpersGetArkPeerFromJSON
  | peersGetList .. => fun _ => arkHelpersGetArkPeerFromJSON
  | transactions => fun i => arkHelpersGetArkTransactionFromJSON (t.atRecord i)
  | transactionsUnconfirmed => fun i => arkHelpersGetArkTransactionFromJSON (t.atRecord i)
  | votersGetByDelegate .. => fun _ => arkHelpersGetArkVoterFromJSON t

/-- The six copies of the loop are one. -/
theorem run_eq_onResponse (t : Target) (e : ListEndpoint) (ars : ArkRestResponse) :
    (e.run t fun _ => .ok ars) = onResponse ars .empty fun root =>
      readArray t e.record (e.decode t) (cJSONGetObjectItem root (.lit e.member)) := by
  cases e with
  | _ => rfl

/-- For a successful answer it reads the list of the function with its decoder. -/
theorem run_of_successful (t : Target) (e : ListEndpoint) {ars : ArkRestResponse}
    (h : Successful ars) :
    (e.run t fun _ => .ok ars) = readArray t e.record (e.decode t) (e.list ars) := by
  rw [run_eq_onResponse, onResponse_of_successful h, list]

/-- The two peer functions make the same of one body, wherever it is fetched. -/
theorem peers_eq_peersGetList (t : Target) {b : List UInt8} {ars ars' : ArkRestResponse}
    (h : Holds ars b) (h' : Holds ars' b) (ip ip' : Option CString) (port port' : Int) :
    arkApiPeers t (fun _ => .ok ars) ip port =
      arkApiPeersGetList t (fun _ => .ok ars') ip' port' := by
  calc arkApiPeers t (fun _ => .ok ars) ip port
      = arkApiPeers t (fun _ => .ok (complete b)) ip port :=
        Endpoint.run_of_holds (e := .peers ip port) h
    _ = arkApiPeersGetList t (fun _ => .ok (complete b)) ip' port' := rfl
    _ = arkApiPeersGetList t (fun _ => .ok ars') ip' port' :=
        (Endpoint.run_of_holds (e := .peersGetList ip' port') h').symm

/-- So do the two transaction functions. -/
theorem transactions_eq_transactionsUnconfirmed (t : Target) {b : List UInt8}
    {ars ars' : ArkRestResponse} (h : Holds ars b) (h' : Holds ars' b) :
    arkApiTransactions t (fun _ => .ok ars) =
      arkApiTransactionsUnconfirmed t fun _ => .ok ars' := by
  calc arkApiTransactions t (fun _ => .ok ars)
      = arkApiTransactions t fun _ => .ok (complete b) :=
        Endpoint.run_of_holds (e := .transactions) h
    _ = arkApiTransactionsUnconfirmed t fun _ => .ok (complete b) := rfl
    _ = arkApiTransactionsUnconfirmed t fun _ => .ok ars' :=
        (Endpoint.run_of_holds (e := .transactionsUnconfirmed) h').symm

/-- What the list endpoints return for a successful answer: the record of every child of
    the list in its place, inside the block unless its size has wrapped, and no records if
    there is no list. Both functions of a pair return the same with their strings at the same
    places; the two of the transactions do wherever these are exactly if no transaction that is
    decoded has a confirmation that is a string. -/
theorem run_holdsRecords (t : Target) :
    (∀ (e : ListEndpoint) (ars : ArkRestResponse), Successful ars →
      (((children (e.list ars)).length : Int) ≤ INT_MAX →
        t.malloc (t.arrayBytes e.record (children (e.list ars)).length) = true →
        (∀ (i : Nat) (hi : i < (children (e.list ars)).length),
          (e.decode t i (some (children (e.list ars))[i])).Completes) →
        (∃ array, (e.run t fun _ => .ok ars) = .ok array ∧
          HoldsRecords (e.decode t) (children (e.list ars)) array) ∧
        (t.sizeBits = 64 → InBlock t e.record (children (e.list ars)).length) ∧
        (InBlock t e.record (children (e.list ars)).length ↔
          (children (e.list ars)).length * t.sizeof e.record < 2 ^ t.sizeBits)) ∧
      (e.list ars = none →
        ∃ array, (e.run t fun _ => .ok ars) = .ok array ∧ array.length = 0)) ∧
    ∀ (b : List UInt8) (ars ars' : ArkRestResponse), Holds ars b → Holds ars' b →
      (∀ ip port ip' port', ∀ address address' : Nat → CString → Int,
        arkApiPeers (t.relocate address) (fun _ => .ok ars) ip port =
          arkApiPeersGetList (t.relocate address') (fun _ => .ok ars') ip' port') ∧
      arkApiTransactions t (fun _ => .ok ars) =
        arkApiTransactionsUnconfirmed t (fun _ => .ok ars') ∧
      ((∀ address address' : Nat → CString → Int,
          arkApiTransactions (t.relocate address) (fun _ => .ok ars) =
            arkApiTransactionsUnconfirmed (t.relocate address') fun _ => .ok ars') ↔
        Endpoint.transactions.AddressFree t (complete b)) := by
  refine ⟨fun e ars hars => ⟨fun hle hmalloc hdecode => ⟨?_, ?_, ?_⟩, fun hnone => ?_⟩,
    fun b ars ars' h h' => ⟨fun ip port ip' port' address address' => ?_,
      transactions_eq_transactionsUnconfirmed t h h', ?_⟩⟩
  · rw [run_of_successful t e hars]
    exact readArray_holdsRecords hle hmalloc hdecode
  · exact fun ht => inBlock_of_sizeBits ht e.record hle
  · exact inBlock_iff t e.record _
  · rw [run_of_successful t e hars, hnone, readArray_none]
    exact ⟨.empty, rfl, rfl⟩
  -- no peer holds an address
  · exact (peers_eq_peersGetList (t.relocate address) h h' ip ip' port port').trans rfl
  · rw [← Endpoint.run_relocate_iff]
    -- both read the same bytes, the second as the first would
    have hsecond : ∀ t', (arkApiTransactionsUnconfirmed t' fun _ => .ok ars') =
        arkApiTransactions t' fun _ => .ok (complete b) := fun t' =>
      (transactions_eq_transactionsUnconfirmed t' (holds_complete b) h').symm
    have hfirst : ∀ t', (arkApiTransactions t' fun _ => .ok ars) =
        arkApiTransactions t' fun _ => .ok (complete b) := fun t' =>
      Endpoint.run_of_holds (e := .transactions) h
    simp only [hfirst, hsecond]
    rfl

/-- An answer with two delegates; the second has no members. -/
def twoDelegates : List UInt8 :=
  ascii "\x7b\"success\":true,\"delegates\":[\x7b\"username\":\"a\"\x7d,\x7b\x7d]\x7d"

/-- Both delegates of that answer are returned, and nothing for its missing peers. -/
theorem run_holdsRecords_twoDelegates :
    let ars := complete twoDelegates
    let items := children ((delegates none 0).list ars)
    items.length = 2 ∧
    (∃ array, ((delegates none 0).run .linux64 fun _ => .ok ars) = .ok array ∧
      HoldsRecords ((delegates none 0).decode .linux64) items array) ∧
    (∃ array, ((peers none 0).run .linux64 fun _ => .ok ars) = .ok array ∧ array.length = 0) ∧
    arkApiTransactions .linux64 (fun _ => .ok ars) =
      arkApiTransactionsUnconfirmed .linux64 fun _ => .ok ars := by
  have hsuccess : Successful (complete twoDelegates) := by decide +kernel
  have hlength : (children ((delegates none 0).list (complete twoDelegates))).length = 2 := by
    decide +kernel
  have hnone : ((peers none 0).list (complete twoDelegates)).isNone = true := by decide +kernel
  obtain ⟨hrun, hpair⟩ := run_holdsRecords .linux64
  refine ⟨hlength, ((hrun (delegates none 0) _ hsuccess).1 ?_ ?_ fun _ _ => ?_).1,
    (hrun (peers none 0) _ hsuccess).2 (Option.isNone_iff_eq_none.mp hnone),
    (hpair twoDelegates _ _ (holds_complete _) (holds_complete _)).2.1⟩
  · rw [hlength]; decide
  · rw [hlength]; decide
  · exact Except.completes_ok _

/-- A list with one transaction whose confirmation is a string. -/
def stringList : List UInt8 :=
  ascii "\x7b\"success\":true,\"transactions\":[\x7b\"confirmation\":\"7\"\x7d]\x7d"

/-- For that list the two transaction functions return two addresses. -/
theorem not_run_holdsRecords :
    ¬ ∀ (t : Target) (b : List UInt8) (ars ars' : ArkRestResponse), Holds ars b → Holds ars' b →
      ∀ address address' : Nat → CString → Int,
        arkApiTransactions (t.relocate address) (fun _ => .ok ars) =
          arkApiTransactionsUnconfirmed (t.relocate address') fun _ => .ok ars' := by
  intro h
  have hsame := h .linux64 stringList _ _ (holds_complete _) (holds_complete _)
  have hfree : Endpoint.transactions.AddressFree .linux64 (complete stringList) :=
    (Endpoint.run_relocate_iff .linux64 .transactions _).mp hsame
  have hdecodes : Endpoint.transactions.Decodes (complete stringList) := by decide +kernel
  have hreadable : ∀ item ∈ readChildren .linux64 .transaction (transactions.list
      (complete stringList)), TransactionReadable (some item) := by decide +kernel
  -- no confirmation would be a string, but the one of the list is
  have hnone := hfree hdecodes hreadable
  simp only [Endpoint.transactionItems, List.forall_mem_map] at hnone
  have hstring : ¬ ∀ item ∈ readChildren .linux64 .transaction (transactions.list
      (complete stringList)), stringField (some item) "confirmation" = none := by decide +kernel
  exact hstring hnone

end ListEndpoint

end ArkInC.Native
