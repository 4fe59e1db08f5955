import ArkInC.Spec.Decoders
import ArkInC.Spec.ReadArray
import ArkInC.Spec.Response

/-!
# The endpoint functions as a family

The eighteen functions of `arkapi.c` with their arguments, so that a property can be
stated for all of them at once. They share one frame (`Endpoint.run_eq`), and each
completes on exactly those answers whose members it reads without looking are there
(`Endpoint.run_completes_iff`).
-/

namespace ArkInC.Native

/-- A call of an endpoint function. -/
inductive Endpoint where
  | blocksGetHeight (ip : Option CString) (port : Int)
  | blocksGetEpoch (ip : Option CString) (port : Int)
  | blocksGetFee (ip : Option CString) (port : Int)
  | blocksGetNethash (ip : Option CString) (port : Int)
  | blocksGetMilestone (ip : Option CString) (port : Int)
  | delegates (ip : Option CString) (port : Int)
  | delegatesGetByUsername (ip : Option CString) (port : Int) (username : Option CString)
  | feesGet (ip : Option CString) (port : Int)
  | networkAutoconfigure (ip : Option CString) (port : Int)
  | peers (ip : Option CString) (port : Int)
  | peersGetList (ip : Option CString) (port : Int)
  | peersGet (peer : ArkPeer) (ip : Option CString) (port : Int)
  | peersGetStatus (ip : Option CString) (port : Int)
  | transactions
  | transactionsUnconfirmed
  | transactionsGet (id : Option CString)
  | transactionsGetUnconfirmed (id : Option CString)
  | votersGetByDelegate (ip : Option CString) (port : Int) (publicKey : Option CString)

namespace Endpoint

/-- What the function returns. -/
abbrev Ret : Endpoint → Type
  | blocksGetHeight .. => ArkBlockHeight
  | blocksGetEpoch .. => Option CString
  | blocksGetFee .. => Int
  | blocksGetNethash .. => Option CString
  | blocksGetMilestone .. => Int
  | delegates .. => ArkDelegateArray
  | delegatesGetByUsername .. => ArkDelegate
  | feesGet .. => ArkFee
  | networkAutoconfigure .. => ArkNetwork
  | peers .. => ArkPeerArray
  | peersGetList .. => ArkPeerArray
  | peersGet .. => ArkPeer
  | peersGetStatus .. => Int
  | transactions => ArkTransactionArray
  | transactionsUnconfirmed => ArkTransactionArray
  | transactionsGet .. => ArkTransaction
  | transactionsGetUnconfirmed .. => ArkTransaction
  | votersGetByDelegate .. => ArkVoterArray

/-- The call, over `get` for `ark_api_get`. -/
def run (t : Target) (get : Get) : (e : Endpoint) → Except Fault e.Ret
  | blocksGetHeight ip port => arkApiBlocksGetHeight get ip port
  | blocksGetEpoch ip port => arkApiBlocksGetEpoch get ip port
  | blocksGetFee ip port => arkApiBlocksGetFee get ip port
  | blocksGetNethash ip port => arkApiBlocksGetNethash get ip port
  | blocksGetMilestone ip port => arkBlocksGetMilestone get ip port
  | delegates ip port => arkApiDelegates t get ip port
  | delegatesGetByUsername ip port username => arkApiDelegatesGetByUsername t get ip port username
  | feesGet ip port => arkApiFeesGet t get ip port
  | networkAutoconfigure ip port => arkApiNetworkAutoconfigure get ip port
  | peers ip port => arkApiPeers t get ip port
  | peersGetList ip port => arkApiPeersGetList t get ip port
  | peersGet peer ip port => arkApiPeersGet get peer ip port
  | peersGetStatus ip port => arkApiPeersGetStatus t get ip port
  | transactions => arkApiTransactions t get
  | transactionsUnconfirmed => arkApiTransactionsUnconfirmed t get
  | transactionsGet id => arkApiTransactionsGet t get id
  | transactionsGetUnconfirmed id => arkApiTransactionsGetUnconfirmed t get id
  | votersGetByDelegate ip port publicKey => arkApiVotersGetByDelegate t get ip port publicKey

/-- The null value of the function: a zero record, an empty array, NULL, `""`, -1 or 0. -/
def null : (e : Endpoint) → e.Ret
  | blocksGetHeight .. => ({} : ArkBlockHeight)
  | blocksGetEpoch .. => (none : Option CString)
  | blocksGetFee .. => (-1 : Int)
  | blocksGetNethash .. => some (.lit "")
  | blocksGetMilestone .. => (-1 : Int)
  | delegates .. => (.empty : ArkDelegateArray)
  | delegatesGetByUsername .. => ({} : ArkDelegate)
  | feesGet .. => ({} : ArkFee)
  | networkAutoconfigure .. => ({} : ArkNetwork)
  | peers .. => (.empty : ArkPeerArray)
  | peersGetList .. => (.empty : ArkPeerArray)
  | peersGet .. => ({} : ArkPeer)
  | peersGetStatus .. => (0 : Int)
  | transactions => (.empty : ArkTransactionArray)
  | transactionsUnconfirmed => (.empty : ArkTransactionArray)
  | transactionsGet .. => ({} : ArkTransaction)
  | transactionsGetUnconfirmed .. => ({} : ArkTransaction)
  | votersGetByDelegate .. => (.empty : ArkVoterArray)

/-! ## The frame -/

/-- All but one of the functions treat an empty response as a failure. -/
def testsSize : Endpoint → Bool
  | delegatesGetByUsername .. => false
  | _ => true

/-- The response is decoded: it reports success and is not empty, where that is tested. -/
def Decodes (e : Endpoint) (ars : ArkRestResponse) : Prop :=
  arkHelpersIsResponseSuccess ars.root ≠ 0 ∧ (e.testsSize → ars.size ≠ 0)

instance (e : Endpoint) : DecidablePred e.Decodes := fun ars => inferInstanceAs (Decidable
  (arkHelpersIsResponseSuccess ars.root ≠ 0 ∧ (e.testsSize → ars.size ≠ 0)))

theorem decodes_iff_successful {e : Endpoint} (h : e.testsSize) {ars : ArkRestResponse} :
    e.Decodes ars ↔ Successful ars :=
  ⟨fun hd => ⟨hd.2 h, hd.1⟩, fun hs => ⟨hs.success, fun _ => hs.size_ne⟩⟩

/-- The shape of the functions that go through `onResponse`. -/
private theorem frame_of_onResponse {e : Endpoint} (he : e.testsSize) {f : Get → Except Fault e.Ret}
    {url : CString} {decode : Option CJSON → Except Fault e.Ret}
    (hf : ∀ get, f get = get url >>= fun ars => onResponse ars e.null decode) :
    ∃ (url : CString) (decode : Option CJSON → Except Fault e.Ret), ∀ get : Get,
      f get = get url >>= fun ars => if e.Decodes ars then decode ars.root else .ok e.null := by
  refine ⟨url, decode, fun get => (hf get).trans (congrArg _ (funext fun ars => ?_))⟩
  -- `onResponse` decodes exactly the answers that report success and are not empty
  by_cases h : Successful ars
  · rw [onResponse_of_successful h, if_pos ((decodes_iff_successful he).mpr h)]
  · rw [onResponse_of_not_successful h, if_neg ((decodes_iff_successful he).not.mpr h)]

/-- What all endpoint functions have in common: one request, and a response that is decoded
    or gives the null value. -/
theorem run_eq (t : Target) (e : Endpoint) :
    ∃ (url : CString) (decode : Option CJSON → Except Fault e.Ret), ∀ get : Get,
      e.run t get = get url >>= fun ars =>
        if e.Decodes ars then decode ars.root else .ok e.null := by
  cases e with
  | delegatesGetByUsername ip port username =>
    refine ⟨snprintfUrl (hostUrl ip port "/api/delegates/get?username=" ++ formatS username),
      fun root => arkHelpersGetArkDelegateFromJSON t (cJSONGetObjectItem root (.lit "delegate")),
      fun get => congrArg (get _ >>= ·) (funext fun ars => ?_)⟩
    -- here the size plays no part
    by_cases h : arkHelpersIsResponseSuccess ars.root = 0
    · rw [if_neg fun hd : Decodes _ ars => hd.1 h]
      split
      · rfl
      · exact if_pos h
    · have hdecodes : Decodes (delegatesGetByUsername ip port username) ars := ⟨h, nofun⟩
      rw [if_pos hdecodes, if_neg (data_ne_of_success h)]
      exact if_neg h
  -- the other seventeen go through `onResponse`
  | _ => exact frame_of_onResponse rfl fun get => rfl

/-! ## What a function reads without looking -/

/-- The item has a member of that name. -/
def HasMember (json : Option CJSON) (name : String) : Prop :=
  cJSONGetObjectItem json (.lit name) ≠ none

/-- What a function needs to decode an answer: the members it reads without looking, the
    status of each peer to be a string if it is there, and the type of each transaction
    with a status to be a string. -/
def Readable (t : Target) (root : Option CJSON) : Endpoint → Prop
  | blocksGetHeight .. => HasMember root "id" ∧ HasMember root "height"
  | blocksGetEpoch .. => HasMember root "epoch"
  | blocksGetFee .. => HasMember root "fee"
  | blocksGetNethash .. => HasMember root "nethash"
  | blocksGetMilestone .. => HasMember root "milestone"
  | feesGet .. =>
    let feeJson := cJSONGetObjectItem root (.lit "fees")
    HasMember feeJson "send" ∧ HasMember feeJson "vote" ∧ HasMember feeJson "secondsignature" ∧
      HasMember feeJson "delegate" ∧ HasMember feeJson "multisignature"
  | networkAutoconfigure .. =>
    let networkJson := cJSONGetObjectItem root (.lit "network")
    HasMember networkJson "nethash" ∧ HasMember networkJson "token" ∧
      HasMember networkJson "symbol" ∧ HasMember networkJson "explorer" ∧
      HasMember networkJson "version"
  | peers .. | peersGetList .. | peersGetStatus .. =>
    ∀ item ∈ readChildren t .peer (cJSONGetObjectItem root (.lit "peers")),
      PeerReadable (some item)
  | peersGet .. => PeerReadable (cJSONGetObjectItem root (.lit "peer"))
  | transactions | transactionsUnconfirmed =>
    ∀ item ∈ readChildren t .transaction (cJSONGetObjectItem root (.lit "transactions")),
      TransactionReadable (some item)
  | transactionsGet .. | transactionsGetUnconfirmed .. =>
    TransactionReadable (cJSONGetObjectItem root (.lit "transaction"))
  | delegates .. | delegatesGetByUsername .. | votersGetByDelegate .. => True

/-- Reading an item completes if it is there, and what follows does. -/
theorem deref_bind_completes {α : Type} {item : Option CJSON} {f : CJSON → Except Fault α}
    {P : Prop} (h : ∀ v, (f v).Completes ↔ P) :
    (deref item >>= f).Completes ↔ item ≠ none ∧ P := by
  cases item with
  | none => simp
  | some item => simp [h]

theorem deref_map_completes {α : Type} {item : Option CJSON} {f : CJSON → α} :
    (deref item >>= fun v => .ok (f v)).Completes ↔ item ≠ none := by
  cases item with
  | none => simp
  | some item => simp

theorem readPeers_completes {t : Target} {list : Option CJSON} :
    (readArray t .peer (fun _ => arkHelpersGetArkPeerFromJSON) list).Completes ↔
      ∀ item ∈ readChildren t .peer list, PeerReadable (some item) :=
  readArray_completes_of_forall fun _ _ => arkHelpersGetArkPeerFromJSON_completes

theorem readTransactions_completes {t : Target} {list : Option CJSON} :
    (readArray t .transaction (fun i => arkHelpersGetArkTransactionFromJSON (t.atRecord i))
        list).Completes ↔
      ∀ item ∈ readChildren t .transaction list, TransactionReadable (some item) :=
  readArray_completes_of_forall fun _ _ => arkHelpersGetArkTransactionFromJSON_completes

/-- The status function decodes the peers as the list functions do. -/
theorem decodeStatus_completes {t : Target} {list : Option CJSON} :
    (if !t.malloc (t.arrayBytes .peer (cJSONGetArraySize list)) then (.ok 0 : Except Fault Int)
      else decodeChildren (fun _ => arkHelpersGetArkPeerFromJSON) list >>=
        fun _ => .ok 1).Completes ↔
      ∀ item ∈ readChildren t .peer list, PeerReadable (some item) := by
  rw [← readPeers_completes, readArray]
  -- without room nothing is decoded
  split
  · exact iff_of_true (Except.completes_ok _) (Except.completes_ok _)
  · simp only [Except.completes_bind_pure, Except.pure_eq]

/-- The functions that go through `onResponse` complete when they can decode the root. -/
private theorem completes_of_onResponse {t : Target} {e : Endpoint} (he : e.testsSize)
    {ars : ArkRestResponse} {url : CString} {decode : Option CJSON → Except Fault e.Ret}
    (hrun : ∀ get, e.run t get = get url >>= fun ars => onResponse ars e.null decode)
    (hdecode : (decode ars.root).Completes ↔ e.Readable t ars.root) :
    (e.run t fun _ => .ok ars).Completes ↔ (e.Decodes ars → e.Readable t ars.root) := by
  rw [hrun, Except.ok_bind, onResponse_completes, decodes_iff_successful he, hdecode]

/-- An endpoint function completes exactly when a successful answer is readable for it. -/
theorem run_completes_iff (t : Target) (e : Endpoint) (ars : ArkRestResponse) :
    (e.run t fun _ => .ok ars).Completes ↔ (e.Decodes ars → e.Readable t ars.root) := by
  cases e with
  | blocksGetHeight ip port =>
    apply completes_of_onResponse rfl (fun _ => rfl)
    exact deref_bind_completes fun _ => deref_map_completes
  | blocksGetEpoch ip port | blocksGetFee ip port | blocksGetNethash ip port
  | blocksGetMilestone ip port =>
    -- one member, read without a test
    apply completes_of_onResponse rfl (fun _ => rfl)
    exact deref_map_completes
  | feesGet ip port =>
    -- five members, read one after the other
    apply completes_of_onResponse rfl (fun _ => rfl)
    exact deref_bind_completes fun _ => deref_bind_completes fun _ => deref_bind_completes fun _ =>
      deref_bind_completes fun _ => deref_map_completes
  | networkAutoconfigure ip port =>
    apply completes_of_onResponse rfl (fun _ => rfl)
    exact deref_bind_completes fun _ => deref_bind_completes fun _ => deref_bind_completes fun _ =>
      deref_bind_completes fun _ => deref_map_completes
  | peers ip port | peersGetList ip port =>
    apply completes_of_onResponse rfl (fun _ => rfl)
    exact readPeers_completes
  | peersGetStatus ip port =>
    apply completes_of_onResponse rfl (fun _ => rfl)
    exact decodeStatus_completes
  | peersGet peer ip port =>
    apply completes_of_onResponse rfl (fun _ => rfl)
    exact arkHelpersGetArkPeerFromJSON_completes
  | transactions | transactionsUnconfirmed =>
    apply completes_of_onResponse rfl (fun _ => rfl)
    exact readTransactions_completes
  | transactionsGet id | transactionsGetUnconfirmed id =>
    apply completes_of_onResponse rfl (fun _ => rfl)
    exact arkHelpersGetArkTransactionFromJSON_completes
  | delegates ip port | votersGetByDelegate ip port publicKey =>
    apply completes_of_onResponse rfl (fun _ => rfl)
    exact readArray_completes.trans (iff_of_true (fun _ _ => Except.completes_ok _) trivial)
  | delegatesGetByUsername ip port username =>
    -- its decoder tests every member it reads
    refine iff_of_true ?_ fun _ => trivial
    simp only [run, arkApiDelegatesGetByUsername, Except.ok_bind, Except.pure_eq,
      arkHelpersGetArkDelegateFromJSON]
    split
    · exact Except.completes_ok _
    · split
      · exact Except.completes_ok _
      · exact Except.completes_ok _

/-- A successful answer to `getHeight` that has no id. -/
def heightWithoutId : ArkRestResponse := .ofBody "\x7b\"success\":true,\"height\":1\x7d"

/-- The id is read although it is not there. -/
theorem not_run_completes :
    ¬ ∀ (t : Target) (e : Endpoint) (ars : ArkRestResponse),
      (e.run t fun _ => .ok ars).Completes := by
  intro h
  have hfault : (match run .linux64 (fun _ => .ok heightWithoutId) (blocksGetHeight none 0) with
    | .ok _ => false
    | .error _ => true) = true := by decide +kernel
  obtain ⟨height, hheight⟩ := h .linux64 (blocksGetHeight none 0) heightWithoutId
  rw [hheight] at hfault
  exact nomatch hfault

end Endpoint

end ArkInC.Native
