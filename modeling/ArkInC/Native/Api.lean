import ArkInC.Native.Helpers
import ArkInC.Native.JsonParse

/-!
# The endpoint functions

The functions of `arkapi.c`. Each builds a URL, calls `ark_api_get` on it, parses the
body, tests the answer for success and decodes it; `get` stands for `ark_api_get`. A
function returns its null value when the transfer, the parse or the test fails. The
console output and the calls of `free` are left out.
-/

namespace ArkInC.Native

/-- `ark_api_get`, as a function of the URL. -/
abbrev Get := CString → Except Fault ArkRestResponse

/-! ## Requests -/

/-- `%s`; NULL is printed as the C libraries of both targets print it. -/
def formatS : Option CString → List UInt8
  | none => ascii "(null)"
  | some s => s.bytes

/-- `%d`. -/
def formatD (n : Int) : List UInt8 := ascii (toString n)

/-- `snprintf(url, sizeof url, ...)` into `char url[255]`. -/
def snprintfUrl (text : List UInt8) : CString := .ofBytes (text.take 254)

/-- `"%s:%d" path`, the start of every URL. -/
def hostUrl (ip : Option CString) (port : Int) (path : String) : List UInt8 :=
  formatS ip ++ ascii ":" ++ formatD port ++ ascii path

/-! ## Answers -/

/-- The frame of the endpoint functions behind `ark_api_get`: `null` unless there is a
    body that parses to a successful answer, else what `decode` makes of the root. -/
def onResponse (ars : ArkRestResponse) (null : α) (decode : Option CJSON → Except Fault α) :
    Except Fault α :=
  if ars.size = 0 ∨ ars.data = none then return null
  else
    let root := cJSONParse (ars.data.map .ofBytes)
    -- `root` is NULL if the text does not parse, and then there is no success
    if arkHelpersIsResponseSuccess root = 0 then return null
    else decode root

/-- `for (i = 0; i < total; i++) data[i] = decode(i);` -/
def fillArray (decode : Nat → Except Fault α) :
    (total : Nat) → Except Fault { data : List α // data.length = total }
  | 0 => .ok ⟨[], rfl⟩
  | i + 1 => do
    let ⟨data, h⟩ ← fillArray decode i
    let record ← decode i
    return ⟨data ++ [record], by simp [h]⟩

/-- The loop of the list endpoints over the children of `list`; `decode i` is the decoder on
    the item at index `i`. -/
def decodeChildren (decode : Nat → Option CJSON → Except Fault α) (list : Option CJSON) :
    Except Fault { data : List α // data.length = (cJSONGetArraySize list).toNat } :=
  fillArray (fun i => decode i (cJSONGetArrayItem list i)) (cJSONGetArraySize list).toNat

/-- The body of the list endpoints: count the children, allocate, decode each. A block that is
    shorter than the array, because the product that was passed to `malloc` has wrapped, is
    not noticed, neither in the source nor here. -/
def readArray (t : Target) (record : ArkRecord) (decode : Nat → Option CJSON → Except Fault α)
    (list : Option CJSON) : Except Fault (ArkArray α) :=
  if !t.malloc (t.arrayBytes record (cJSONGetArraySize list)) then return .empty
  else do
    let ⟨data, h⟩ ← decodeChildren decode list
    return { length := cJSONGetArraySize list, data := data, length_eq := h }

/-! ## Blocks -/

def arkApiBlocksGetHeight (get : Get) (ip : Option CString) (port : Int) :
    Except Fault ArkBlockHeight := do
  let ars ← get (snprintfUrl (hostUrl ip port "/api/blocks/getHeight"))
  onResponse ars {} fun root => do
    let id ← deref (cJSONGetObjectItem root (.lit "id"))
    let height ← deref (cJSONGetObjectItem root (.lit "height"))
    return { id := id.valuestring, height := height.valueint }

def arkApiBlocksGetEpoch (get : Get) (ip : Option CString) (port : Int) :
    Except Fault (Option CString) := do
  let ars ← get (snprintfUrl (hostUrl ip port "/api/blocks/getEpoch"))
  onResponse ars none fun root => do
    let epoch ← deref (cJSONGetObjectItem root (.lit "epoch"))
    return epoch.valuestring

def arkApiBlocksGetFee (get : Get) (ip : Option CString) (port : Int) : Except Fault Int := do
  let ars ← get (snprintfUrl (hostUrl ip port "/api/blocks/getFee"))
  onResponse ars (-1) fun root => do
    let fee ← deref (cJSONGetObjectItem root (.lit "fee"))
    -- the saturated `int`, not the double
    return fee.valueint

def arkApiBlocksGetNethash (get : Get) (ip : Option CString) (port : Int) :
    Except Fault (Option CString) := do
  let ars ← get (snprintfUrl (hostUrl ip port "/api/blocks/getNethash"))
  onResponse ars (some (.lit "")) fun root => do
    let nethash ← deref (cJSONGetObjectItem root (.lit "nethash"))
    return nethash.valuestring

def arkBlocksGetMilestone (get : Get) (ip : Option CString) (port : Int) : Except Fault Int := do
  let ars ← get (snprintfUrl (hostUrl ip port "/api/blocks/getMilestone"))
  onResponse ars (-1) fun root => do
    let milestone ← deref (cJSONGetObjectItem root (.lit "milestone"))
    return milestone.valueint

/-! ## Delegates -/

def arkApiDelegates (t : Target) (get : Get) (ip : Option CString) (port : Int) :
    Except Fault ArkDelegateArray := do
  let ars ← get (snprintfUrl (hostUrl ip port "/api/delegates"))
  onResponse ars .empty fun root =>
    readArray t .delegate (fun _ => arkHelpersGetArkDelegateFromJSON t)
      (cJSONGetObjectItem root (.lit "delegates"))

/-- The only endpoint that does not test the size of the answer. -/
def arkApiDelegatesGetByUsername (t : Target) (get : Get) (ip : Option CString) (port : Int)
    (username : Option CString) : Except Fault ArkDelegate := do
  let ars ← get (snprintfUrl
    (hostUrl ip port "/api/delegates/get?username=" ++ formatS username))
  -- `ars->size` is not looked at
  if ars.data = none then return {}
  let root := cJSONParse (ars.data.map .ofBytes)
  if arkHelpersIsResponseSuccess root = 0 then return {}
  arkHelpersGetArkDelegateFromJSON t (cJSONGetObjectItem root (.lit "delegate"))

/-! ## Fees -/

def arkApiFeesGet (t : Target) (get : Get) (ip : Option CString) (port : Int) :
    Except Fault ArkFee := do
  let ars ← get (snprintfUrl (hostUrl ip port "/api/blocks/getfees"))
  onResponse ars {} fun root => do
    let feeJson := cJSONGetObjectItem root (.lit "fees")
    let send ← deref (cJSONGetObjectItem feeJson (.lit "send"))
    let vote ← deref (cJSONGetObjectItem feeJson (.lit "vote"))
    let secondSignature ← deref (cJSONGetObjectItem feeJson (.lit "secondsignature"))
    let delegate ← deref (cJSONGetObjectItem feeJson (.lit "delegate"))
    let multiSignature ← deref (cJSONGetObjectItem feeJson (.lit "multisignature"))
    return {
      send := t.roundToLong send.valuedouble
      vote := t.roundToLong vote.valuedouble
      secondSignature := t.roundToLong secondSignature.valuedouble
      delegate := t.roundToLong delegate.valuedouble
      multiSignature := t.roundToLong multiSignature.valuedouble }

/-! ## Network -/

def arkApiNetworkAutoconfigure (get : Get) (ip : Option CString) (port : Int) :
    Except Fault ArkNetwork := do
  let ars ← get (snprintfUrl (hostUrl ip port "/api/loader/autoconfigure"))
  onResponse ars {} fun root => do
    let networkJson := cJSONGetObjectItem root (.lit "network")
    let netHash ← deref (cJSONGetObjectItem networkJson (.lit "nethash"))
    let token ← deref (cJSONGetObjectItem networkJson (.lit "token"))
    let symbol ← deref (cJSONGetObjectItem networkJson (.lit "symbol"))
    let explorer ← deref (cJSONGetObjectItem networkJson (.lit "explorer"))
    let version ← deref (cJSONGetObjectItem networkJson (.lit "version"))
    return {
      netHash := netHash.valuestring
      token := token.valuestring
      symbol := symbol.valuestring
      explorer := explorer.valuestring
      version := version.valueint }

/-! ## Peers -/

def arkApiPeers (t : Target) (get : Get) (ip : Option CString) (port : Int) :
    Except Fault ArkPeerArray := do
  let ars ← get (snprintfUrl (hostUrl ip port "/api/peers"))
  onResponse ars .empty fun root =>
    readArray t .peer (fun _ => arkHelpersGetArkPeerFromJSON)
      (cJSONGetObjectItem root (.lit "peers"))

def arkApiPeersGetList (t : Target) (get : Get) (ip : Option CString) (port : Int) :
    Except Fault ArkPeerArray := do
  let ars ← get (snprintfUrl (hostUrl ip port "/api/peer/list"))
  onResponse ars .empty fun root =>
    readArray t .peer (fun _ => arkHelpersGetArkPeerFromJSON)
      (cJSONGetObjectItem root (.lit "peers"))

/-- Asks `peer` about the peer at `ip` and `port`. -/
def arkApiPeersGet (get : Get) (peer : ArkPeer) (ip : Option CString) (port : Int) :
    Except Fault ArkPeer := do
  let ars ← get (snprintfUrl (hostUrl peer.ip peer.port "/api/peers/get?port=" ++
    formatD port ++ ascii "&ip=" ++ formatS ip))
  onResponse ars {} fun root =>
    arkHelpersGetArkPeerFromJSON (cJSONGetObjectItem root (.lit "peer"))

/-- Decodes the peers and drops them; one if it got that far. -/
def arkApiPeersGetStatus (t : Target) (get : Get) (ip : Option CString) (port : Int) :
    Except Fault Int := do
  let ars ← get (snprintfUrl (hostUrl ip port "/api/peer/status?port=" ++
    formatD port ++ ascii "&ip=" ++ formatS ip))
  onResponse ars 0 fun root => do
    let peers := cJSONGetObjectItem root (.lit "peers")
    if !t.malloc (t.arrayBytes .peer (cJSONGetArraySize peers)) then return 0
    -- the array is filled like that of `ark_api_peers`, and then dropped
    let _ ← decodeChildren (fun _ => arkHelpersGetArkPeerFromJSON) peers
    return 1

/-! ## Transactions

The host is a placeholder in the source. -/

def arkApiTransactions (t : Target) (get : Get) : Except Fault ArkTransactionArray := do
  let ars ← get (snprintfUrl (hostUrl (some (.lit "TBD")) 0 "/transactions"))
  onResponse ars .empty fun root =>
    readArray t .transaction (fun i => arkHelpersGetArkTransactionFromJSON (t.atRecord i))
      (cJSONGetObjectItem root (.lit "transactions"))

def arkApiTransactionsUnconfirmed (t : Target) (get : Get) :
    Except Fault ArkTransactionArray := do
  let ars ← get (snprintfUrl (hostUrl (some (.lit "TBD")) 0 "/transactions/unconfirmed"))
  onResponse ars .empty fun root =>
    readArray t .transaction (fun i => arkHelpersGetArkTransactionFromJSON (t.atRecord i))
      (cJSONGetObjectItem root (.lit "transactions"))

def arkApiTransactionsGet (t : Target) (get : Get) (id : Option CString) :
    Except Fault ArkTransaction := do
  let ars ← get (snprintfUrl
    (hostUrl (some (.lit "TBD")) 0 "/transactions/get?id=" ++ formatS id))
  onResponse ars {} fun root =>
    arkHelpersGetArkTransactionFromJSON t (cJSONGetObjectItem root (.lit "transaction"))

def arkApiTransactionsGetUnconfirmed (t : Target) (get : Get) (id : Option CString) :
    Except Fault ArkTransaction := do
  let ars ← get (snprintfUrl
    (hostUrl (some (.lit "TBD")) 0 "/transactions/unconfirmed/get?id=" ++ formatS id))
  onResponse ars {} fun root =>
    arkHelpersGetArkTransactionFromJSON t (cJSONGetObjectItem root (.lit "transaction"))

/-! ## Voters -/

def arkApiVotersGetByDelegate (t : Target) (get : Get) (ip : Option CString) (port : Int)
    (publicKey : Option CString) : Except Fault ArkVoterArray := do
  let ars ← get (snprintfUrl
    (hostUrl ip port "/api/delegates/voters?publicKey=" ++ formatS publicKey))
  onResponse ars .empty fun root =>
    readArray t .voter (fun _ => arkHelpersGetArkVoterFromJSON t)
      (cJSONGetObjectItem root (.lit "accounts"))

end ArkInC.Native
