import ArkInC.Native.Json
import ArkInC.Native.Models

/-!
# Decoders and tests

The functions of `arkhelpers.c`: string-to-enumeration tables, the decoders of the
four record types, and the tests for null records and successful responses.
-/

namespace ArkInC.Native

open Binary64 (Double)

/-! ## Enumerations -/

/-- The loop over a static table of names: the entry of the first equal name, or
    `result` as initialised. The first comparison already reads `string`. -/
def enumFromString (map : List (CString × ε)) (result : ε) (string : Option CString) :
    Except Fault ε :=
  match string with
  | none => .error .nullString
  | some string =>
    .ok (((map.find? fun entry => strcmp string entry.1 = 0).map Prod.snd).getD result)

def peerStatusMap : List (CString × ARKPEERSTATUS) :=
  [(.lit "OK", .OK), (.lit "EUNAVAILABLE", .EUNAVAILABLE), (.lit "ETIMEOUT", .ETIMEOUT)]

def arkHelpersGetArkPeerStatusFromString (string : Option CString) : Except Fault ARKPEERSTATUS :=
  enumFromString peerStatusMap .OK string

def transactionTypeMap : List (CString × ARKTRANSACTIONTYPE) :=
  [(.lit "SENDARK", .SENDARK), (.lit "SECONDSIGNATURE", .SECONDSIGNATURE),
    (.lit "CREATEDELEGATE", .CREATEDELEGATE), (.lit "VOTE", .VOTE),
    (.lit "MULTISIGNATURE", .MULTISIGNATURE)]

/-- The result is initialised with `OK`, which is zero, as `SENDARK` is. -/
def arkHelpersGetArkTransactionTypeFromString (string : Option CString) :
    Except Fault ARKTRANSACTIONTYPE :=
  enumFromString transactionTypeMap .SENDARK string

/-! ## Fields

`obj = cJSON_GetObjectItem(json, name); if (obj != NULL) record.field = ...`, for each
of the value slots an item has. -/

/-- A field fed from `obj->valuestring`. -/
def stringField (json : Option CJSON) (name : String) : Option CString :=
  (cJSONGetObjectItem json (.lit name)).bind CJSON.valuestring

/-- A field fed from `obj->valueint`. -/
def intField (json : Option CJSON) (name : String) : Int :=
  ((cJSONGetObjectItem json (.lit name)).map CJSON.valueint).getD 0

/-- A field fed from `obj->valuedouble`. -/
def doubleField (json : Option CJSON) (name : String) : Double :=
  ((cJSONGetObjectItem json (.lit name)).map CJSON.valuedouble).getD 0

/-- A field fed from `(long)(obj->valuedouble + 0.5)`. -/
def longField (t : Target) (json : Option CJSON) (name : String) : Int :=
  ((cJSONGetObjectItem json (.lit name)).map fun obj => t.roundToLong obj.valuedouble).getD 0

/-- An `int` field fed from the pointer `obj->valuestring`. -/
def pointerField (t : Target) (json : Option CJSON) (name : String) : Int :=
  ((cJSONGetObjectItem json (.lit name)).map fun obj => t.pointerToInt obj.valuestring).getD 0

/-! ## Decoders -/

def arkHelpersGetArkPeerFromJSON (json : Option CJSON) : Except Fault ArkPeer := do
  let status ←
    match cJSONGetObjectItem json (.lit "status") with
    | none => pure .OK
    | some _ => do
      -- looked up a second time, behind the test
      let obj ← deref (cJSONGetObjectItem json (.lit "status"))
      arkHelpersGetArkPeerStatusFromString obj.valuestring
  return {
    ip := stringField json "ip"
    port := intField json "port"
    version := stringField json "version"
    os := stringField json "os"
    status := status
    delay := intField json "delay"
    height := intField json "height" }

def arkHelpersGetArkDelegateFromJSON (t : Target) (json : Option CJSON) :
    Except Fault ArkDelegate :=
  return {
    username := stringField json "username"
    address := stringField json "address"
    publicKey := stringField json "publicKey"
    vote := stringField json "vote"
    producedBlocks := longField t json "producedblocks"
    missedBlocks := longField t json "missedblocks"
    rate := intField json "rate"
    approval := doubleField json "approval"
    productivity := doubleField json "productivity" }

def arkHelpersGetArkVoterFromJSON (t : Target) (json : Option CJSON) : Except Fault ArkVoter :=
  return {
    username := stringField json "username"
    address := stringField json "address"
    publicKey := stringField json "publicKey"
    balance := longField t json "balance" }

/-- The type is decoded when there is a `status` member, from the `type` member; the
    timestamp is not decoded. -/
def arkHelpersGetArkTransactionFromJSON (t : Target) (json : Option CJSON) :
    Except Fault ArkTransaction := do
  let type ←
    match cJSONGetObjectItem json (.lit "status") with
    | none => pure .SENDARK
    | some _ => do
      -- the test was for another member than the one that is read
      let obj ← deref (cJSONGetObjectItem json (.lit "type"))
      arkHelpersGetArkTransactionTypeFromString obj.valuestring
  return {
    amount := doubleField json "amount"
    blockId := stringField json "blockid"
    confirmation := pointerField t json "confirmation"
    fee := doubleField json "fee"
    height := intField json "height"
    id := stringField json "id"
    recipientId := stringField json "recipientid"
    secondSenderPublicKey := stringField json "secondsenderpublickey"
    senderId := stringField json "senderid"
    senderPublicKey := stringField json "senderpublickey"
    signature := stringField json "signature"
    signSignature := stringField json "signsignature"
    type := type
    vendorField := stringField json "vendorfield" }

/-! ## Tests -/

def arkHelpersIsNetworkNull (network : ArkNetwork) : Int :=
  if network.explorer = none ∧ network.netHash = none ∧ network.symbol = none ∧
      network.token = none ∧ network.version = 0
  then 1 else 0

/-- The status is not tested. -/
def arkHelpersIsPeerNull (peer : ArkPeer) : Int :=
  if peer.delay = 0 ∧ peer.height = 0 ∧ peer.ip = none ∧ peer.os = none ∧ peer.port = 0 ∧
      peer.version = none
  then 1 else 0

def arkHelpersIsFeeNull (fee : ArkFee) : Int :=
  if fee.delegate = 0 ∧ fee.multiSignature = 0 ∧ fee.secondSignature = 0 ∧ fee.send = 0 ∧
      fee.vote = 0
  then 1 else 0

def arkHelpersIsResponseSuccess (json : Option CJSON) : Int :=
  match cJSONGetObjectItem json (.lit "success") with
  | none => 0
  | some obj => if obj.valueint = 1 then 1 else 0

end ArkInC.Native
