import ArkInC.Native.CLib

/-!
# The records of the client

The enumerations and structures of `arkmodels.h`. A `char *` is an `Option CString`,
NULL being `none`; `int` and `long` are integers. The default of every field is zero,
so that `{}` is the `{0}` of the source.
-/

namespace ArkInC.Native

open Binary64 (Double)

inductive ARKNETWORKTYPE where
  | DEVELOPMENT
  | MAIN
  deriving DecidableEq, Repr

inductive ARKPEERSTATUS where
  | OK
  | EUNAVAILABLE
  | ETIMEOUT
  deriving DecidableEq, Repr

inductive ARKTRANSACTIONTYPE where
  | SENDARK
  | SECONDSIGNATURE
  | CREATEDELEGATE
  | VOTE
  | MULTISIGNATURE
  deriving DecidableEq, Repr

/-- The body of an answer: the allocated block, NULL if there is none, and the number
    of bytes received. -/
structure ArkRestResponse where
  data : Option (List UInt8)
  size : Nat
  deriving DecidableEq

structure ArkPeer where
  delay : Int := 0
  height : Int := 0
  ip : Option CString := none
  os : Option CString := none
  port : Int := 0
  version : Option CString := none
  status : ARKPEERSTATUS := .OK
  deriving DecidableEq

/-- A counted array: `length`, and as many records behind `data`. -/
structure ArkArray (α : Type) where
  length : Int := 0
  data : List α := []
  length_eq : data.length = length.toNat := by rfl
  deriving DecidableEq

/-- No records, and nothing allocated for them. -/
def ArkArray.empty : ArkArray α := {}

abbrev ArkPeerArray := ArkArray ArkPeer

structure ArkFee where
  delegate : Int := 0
  multiSignature : Int := 0
  secondSignature : Int := 0
  send : Int := 0
  vote : Int := 0
  deriving DecidableEq

structure ArkBlockHeight where
  id : Option CString := none
  height : Int := 0
  deriving DecidableEq

structure ArkDelegate where
  address : Option CString := none
  approval : Double := 0
  missedBlocks : Int := 0
  producedBlocks : Int := 0
  productivity : Double := 0
  publicKey : Option CString := none
  rate : Int := 0
  username : Option CString := none
  vote : Option CString := none
  deriving DecidableEq

abbrev ArkDelegateArray := ArkArray ArkDelegate

structure ArkVoter where
  address : Option CString := none
  balance : Int := 0
  publicKey : Option CString := none
  username : Option CString := none
  deriving DecidableEq

abbrev ArkVoterArray := ArkArray ArkVoter

structure ArkNetwork where
  explorer : Option CString := none
  netHash : Option CString := none
  symbol : Option CString := none
  token : Option CString := none
  version : Int := 0
  deriving DecidableEq

structure ArkTransaction where
  amount : Double := 0
  blockId : Option CString := none
  confirmation : Int := 0
  fee : Double := 0
  height : Int := 0
  id : Option CString := none
  recipientId : Option CString := none
  secondSenderPublicKey : Option CString := none
  senderId : Option CString := none
  senderPublicKey : Option CString := none
  signature : Option CString := none
  signSignature : Option CString := none
  timestamp : Int := 0
  type : ARKTRANSACTIONTYPE := .SENDARK
  vendorField : Option CString := none
  deriving DecidableEq

abbrev ArkTransactionArray := ArkArray ArkTransaction

end ArkInC.Native
