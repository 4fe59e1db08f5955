import ArkInC.Native.Api
import ArkInC.Native.Transfer

/-!
# Setting up the environment

The functions of `arkcore.c` over the global variables of `arkcore.h`. The nodes and
the random generator are a `World`: what the endpoint functions return to the request
that is sent when `clock` requests have been sent before. `World.ofNodes` is the world
in which the endpoint functions are those of `arkapi.c`.
-/

namespace ArkInC.Native

/-! ## Seeds -/

/-- `seedArray` of `arkconstants.h`. -/
def seedArray : List String :=
  ["5.39.9.240:4001", "5.39.9.241:4001", "5.39.9.242:4001", "5.39.9.243:4001",
   "5.39.9.244:4001", "5.39.9.250:4001", "5.39.9.251:4001", "5.39.9.252:4001",
   "5.39.9.253:4001", "5.39.9.254:4001", "5.39.9.255:4001", "5.39.53.48:4001",
   "5.39.53.49:4001", "5.39.53.50:4001", "5.39.53.51:4001", "5.39.53.52:4001",
   "5.39.53.53:4001", "5.39.53.54:4001", "5.39.53.55:4001", "37.59.129.160:4001",
   "37.59.129.161:4001", "37.59.129.162:4001", "37.59.129.163:4001", "37.59.129.164:4001",
   "37.59.129.165:4001", "37.59.129.166:4001", "37.59.129.167:4001", "37.59.129.168:4001",
   "37.59.129.169:4001", "37.59.129.170:4001", "37.59.129.171:4001", "37.59.129.172:4001",
   "37.59.129.173:4001", "37.59.129.174:4001", "37.59.129.175:4001", "193.70.72.80:4001",
   "193.70.72.81:4001", "193.70.72.82:4001", "193.70.72.83:4001", "193.70.72.84:4001",
   "193.70.72.85:4001", "193.70.72.86:4001", "193.70.72.87:4001", "193.70.72.88:4001",
   "193.70.72.89:4001", "193.70.72.90:4001"]

/-- `seedArrayTest` of `arkconstants.h`. -/
def seedArrayTest : List String :=
  ["164.8.251.179:4002", "164.8.251.172:4002", "164.8.251.91:4002", "167.114.43.48:4002",
   "167.114.29.49:4002", "167.114.43.43:4002", "167.114.29.54:4002", "167.114.29.45:4002",
   "167.114.29.40:4002", "167.114.29.56:4002", "167.114.43.35:4002", "167.114.29.51:4002",
   "167.114.29.59:4002", "167.114.43.42:4002", "167.114.29.34:4002", "167.114.29.62:4002",
   "167.114.43.49:4002", "167.114.29.44:4002", "167.114.43.37:4002", "167.114.29.63:4002",
   "167.114.29.42:4002", "167.114.29.48:4002", "167.114.29.61:4002", "167.114.43.36:4002",
   "167.114.29.57:4002", "167.114.43.33:4002", "167.114.29.52:4002", "167.114.29.50:4002",
   "167.114.43.47:4002", "167.114.29.47:4002", "167.114.29.36:4002", "167.114.29.35:4002",
   "167.114.43.39:4002", "167.114.43.45:4002", "167.114.29.46:4002", "167.114.29.41:4002",
   "167.114.43.34:4002", "167.114.29.43:4002", "167.114.43.41:4002", "167.114.29.60:4002",
   "167.114.43.32:4002", "167.114.29.55:4002", "167.114.29.53:4002", "167.114.29.38:4002",
   "167.114.43.40:4002", "167.114.29.32:4002", "167.114.43.46:4002", "167.114.43.38:4002",
   "167.114.29.33:4002", "167.114.43.44:4002", "167.114.43.50:4002", "167.114.29.37:4002",
   "167.114.29.58:4002", "167.114.29.39:4002"]

/-- The splitting of a seed at its colon. The copies go to blocks of one byte in the
    source; here they are taken to have room, and `splitSeedInto` checks them. -/
def splitSeed (element : CString) : ArkPeer :=
  let x := element.bytes.idxOf ':'.toUInt8
  let y := element.bytes.length - x - 1
  { ip := some (.ofBytes (element.bytes.take x))
    port := atoi ((element.bytes.drop (x + 1)).take y) }

/-- `strncpy` into an allocated block: it writes `n` bytes, NULs behind the end of `src`. -/
def strncpy (block src : List UInt8) (n : Nat) : Except Fault (List UInt8) :=
  memcpy block 0 (src.take n ++ List.replicate (n - src.length) 0)

/-- `block[index] = c`. -/
def storeByte (block : List UInt8) (index : Int) (c : UInt8) : Except Fault (List UInt8) :=
  if index < 0 then .error .outOfBounds else memcpy block index.toNat [c]

/-- The splitting of a seed with its writes checked, into the blocks `ip` and `port`. -/
def splitSeedInto (t : Target) (ip port : List UInt8) (element : CString) :
    Except Fault ArkPeer := do
  let x := (element.bytes.idxOf ':'.toUInt8 : Int).bmod (2 ^ 32)
  let y := ((element.bytes.length : Int) - x - 1).bmod (2 ^ 32)
  -- an `int` that is passed as a length becomes a `size_t`
  let ip ← strncpy ip element.bytes (x % 2 ^ t.sizeBits).toNat
  let ip ← storeByte ip x 0
  let port ← strncpy port (element.bytes.drop (x + 1).toNat) (y % 2 ^ t.sizeBits).toNat
  let port ← storeByte port y 0
  return { ip := some (.ofBytes ip), port := atoi (CString.ofBytes port).bytes }

/-- The size both blocks are allocated with, `sizeof(char)`. -/
def seedBlockSize : Nat := 1

/-- `ark_core_get_randomPeer`, for a value of `rand()`. -/
def arkCoreGetRandomPeer (networkType : ARKNETWORKTYPE) (rand : Nat) : ArkPeer :=
  let seeds :=
    match networkType with
    | .MAIN => seedArray
    | .DEVELOPMENT => seedArrayTest
  splitSeed (.lit (seeds.getD (rand % seeds.length) ""))

/-! ## State and requests -/

/-- The global variables of `arkcore.h` that are used. -/
@[ext] structure Globals where
  networkType : ARKNETWORKTYPE := .DEVELOPMENT
  network : ArkNetwork := {}
  selectedPeer : ArkPeer := {}
  selectedPeerFee : ArkFee := {}
  deriving DecidableEq

/-- The requests `ark_core_setEnvrionment` sends. -/
inductive Request where
  | autoconfigure (ip : Option CString) (port : Int)
  | peersGet (peer : ArkPeer) (ip : Option CString) (port : Int)
  | feesGet (ip : Option CString) (port : Int)
  | peers (ip : Option CString) (port : Int)
  deriving DecidableEq

/-- The state of the program: its globals, the requests it has sent, in order, and the
    number of valid peers it last printed. -/
structure CoreState where
  globals : Globals := {}
  requests : List Request := []
  numOfValidPeers : Nat := 0
  deriving DecidableEq

/-- How many requests have been sent. -/
def CoreState.clock (s : CoreState) : Nat := s.requests.length

/-- What the world answers at a given clock. -/
structure World where
  randomPeer : Nat → ARKNETWORKTYPE → ArkPeer
  autoconfigure : Nat → Option CString → Int → Except Fault ArkNetwork
  peersGet : Nat → ArkPeer → Option CString → Int → Except Fault ArkPeer
  feesGet : Nat → Option CString → Int → Except Fault ArkFee
  peers : Nat → Option CString → Int → Except Fault ArkPeerArray

/-- The program over its own endpoint functions: `rand` gives the random numbers and
    `answer` what happens to the request for a URL. -/
def World.ofNodes (t : Target) (rand : Nat → Nat) (answer : Nat → CString → Transfer) :
    World where
  randomPeer clock networkType := arkCoreGetRandomPeer networkType (rand clock)
  autoconfigure clock := arkApiNetworkAutoconfigure (arkApiGet t ∘ answer clock)
  peersGet clock := arkApiPeersGet (arkApiGet t ∘ answer clock)
  feesGet clock := arkApiFeesGet t (arkApiGet t ∘ answer clock)
  peers clock := arkApiPeers t (arkApiGet t ∘ answer clock)

/-- The values the endpoint functions return, where each of them returns. -/
structure Answers where
  randomPeer : Nat → ARKNETWORKTYPE → ArkPeer := fun clock networkType =>
    arkCoreGetRandomPeer networkType clock
  autoconfigure : Nat → Option CString → Int → ArkNetwork := fun _ _ _ => {}
  peersGet : Nat → ArkPeer → Option CString → Int → ArkPeer := fun _ _ _ _ => {}
  feesGet : Nat → Option CString → Int → ArkFee := fun _ _ _ => {}
  peers : Nat → Option CString → Int → ArkPeerArray := fun _ _ _ => .empty

/-- The world in which the endpoint functions return the values `a`. -/
def World.ofAnswers (a : Answers) : World where
  randomPeer := a.randomPeer
  autoconfigure clock ip port := .ok (a.autoconfigure clock ip port)
  peersGet clock peer ip port := .ok (a.peersGet clock peer ip port)
  feesGet clock ip port := .ok (a.feesGet clock ip port)
  peers clock ip port := .ok (a.peers clock ip port)

/-- Sends a request and receives its answer. -/
def CoreState.send (s : CoreState) (request : Request) (answer : Nat → Except Fault α) :
    Except Fault (α × CoreState) := do
  let value ← answer s.clock
  return (value, { s with requests := s.requests ++ [request] })

/-! ## Peers -/

/-- One turn of the loop of `ark_core_filterPeers`, on the selected peer and the number
    of valid peers. -/
def filterStep (maxheight : Int) (acc : ArkPeer × Nat) (peer : ArkPeer) : ArkPeer × Nat :=
  if peer.status = .OK then
    -- `maxheight` is not raised to the height of the new peer
    (if maxheight < peer.height then peer else acc.1, acc.2 + 1)
  else acc

def arkCoreFilterPeers (w : World) (s : CoreState) : Except Fault (Int × CoreState) := do
  let selectedPeer := s.globals.selectedPeer
  let (tuple, s) ← s.send (.peers selectedPeer.ip selectedPeer.port)
    (w.peers · selectedPeer.ip selectedPeer.port)
  let maxheight := selectedPeer.height
  let (selectedPeer, numOfValidPeers) := tuple.data.foldl (filterStep maxheight) (selectedPeer, 0)
  return (1, { s with
    globals := { s.globals with selectedPeer := selectedPeer }
    numOfValidPeers := numOfValidPeers })

/-! ## Environment -/

/-- `while (iterations > 0 && fail == 1)`: asks random seeds for the configuration of the
    network. -/
def seedLoop (w : World) (iterations : Nat) (fail : Int) (randomPeer : ArkPeer)
    (peerNetworkConfiguration : ArkNetwork) (s : CoreState) :
    Except Fault (Int × ArkPeer × ArkNetwork × CoreState) :=
  match iterations with
  | 0 => return (fail, randomPeer, peerNetworkConfiguration, s)
  | iterations + 1 =>
    if fail = 1 then do
      -- the seed of the global network type, which was set before the loop
      let randomPeer := w.randomPeer s.clock s.globals.networkType
      let (peerNetworkConfiguration, s) ← s.send (.autoconfigure randomPeer.ip randomPeer.port)
        (w.autoconfigure · randomPeer.ip randomPeer.port)
      seedLoop w iterations (arkHelpersIsNetworkNull peerNetworkConfiguration) randomPeer
        peerNetworkConfiguration s
    else return (fail, randomPeer, peerNetworkConfiguration, s)

/-- `ark_core_setEnvrionment`: the returned value and the state it leaves. -/
def arkCoreSetEnvrionment (w : World) (networkType : ARKNETWORKTYPE) (s : CoreState) :
    Except Fault (Int × CoreState) := do
  let s := { s with globals := { s.globals with networkType := networkType } }
  let (fail, randomPeer, peerNetworkConfiguration, s) ← seedLoop w 5 1 {} {} s
  -- all five seeds failed: the network type stays overwritten
  if fail = 1 then return (0, s)
  let s := { s with globals := { s.globals with network := peerNetworkConfiguration } }
  let (selectedPeer, s) ← s.send (.peersGet randomPeer randomPeer.ip randomPeer.port)
    (w.peersGet · randomPeer randomPeer.ip randomPeer.port)
  -- stored first, tested afterwards
  let s := { s with globals := { s.globals with selectedPeer := selectedPeer } }
  if arkHelpersIsPeerNull selectedPeer = 1 then return (0, s)
  let (selectedPeerFee, s) ← s.send (.feesGet selectedPeer.ip selectedPeer.port)
    (w.feesGet · selectedPeer.ip selectedPeer.port)
  let s := { s with globals := { s.globals with selectedPeerFee := selectedPeerFee } }
  if arkHelpersIsFeeNull selectedPeerFee = 1 then return (0, s)
  -- may still replace the peer whose fees were stored
  arkCoreFilterPeers w s

end ArkInC.Native
