import ArkInC.Spec.Chunks
import ArkInC.Spec.Environment
import ArkInC.Spec.JsonGrammar
import ArkInC.Spec.Render
import ArkInC.Spec.Reports

/-!
# From a node to the client

What becomes of a value that a node reports: written as JSON in any way, cut into any chunks,
put together by `curl_callback`, parsed and decoded, it is the value again. This holds for
every endpoint function, and so for the environment that `ark_core_setEnvrionment` sets up.

## Key results

- `Endpoint.run_congr`: a function sends one request, for the URL of its arguments
- `Endpoint.run_of_serves`: what a node reports is what the function returns
- `Endpoint.run_of_unanswered`: without an answer it returns the null value
- `arkCoreSetEnvrionment_of_nodes`: the environment is what the nodes reported
-/

namespace ArkInC.Native

/-! ## Requests -/

namespace Endpoint

/-- The URL of the request a function sends. -/
def url : Endpoint → CString
  | blocksGetHeight ip port => snprintfUrl (hostUrl ip port "/api/blocks/getHeight")
  | blocksGetEpoch ip port => snprintfUrl (hostUrl ip port "/api/blocks/getEpoch")
  | blocksGetFee ip port => snprintfUrl (hostUrl ip port "/api/blocks/getFee")
  | blocksGetNethash ip port => snprintfUrl (hostUrl ip port "/api/blocks/getNethash")
  | blocksGetMilestone ip port => snprintfUrl (hostUrl ip port "/api/blocks/getMilestone")
  | delegates ip port => snprintfUrl (hostUrl ip port "/api/delegates")
  | delegatesGetByUsername ip port username =>
    snprintfUrl (hostUrl ip port "/api/delegates/get?username=" ++ formatS username)
  | feesGet ip port => snprintfUrl (hostUrl ip port "/api/blocks/getfees")
  | networkAutoconfigure ip port => snprintfUrl (hostUrl ip port "/api/loader/autoconfigure")
  | peers ip port => snprintfUrl (hostUrl ip port "/api/peers")
  | peersGetList ip port => snprintfUrl (hostUrl ip port "/api/peer/list")
  | peersGet peer ip port => snprintfUrl (hostUrl peer.ip peer.port "/api/peers/get?port=" ++
    formatD port ++ ascii "&ip=" ++ formatS ip)
  | peersGetStatus ip port => snprintfUrl (hostUrl ip port "/api/peer/status?port=" ++
    formatD port ++ ascii "&ip=" ++ formatS ip)
  | transactions => snprintfUrl (hostUrl (some (.lit "TBD")) 0 "/transactions")
  | transactionsUnconfirmed =>
    snprintfUrl (hostUrl (some (.lit "TBD")) 0 "/transactions/unconfirmed")
  | transactionsGet id =>
    snprintfUrl (hostUrl (some (.lit "TBD")) 0 "/transactions/get?id=" ++ formatS id)
  | transactionsGetUnconfirmed id =>
    snprintfUrl (hostUrl (some (.lit "TBD")) 0 "/transactions/unconfirmed/get?id=" ++ formatS id)
  | votersGetByDelegate ip port publicKey =>
    snprintfUrl (hostUrl ip port "/api/delegates/voters?publicKey=" ++ formatS publicKey)

/-- A function sends one request, for its URL. -/
theorem run_congr (t : Target) (e : Endpoint) {get get' : Get} (h : get e.url = get' e.url) :
    e.run t get = e.run t get' := by
  -- each function asks once, and what it makes of the response does not mention the URL
  cases e with
  | _ => exact congrArg (· >>= _) h

end Endpoint

/-! ## Answers -/

variable {t : Target} {answer : CString → Transfer} {e : Endpoint} {v : e.Ret}

/-- A node serves a function with a value: the text of an answer that reports the value, written
    in any way, arrives at the URL of the function in any chunks. -/
inductive Serves (t : Target) (answer : CString → Transfer) (e : Endpoint) (v : e.Ret) : Prop where
  | intro (text : CString) (members : List (CString × CJSON))
    (written : JsonText CJSON_NESTING_LIMIT (.element (.object members)) text.bytes)
    (success : FirstMember members "success" .true) (reports : e.Reports t members v)
    (room : text.bytes.length < 2 ^ t.sizeBits - 1)
    (delivers : (answer e.url).Delivers text.bytes)

/-- No answer comes: the transfer fails in the client, or what arrives, if anything, is no
    answer that reports success. -/
structure Transfer.Unanswered (t : Target) (tr : Transfer) : Prop where
  sound : tr.Sound t
  unanswered : tr.Fails ∨ ¬ Successful (complete tr.body)

/-- The text of a value is parsed to it. -/
theorem root_complete_of_jsonText {text : CString} {v : CJSON}
    (h : JsonText CJSON_NESTING_LIMIT (.element v) text.bytes) :
    (complete text.bytes).root = some v := by
  -- the buffer holds the text and its end mark
  have htext : CString.ofBytes (text.bytes ++ [0]) = text :=
    CString.ofBytes_append_zero text.noNul
  have hderives := (cJSONParseWithOpts_true_iff_derives.mp
    (cJSONParseWithOpts_true_iff.mpr ⟨rfl, h⟩)).2
  rw [derives_element_iff] at hderives
  obtain ⟨left, hvalue, -⟩ := hderives
  rw [ArkRestResponse.root, complete, Option.map_some, htext, cJSONParse, hvalue, Option.map_some]

/-- A tree without an infinite number is read back from its printed text, so a node may print
    its answers. -/
theorem jsonText_renderText (format : Bool) {v : CJSON} (hv : Fits CJSON_NESTING_LIMIT v)
    (hprinted : printedTree v = v) :
    JsonText CJSON_NESTING_LIMIT (.element v) (renderText format v).bytes := by
  have hparse := cJSONParseWithOpts_render format true hv
  rw [hprinted] at hparse
  exact (cJSONParseWithOpts_true_iff.mp hparse).2

/-- A node that sends the printed text of its answer in one chunk serves it. -/
theorem serves_ofBytes (format : Bool) (members : List (CString × CJSON))
    (hfits : Fits CJSON_NESTING_LIMIT (.object members))
    (hprinted : printedTree (.object members) = .object members)
    (hsuccess : FirstMember members "success" .true) (hreports : e.Reports t members v)
    (hlen : (render format 0 (.object members)).length ≤ CURL_MAX_WRITE_SIZE)
    (hanswer : answer e.url = .ofBytes (render format 0 (.object members))) :
    Serves t answer e v := by
  refine .intro _ members (jsonText_renderText format hfits hprinted) hsuccess hreports ?_ ?_
  · refine hlen.trans_lt ?_
    rcases t.sizeBits_eq with hbits | hbits <;> rw [hbits] <;> decide
  · rw [hanswer]
    exact Transfer.delivers_ofBytes hlen

namespace Endpoint

/-- From a node to the client: what a node reports is what the function returns. -/
theorem run_of_serves (h : Serves t answer e v) : e.run t (arkApiGet t ∘ answer) = .ok v := by
  obtain ⟨text, members, hwritten, hsuccess, hreports, hroom, hdelivers⟩ := h
  obtain ⟨q, hq, hholds, -⟩ := arkApiGet_of_delivers hroom hdelivers
  have hroot := root_complete_of_jsonText hwritten
  -- an answer without bytes is none
  have hsize : (complete text.bytes).size ≠ 0 := by
    intro hzero
    have hnil : text.bytes = [] := List.length_eq_zero_iff.mp hzero
    rw [hnil, root_complete_nil] at hroot
    cases hroot
  -- the one response, then its bytes alone, then what they say
  calc e.run t (arkApiGet t ∘ answer)
      = e.run t fun _ => .ok q := run_congr t e hq
    _ = e.run t fun _ => .ok (complete text.bytes) := run_of_holds hholds
    _ = .ok v := run_of_reports hreports ⟨hroot, hsize, hsuccess⟩

end Endpoint

/-! Items of the answers below, and what they report. -/

def intItem (n : Int) : CJSON := .number (.finite n)

section

variable {members : List (CString × CJSON)} {name : String} {n : Int}

theorem hasInt_intItem (hn : IsInt n)
    (h : cJSONGetObjectItem (some (.object members)) (.lit name) = some (intItem n)) :
    HasInt members name n :=
  ⟨hn, _, cJSONGetObjectItem_eq_some_iff.mp h, rfl⟩

theorem hasCount_intItem (hn : IsCount t n)
    (h : cJSONGetObjectItem (some (.object members)) (.lit name) = some (intItem n)) :
    HasCount t members name n :=
  ⟨hn, _, cJSONGetObjectItem_eq_some_iff.mp h, rfl⟩

theorem fits_intItem {levels : Nat} (hn : IsInt n) : Fits levels (intItem n) := by
  refine .number (Binary64.representable_intCast (abs_le.mpr ?_))
  obtain ⟨hmin, hmax⟩ := hn
  simp only [INT_MIN, INT_MAX] at hmin hmax
  omega

theorem fits_recordMembers (levels : Nat) {inner : List (CString × CJSON)}
    (h : ∀ m ∈ inner, Fits levels (Prod.snd m)) :
    Fits (levels + 2) (.object [(.lit "success", .true), (.lit name, .object inner)]) := by
  refine .object fun m hm => ?_
  rcases List.mem_pair.mp hm with rfl | rfl
  · exact .true
  · exact .object h

end

/-- Two peers. -/
def samplePeers : ArkPeerArray where
  length := 2
  data := [{ ip := some (.lit "5.39.9.240"), port := 4001, status := .ETIMEOUT }, {}]

/-- An answer that reports them: the second by an object without members. -/
def samplePeersMembers : List (CString × CJSON) :=
  [(.lit "peers", .array
    [.object [(.lit "status", .string (.lit "ETIMEOUT")), (.lit "PORT", intItem 4001),
      (.lit "hops", intItem 3), (.lit "ip", .string (.lit "5.39.9.240"))], .object []]),
    (.lit "success", .true)]

theorem fits_samplePeersMembers (levels : Nat) :
    Fits (levels + 3) (.object samplePeersMembers) := by
  refine .object fun m hm => ?_
  rcases List.mem_pair.mp hm with rfl | rfl
  -- the list of the two peers
  · refine .array fun v hv => ?_
    rcases List.mem_pair.mp hv with rfl | rfl
    · refine .object ?_
      simp only [List.forall_mem_cons]
      exact ⟨.string, fits_intItem (by decide), fits_intItem (by decide), .string,
        List.forall_mem_nil _⟩
    · exact .object (List.forall_mem_nil _)
  · exact .true

/-- An object without members reports the record of zeros. -/
theorem reportsPeer_nil : ReportsPeer [] {} where
  ip := .inr ⟨List.forall_mem_nil _, rfl⟩
  port := .inr ⟨List.forall_mem_nil _, rfl⟩
  version := .inr ⟨List.forall_mem_nil _, rfl⟩
  os := .inr ⟨List.forall_mem_nil _, rfl⟩
  height := .inr ⟨List.forall_mem_nil _, rfl⟩
  status := .inr ⟨List.forall_mem_nil _, rfl⟩
  delay := .inr ⟨List.forall_mem_nil _, rfl⟩

theorem reports_samplePeers :
    ReportsArray .linux64 .peer ReportsPeer samplePeersMembers "peers" samplePeers where
  items := by
    refine ⟨_, cJSONGetObjectItem_eq_some_iff.mp rfl, .cons ⟨_, rfl, ?_⟩
      (.cons ⟨[], rfl, reportsPeer_nil⟩ .nil)⟩
    exact {
      ip := .inl (cJSONGetObjectItem_eq_some_iff.mp rfl)
      port := .inl (hasInt_intItem (by decide) rfl)
      version := .inr ⟨by decide, rfl⟩
      os := .inr ⟨by decide, rfl⟩
      height := .inr ⟨by decide, rfl⟩
      status := .inl (cJSONGetObjectItem_eq_some_iff.mp rfl)
      delay := .inr ⟨by decide, rfl⟩ }
  length := rfl
  length_le := by decide
  inBlock := (inBlock_iff _ _ _).mpr (by decide)
  malloc := by decide

theorem Endpoint.run_of_serves_samplePeers :
    (Endpoint.peers none 0).run .linux64 (arkApiGet .linux64 ∘
        fun _ => .ofBytes (render true 0 (.object samplePeersMembers))) = .ok samplePeers :=
  run_of_serves (serves_ofBytes true samplePeersMembers (fits_samplePeersMembers 997) rfl
    (cJSONGetObjectItem_eq_some_iff.mp rfl) reports_samplePeers (by decide +kernel) rfl)

namespace Endpoint

/-- Without an answer a function returns its null value. -/
theorem run_of_unanswered (h : (answer e.url).Unanswered t) :
    e.run t (arkApiGet t ∘ answer) = .ok e.null := by
  obtain ⟨q, hq, hfails, hholds⟩ := arkApiGet_spec h.sound
  have hrun : e.run t (arkApiGet t ∘ answer) = e.run t fun _ => .ok q := run_congr t e hq
  rw [hrun]
  by_cases hfailed : (answer e.url).Fails
  -- without memory or a handle the response has no data
  · exact run_of_root_none (hfails hfailed)
  · -- what arrived, perhaps nothing, is looked at
    have hunsuccessful := h.unanswered.resolve_left hfailed
    rw [run_of_holds (hholds hfailed)]
    refine run_of_not_decodes fun hdecodes => hunsuccessful ⟨fun hzero => ?_, hdecodes.1⟩
    have hnil : (answer e.url).body = [] := List.length_eq_zero_iff.mp hzero
    exact hdecodes.1 (by rw [hnil, root_complete_nil]; rfl)

end Endpoint

/-! ## The environment -/

section

variable {rand : Nat → Nat} {answer : Nat → CString → Transfer}
  {networkType : ARKNETWORKTYPE} {s : CoreState}

/-- The nodes of a call: those that are asked before the attempt give no answer, the seed of
    that attempt serves the network and the details of a peer, and that peer its fees and its
    list of peers. -/
structure Nodes (t : Target) (rand : Nat → Nat) (answer : Nat → CString → Transfer)
    (networkType : ARKNETWORKTYPE) (s : CoreState) where
  attempt : Nat
  network : ArkNetwork
  peer : ArkPeer
  fee : ArkFee
  tuple : ArkPeerArray
  attempt_lt : attempt < 5
  unanswered : ∀ k < attempt,
    let seedPeer := seed (.ofNodes t rand answer) networkType s k
    let url := (Endpoint.networkAutoconfigure seedPeer.ip seedPeer.port).url
    (answer (s.clock + k) url).Unanswered t
  serves_network :
    let seedPeer := seed (.ofNodes t rand answer) networkType s attempt
    Serves t (answer (s.clock + attempt)) (.networkAutoconfigure seedPeer.ip seedPeer.port) network
  serves_peer :
    let seedPeer := seed (.ofNodes t rand answer) networkType s attempt
    Serves t (answer (s.clock + attempt + 1)) (.peersGet seedPeer seedPeer.ip seedPeer.port) peer
  serves_fee : Serves t (answer (s.clock + attempt + 2)) (.feesGet peer.ip peer.port) fee
  serves_peers : Serves t (answer (s.clock + attempt + 3)) (.peers peer.ip peer.port) tuple
  network_not_null : arkHelpersIsNetworkNull network ≠ 1
  peer_not_null : arkHelpersIsPeerNull peer ≠ 1
  fee_not_null : arkHelpersIsFeeNull fee ≠ 1

namespace Nodes

variable (nodes : Nodes t rand answer networkType s)

/-- The attempts before are rejected, and the one that is served is the first. -/
theorem configured :
    retry (configuration (.ofNodes t rand answer) networkType s) Configured 5 0 =
      .ok (some (nodes.attempt, nodes.network)) := by
  refine retry_eq_some_iff.mpr ⟨Nat.zero_le _, by simpa using nodes.attempt_lt, ?_, ?_,
    nodes.network_not_null⟩
  · intro k _ hk
    -- the null value of this function is a null network
    exact ⟨{}, Endpoint.run_of_unanswered (nodes.unanswered k hk), not_not.mpr rfl⟩
  · exact Endpoint.run_of_serves nodes.serves_network

/-- The answers the call gets. -/
def answered : PeersAnswered (.ofNodes t rand answer) networkType s where
  attempt := nodes.attempt
  network := nodes.network
  peer := nodes.peer
  configured := nodes.configured
  details := Endpoint.run_of_serves nodes.serves_peer
  fee := nodes.fee
  peer_not_null := nodes.peer_not_null
  fees := Endpoint.run_of_serves nodes.serves_fee
  tuple := nodes.tuple
  fee_not_null := nodes.fee_not_null
  peers := Endpoint.run_of_serves nodes.serves_peers

end Nodes

/-- The environment over a network of nodes: a call returns one, with the network and the fees
    that the nodes sent and the last of the listed peers that is higher than the first. -/
theorem arkCoreSetEnvrionment_of_nodes (nodes : Nodes t rand answer networkType s) :
    ∃ s', arkCoreSetEnvrionment (.ofNodes t rand answer) networkType s = .ok (1, s') ∧
      s'.globals =
        { networkType := networkType
          network := nodes.network
          selectedPeer := lastHigherPeer nodes.peer nodes.tuple.data
          selectedPeerFee := nodes.fee } ∧
      s'.clock = s.clock + nodes.attempt + 4 := by
  refine ⟨_, arkCoreSetEnvrionment_eq_ok_iff.mpr (.done nodes.answered), rfl, ?_⟩
  -- one request an attempt, and the three behind them
  simp only [CoreState.clock, PeersAnswered.state, FeesAnswered.state, DetailsAnswered.state,
    Nodes.answered, List.length_append, autoconfigureRequests_length, List.length_singleton]
  omega

end

/-- The answers of the nodes. -/
def networkMembers : List (CString × CJSON) :=
  [(.lit "success", .true), (.lit "network", .object [(.lit "nethash", .null),
    (.lit "token", .string (.lit "ARK")), (.lit "symbol", .null), (.lit "explorer", .null),
    (.lit "version", intItem 23)])]

def peerMembers : List (CString × CJSON) :=
  [(.lit "success", .true), (.lit "peer", .object [(.lit "height", intItem 7)])]

def feeMembers : List (CString × CJSON) :=
  [(.lit "success", .true), (.lit "fees", .object [(.lit "send", intItem 10000000),
    (.lit "vote", intItem 100000000), (.lit "secondsignature", intItem 0),
    (.lit "delegate", intItem 0), (.lit "multisignature", intItem 0)])]

/-- The first two seeds give no answer, the others print what they know: the next seed its
    network and its details, and the peer it reports its fees and two peers of its own. -/
def sampleAnswer (clock : Nat) (_url : CString) : Transfer :=
  match clock with
  -- the connection is refused
  | 0 => { Transfer.ofBytes [] with chunks := [] }
  | 1 => .ofBytes (ascii "\x7b\"success\":false\x7d")
  | 2 => .ofBytes (render false 0 (.object networkMembers))
  | 3 => .ofBytes (render false 0 (.object peerMembers))
  | 4 => .ofBytes (render false 0 (.object feeMembers))
  | _ => .ofBytes (render false 0 (.object samplePeersMembers))

def sampleNodes : Nodes .linux64 id sampleAnswer .MAIN {} where
  attempt := 2
  network := { token := some (.lit "ARK"), version := 23 }
  peer := { height := 7 }
  fee := { send := 10000000, vote := 100000000 }
  tuple := samplePeers
  attempt_lt := by decide
  unanswered := by
    intro k hk
    have hcases : k = 0 ∨ k = 1 := by omega
    have hnone : (Transfer.ofBytes []).Sound .linux64 := Transfer.sound_ofBytes (by decide)
    rcases hcases with rfl | rfl
    · exact ⟨⟨fun _ h => absurd h List.not_mem_nil, hnone.realloc_room⟩,
        .inr fun h => h.size_ne rfl⟩
    · exact ⟨Transfer.sound_ofBytes (by decide), .inr (by decide +kernel)⟩
  serves_network := by
    refine serves_ofBytes false networkMembers (fits_recordMembers 998 ?_) rfl
      (cJSONGetObjectItem_eq_some_iff.mp rfl)
      ⟨_, cJSONGetObjectItem_eq_some_iff.mp rfl, _, rfl, ?_⟩ (by decide +kernel) rfl
    · simp only [List.forall_mem_cons]
      exact ⟨.null, .string, .null, .null, fits_intItem (by decide), List.forall_mem_nil _⟩
    · exact {
        netHash := cJSONGetObjectItem_eq_some_iff.mp rfl
        token := cJSONGetObjectItem_eq_some_iff.mp rfl
        symbol := cJSONGetObjectItem_eq_some_iff.mp rfl
        explorer := cJSONGetObjectItem_eq_some_iff.mp rfl
        version := hasInt_intItem (by decide) rfl }
  serves_peer := by
    refine serves_ofBytes false peerMembers (fits_recordMembers 998 ?_) rfl
      (cJSONGetObjectItem_eq_some_iff.mp rfl)
      ⟨_, cJSONGetObjectItem_eq_some_iff.mp rfl, _, rfl, ?_⟩ (by decide +kernel) rfl
    · exact List.forall_mem_singleton.mpr (fits_intItem (by decide))
    · exact {
        ip := .inr ⟨by decide, rfl⟩
        port := .inr ⟨by decide, rfl⟩
        version := .inr ⟨by decide, rfl⟩
        os := .inr ⟨by decide, rfl⟩
        height := .inl (hasInt_intItem (by decide) rfl)
        status := .inr ⟨by decide, rfl⟩
        delay := .inr ⟨by decide, rfl⟩ }
  serves_fee := by
    refine serves_ofBytes false feeMembers (fits_recordMembers 998 ?_) rfl
      (cJSONGetObjectItem_eq_some_iff.mp rfl)
      ⟨_, cJSONGetObjectItem_eq_some_iff.mp rfl, _, rfl, ?_⟩ (by decide +kernel) rfl
    · simp only [List.forall_mem_cons]
      exact ⟨fits_intItem (by decide), fits_intItem (by decide), fits_intItem (by decide),
        fits_intItem (by decide), fits_intItem (by decide), List.forall_mem_nil _⟩
    · exact {
        send := hasCount_intItem (by decide) rfl
        vote := hasCount_intItem (by decide) rfl
        secondSignature := hasCount_intItem (by decide) rfl
        delegate := hasCount_intItem (by decide) rfl
        multiSignature := hasCount_intItem (by decide) rfl }
  serves_peers :=
    serves_ofBytes false samplePeersMembers (fits_samplePeersMembers 997) rfl
      (cJSONGetObjectItem_eq_some_iff.mp rfl) reports_samplePeers (by decide +kernel) rfl
  network_not_null := by decide
  peer_not_null := by decide
  fee_not_null := by decide

theorem arkCoreSetEnvrionment_of_nodes_sample :
    ∃ s', arkCoreSetEnvrionment (.ofNodes .linux64 id sampleAnswer) .MAIN {} = .ok (1, s') ∧
      s'.globals =
        { networkType := .MAIN
          network := sampleNodes.network
          selectedPeer := lastHigherPeer sampleNodes.peer sampleNodes.tuple.data
          selectedPeerFee := sampleNodes.fee } ∧
      s'.clock = CoreState.clock {} + sampleNodes.attempt + 4 :=
  arkCoreSetEnvrionment_of_nodes sampleNodes

end ArkInC.Native
