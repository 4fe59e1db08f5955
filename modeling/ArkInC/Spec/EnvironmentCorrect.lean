import ArkInC.ForStd.Run
import ArkInC.Spec.Environment
import ArkInC.Spec.TransferCorrect

/-!
# What a call of `ark_core_setEnvrionment` establishes

Each property is read off the four ways in which a call can end. The function publishes
the right configuration; but it stores the fees of the peer it is about to replace,
tests of that peer only that some field of it is set, and overwrites the globals before
it knows that it succeeds.

## Key results

- `arkCoreSetEnvrionment_ofAnswers`: when the call succeeds, and what it asked
- `arkCoreSetEnvrionment_fee_iff`: when the stored fees are those of the selected peer
- `arkCoreSetEnvrionment_usable_iff`: when a successful call leaves a usable environment
- `run_keepsEnvironment_iff`: when the globals describe one environment throughout a run
-/

namespace ArkInC.Native

/-! ## Success -/

section

variable (a : Answers) (networkType : ARKNETWORKTYPE) (s : CoreState) (i : Nat)

/-- The answer to attempt `i`. -/
def Answers.configuration : ArkNetwork :=
  let randomPeer := seed (.ofAnswers a) networkType s i
  a.autoconfigure (s.clock + i) randomPeer.ip randomPeer.port

/-- What the seed of attempt `i` says about itself. -/
def Answers.details : ArkPeer :=
  let randomPeer := seed (.ofAnswers a) networkType s i
  a.peersGet (s.clock + i + 1) randomPeer randomPeer.ip randomPeer.port

/-- The fees of the peer the seed of attempt `i` says it is. -/
def Answers.fees : ArkFee :=
  let peer := a.details networkType s i
  a.feesGet (s.clock + i + 2) peer.ip peer.port

/-- The requests of a call that succeeds at attempt `i`: those of the attempts, then one
    to the same seed and two to the peer it says it is. -/
def Answers.requests : List Request :=
  let randomPeer := seed (.ofAnswers a) networkType s i
  let peer := a.details networkType s i
  autoconfigureRequests (.ofAnswers a) networkType s (i + 1) ++
    [.peersGet randomPeer randomPeer.ip randomPeer.port, .feesGet peer.ip peer.port,
      .peers peer.ip peer.port]

/-- Attempt `i` is the first of five with a configuration, and its seed and the peer
    behind it answer the further requests. -/
structure SetsUp : Prop where
  first : IsLeast {k | k < 5 ∧ arkHelpersIsNetworkNull (a.configuration networkType s k) ≠ 1} i
  details : arkHelpersIsPeerNull (a.details networkType s i) ≠ 1
  fees : arkHelpersIsFeeNull (a.fees networkType s i) ≠ 1

end

/-- A call of `ark_core_setEnvrionment` returns one exactly if an attempt sets it up; then
    it publishes the configuration of that attempt, and if all five attempts fail it
    sends nothing else and returns zero. -/
theorem arkCoreSetEnvrionment_ofAnswers (a : Answers) (networkType : ARKNETWORKTYPE)
    (s : CoreState) :
    ∃ ret s', arkCoreSetEnvrionment (.ofAnswers a) networkType s = .ok (ret, s') ∧
      (ret = 0 ∨ ret = 1) ∧
      (ret = 1 ↔ ∃ i, SetsUp a networkType s i) ∧
      (∀ i, SetsUp a networkType s i →
        s'.globals.network = a.configuration networkType s i ∧
        s'.requests = s.requests ++ a.requests networkType s i) ∧
      ((∀ k < 5, arkHelpersIsNetworkNull (a.configuration networkType s k) = 1) →
        ret = 0 ∧ s'.requests = s.requests ++
          autoconfigureRequests (.ofAnswers a) networkType s 5) := by
  -- either no attempt is accepted, or there is a first one that is
  rcases retry_ok_cases Fault (a.configuration networkType s) Configured 5 with
    hnone | ⟨i, hfirst, hretry⟩
  · have hno : ¬ ∃ i, SetsUp a networkType s i := fun ⟨i, hi⟩ => hnone i hi.first.1.1 hi.first.1.2
    refine ⟨0, _, arkCoreSetEnvrionment_eq_ok_iff.mpr (.noNetwork (retry_ok_eq_none_iff.mpr hnone)),
      .inl rfl, iff_of_false zero_ne_one hno, fun i hi => absurd ⟨i, hi⟩ hno, fun _ => ⟨rfl, rfl⟩⟩
  · -- only attempt `i` can set the environment up, and not all five fail
    have hunique : ∀ j, SetsUp a networkType s j → j = i := fun j hj => hj.first.unique hfirst
    have hsome : ¬ ∀ k < 5, arkHelpersIsNetworkNull (a.configuration networkType s k) = 1 :=
      fun h => hfirst.1.2 (h i hfirst.1.1)
    let details : DetailsAnswered (.ofAnswers a) networkType s := ⟨i, _, _, hretry, rfl⟩
    by_cases hpeer : arkHelpersIsPeerNull (a.details networkType s i) = 1
    · have hno : ¬ ∃ j, SetsUp a networkType s j := fun ⟨j, hj⟩ =>
        hj.details (hunique j hj ▸ hpeer)
      exact ⟨0, _, arkCoreSetEnvrionment_eq_ok_iff.mpr (.nullPeer details hpeer), .inl rfl,
        iff_of_false zero_ne_one hno, fun j hj => absurd ⟨j, hj⟩ hno, fun h => absurd h hsome⟩
    let fees : FeesAnswered (.ofAnswers a) networkType s := ⟨details, _, hpeer, rfl⟩
    by_cases hfee : arkHelpersIsFeeNull (a.fees networkType s i) = 1
    · have hno : ¬ ∃ j, SetsUp a networkType s j := fun ⟨j, hj⟩ =>
        hj.fees (hunique j hj ▸ hfee)
      exact ⟨0, _, arkCoreSetEnvrionment_eq_ok_iff.mpr (.nullFee fees hfee), .inl rfl,
        iff_of_false zero_ne_one hno, fun j hj => absurd ⟨j, hj⟩ hno, fun h => absurd h hsome⟩
    let peers : PeersAnswered (.ofAnswers a) networkType s := ⟨fees, _, hfee, rfl⟩
    refine ⟨1, _, arkCoreSetEnvrionment_eq_ok_iff.mpr (.done peers), .inr rfl,
      iff_of_true rfl ⟨i, hfirst, hpeer, hfee⟩, fun j hj => ?_, fun h => absurd h hsome⟩
    -- the attempt that sets it up is the accepted one, so these are its answers
    obtain rfl := hunique j hj
    refine ⟨rfl, ?_⟩
    simp only [peers, fees, details, PeersAnswered.state, FeesAnswered.state,
      DetailsAnswered.state, Answers.requests, List.append_assoc, List.singleton_append]
    rfl

/-! ## The stored fees -/

/-- The nodes of `w`, with the fees `F` at every address. -/
def World.withFees (w : World) (F : Option CString → Int → ArkFee) : World :=
  { w with feesGet := fun _ ip port => .ok (F ip port) }

/-- A call that returns one got all its answers. -/
theorem arkCoreSetEnvrionment_eq_one_iff {w : World} {networkType : ARKNETWORKTYPE}
    {s s' : CoreState} :
    arkCoreSetEnvrionment w networkType s = .ok (1, s') ↔
      ∃ a : PeersAnswered w networkType s, s' = a.state := by
  rw [arkCoreSetEnvrionment_eq_ok_iff]
  constructor
  · intro h
    cases h with
    | done a => exact ⟨a, rfl⟩
  · intro h
    obtain ⟨a, rfl⟩ := h
    exact .done a

/-- The stored fees are those of the selected peer exactly when no listed peer replaced
    the one that was asked, or the last one that did has the same fees. -/
theorem arkCoreSetEnvrionment_fee_iff (w : World) (F : Option CString → Int → ArkFee)
    (networkType : ARKNETWORKTYPE) (s : CoreState) :
    (∀ s', arkCoreSetEnvrionment (w.withFees F) networkType s = .ok (1, s') →
      s'.globals.selectedPeerFee = F s'.globals.selectedPeer.ip s'.globals.selectedPeer.port) ↔
    ∀ a : PeersAnswered (w.withFees F) networkType s,
      ∀ last ∈ (higherPeers a.peer a.tuple.data).getLast?,
        F last.ip last.port = F a.peer.ip a.peer.port := by
  -- the selected peer is the last higher one, or the one that was asked
  have hselected : ∀ a : PeersAnswered (w.withFees F) networkType s,
      F a.peer.ip a.peer.port =
          F a.state.globals.selectedPeer.ip a.state.globals.selectedPeer.port ↔
        ∀ last ∈ (higherPeers a.peer a.tuple.data).getLast?,
          F last.ip last.port = F a.peer.ip a.peer.port := by
    intro a
    refine (List.lastAbove_iff
      (P := fun x : ArkPeer => F a.peer.ip a.peer.port = F x.ip x.port)).trans ?_
    simp only [implies_true, true_and, eq_comm]
  simp only [arkCoreSetEnvrionment_eq_one_iff]
  constructor
  · intro h a
    exact (hselected a).mp ((Except.ok.inj a.fees).trans (h a.state ⟨a, rfl⟩))
  · rintro h _ ⟨a, rfl⟩
    exact (Except.ok.inj a.fees).symm.trans ((hselected a).mpr (h a))

/-- Nodes of which the first lists a higher peer, at another address. -/
def higherElsewhere : Answers where
  autoconfigure _ _ _ := { netHash := some (.lit "6e84d08bd299ed97c212c886c98a57e36545c8f5") }
  peersGet _ _ _ _ := { ip := some (.lit "5.39.9.240"), port := 4001 }
  peers _ _ _ :=
    { length := 1, data := [{ ip := some (.lit "5.39.9.241"), port := 4001, height := 1 }] }

/-- With different fees at that address, the stored fees are not those of the selected
    peer. -/
theorem not_arkCoreSetEnvrionment_fee :
    ¬ ∀ (w : World) (F : Option CString → Int → ArkFee) (networkType : ARKNETWORKTYPE)
      (s s' : CoreState), arkCoreSetEnvrionment (w.withFees F) networkType s = .ok (1, s') →
      s'.globals.selectedPeerFee = F s'.globals.selectedPeer.ip s'.globals.selectedPeer.port := by
  intro h
  let F : Option CString → Int → ArkFee := fun ip _ =>
    { send := if ip = some (.lit "5.39.9.240") then 10000000 else 20000000 }
  -- the first seed answers, and the higher peer it lists is selected
  let a : PeersAnswered ((World.ofAnswers higherElsewhere).withFees F) .DEVELOPMENT {} :=
    ⟨⟨⟨0, _, _, retry_of_accept rfl (by decide), rfl⟩, _, by decide, rfl⟩, _, by decide, rfl⟩
  have hstored := h _ F .DEVELOPMENT {} a.state (arkCoreSetEnvrionment_eq_one_iff.mpr ⟨a, rfl⟩)
  exact absurd hstored (by decide)

/-! ## The usable environment -/

/-- The peer has an address. -/
structure Addressable (peer : ArkPeer) : Prop where
  ip_ne : peer.ip ≠ none
  port_pos : 0 < peer.port

/-- The selected peer has an address and the network has its hash. -/
structure Usable (globals : Globals) : Prop where
  addressable : Addressable globals.selectedPeer
  netHash_ne : globals.network.netHash ≠ none

/-- The environment is usable exactly when the configuration has a hash and the last
    listed peer that replaced the one that was asked has an address, or that one if none
    did. -/
theorem arkCoreSetEnvrionment_usable_iff (w : World) (networkType : ARKNETWORKTYPE)
    (s : CoreState) :
    (∀ s', arkCoreSetEnvrionment w networkType s = .ok (1, s') → Usable s'.globals) ↔
    ∀ a : PeersAnswered w networkType s, a.network.netHash ≠ none ∧
      (higherPeers a.peer a.tuple.data = [] → Addressable a.peer) ∧
      ∀ last ∈ (higherPeers a.peer a.tuple.data).getLast?, Addressable last := by
  have hselected : ∀ a : PeersAnswered w networkType s,
      Addressable a.state.globals.selectedPeer ↔
        (higherPeers a.peer a.tuple.data = [] → Addressable a.peer) ∧
          ∀ last ∈ (higherPeers a.peer a.tuple.data).getLast?, Addressable last :=
    fun _ => List.lastAbove_iff
  simp only [arkCoreSetEnvrionment_eq_one_iff]
  constructor
  · intro h a
    have husable := h a.state ⟨a, rfl⟩
    exact ⟨husable.netHash_ne, (hselected a).mp husable.addressable⟩
  · rintro h _ ⟨a, rfl⟩
    exact ⟨(hselected a).mpr (h a).2, (h a).1⟩

/-- Nodes that answer the requests one after another with the given bodies. -/
def World.ofBodies (bodies : List String) : World :=
  .ofNodes .linux64 (fun clock => clock) fun clock _ => .ofBytes (ascii (bodies.getD clock ""))

/-- A configuration, the details of a peer, its fees and an empty list of peers. -/
def sampleBodies (peer : String) : List String :=
  ["\x7b\"success\":true,\"network\":\x7b\"nethash\":\"n\",\"token\":\"t\",\"symbol\":\"s\"," ++
      "\"explorer\":\"e\",\"version\":1\x7d\x7d",
    "\x7b\"success\":true,\"peer\":" ++ peer ++ "\x7d",
    "\x7b\"success\":true,\"fees\":\x7b\"send\":1,\"vote\":1,\"secondsignature\":1," ++
      "\"delegate\":1,\"multisignature\":1\x7d\x7d",
    "\x7b\"success\":true,\"peers\":[]\x7d"]

/-- A peer that only reports its height is selected, without an address. -/
theorem not_arkCoreSetEnvrionment_usable :
    ¬ ∀ (w : World) (networkType : ARKNETWORKTYPE) (s s' : CoreState),
      arkCoreSetEnvrionment w networkType s = .ok (1, s') → Usable s'.globals := by
  intro h
  have hrun : (match arkCoreSetEnvrionment (.ofBodies (sampleBodies "\x7b\"height\":1\x7d"))
      .DEVELOPMENT {} with
    | .ok (ret, s') => decide (ret = 1 ∧ s'.globals.selectedPeer.ip = none)
    | .error _ => false) = true := by decide +kernel
  split at hrun
  · next ret s' hok =>
    obtain ⟨rfl, hip⟩ := of_decide_eq_true hrun
    exact (h _ _ _ _ hok).addressable.ip_ne hip
  · exact nomatch hrun

/-! ## Failed calls -/

/-- A call, and what it returned. -/
structure Call where
  world : World
  networkType : ARKNETWORKTYPE
  returned : Int

/-- One call of `ark_core_setEnvrionment` in a sequence of them. -/
def CallStep (s : CoreState) (call : Call) (s' : CoreState) : Prop :=
  arkCoreSetEnvrionment call.world call.networkType s = .ok (call.returned, s')

/-- The globals are those a successful call from `s` leaves: its network type, and the
    answers it got. -/
def Establishes (call : Call) (s : CoreState) (globals : Globals) : Prop :=
  ∃ a : PeersAnswered call.world call.networkType s,
    globals =
      { networkType := call.networkType
        network := a.network
        selectedPeer := lastHigherPeer a.peer a.tuple.data
        selectedPeerFee := a.fee }

/-- In a run, every call that returns zero leaves the globals alone, and at its end they
    are the initial ones or those a successful call left. -/
structure KeepsEnvironment (s : CoreState) (steps : List (CoreState × Call × CoreState))
    (s' : CoreState) : Prop where
  failed : ∀ pre call post, (pre, call, post) ∈ steps → call.returned = 0 →
    post.globals = pre.globals
  current : s'.globals = s.globals ∨
    ∃ pre call post, (pre, call, post) ∈ steps ∧ call.returned = 1 ∧
      Establishes call pre s'.globals

/-- A call that fails overwrites the globals with what they hold already: it fails with no
    configuration and the same network type, or with a null peer or null fees and the
    same answers up to there. -/
structure KeepsOnFailure (w : World) (networkType : ARKNETWORKTYPE) (s : CoreState) : Prop where
  noNetwork : retry (configuration w networkType s) Configured 5 0 = .ok none →
    s.globals.networkType = networkType
  nullPeer : ∀ a : DetailsAnswered w networkType s, arkHelpersIsPeerNull a.peer = 1 →
    s.globals.networkType = networkType ∧ s.globals.network = a.network ∧
      s.globals.selectedPeer = a.peer
  nullFee : ∀ a : FeesAnswered w networkType s, arkHelpersIsFeeNull a.fee = 1 →
    s.globals.networkType = networkType ∧ s.globals.network = a.network ∧
      s.globals.selectedPeer = a.peer ∧ s.globals.selectedPeerFee = a.fee

/-- The step: a failing call leaves the globals alone exactly in these cases. -/
theorem keepsOnFailure_iff {w : World} {networkType : ARKNETWORKTYPE} {s : CoreState} :
    KeepsOnFailure w networkType s ↔
      ∀ s', arkCoreSetEnvrionment w networkType s = .ok (0, s') → s'.globals = s.globals := by
  -- for each exit, when the globals it leaves are those before the call
  have hattempted : (attempted w networkType s 5).globals = s.globals ↔
      s.globals.networkType = networkType := by
    simp [Globals.ext_iff, attempted, eq_comm]
  have hdetails : ∀ a : DetailsAnswered w networkType s, a.state.globals = s.globals ↔
      s.globals.networkType = networkType ∧ s.globals.network = a.network ∧
        s.globals.selectedPeer = a.peer := by
    intro a
    simp [Globals.ext_iff, DetailsAnswered.state, eq_comm]
  have hfees : ∀ a : FeesAnswered w networkType s, a.state.globals = s.globals ↔
      s.globals.networkType = networkType ∧ s.globals.network = a.network ∧
        s.globals.selectedPeer = a.peer ∧ s.globals.selectedPeerFee = a.fee := by
    intro a
    simp [Globals.ext_iff, FeesAnswered.state, DetailsAnswered.state, eq_comm]
  simp only [arkCoreSetEnvrionment_eq_ok_iff]
  constructor
  · intro hkeeps s' h
    cases h with
    | noNetwork h => exact hattempted.mpr (hkeeps.noNetwork h)
    | nullPeer a h => exact (hdetails a).mpr (hkeeps.nullPeer a h)
    | nullFee a h => exact (hfees a).mpr (hkeeps.nullFee a h)
  · intro h
    exact {
      noNetwork := fun hnone => hattempted.mp (h _ (.noNetwork hnone))
      nullPeer := fun a hnull => (hdetails a).mp (h _ (.nullPeer a hnull))
      nullFee := fun a hnull => (hfees a).mp (h _ (.nullFee a hnull)) }

/-- A call that does not return zero returns one, and leaves the environment it set up. -/
theorem establishes_of_callStep {s s' : CoreState} {call : Call} (hstep : CallStep s call s')
    (hreturned : call.returned ≠ 0) : call.returned = 1 ∧ Establishes call s s'.globals := by
  have houtcome := arkCoreSetEnvrionment_eq_ok_iff.mp hstep
  -- three of the four outcomes return zero
  generalize call.returned = ret at houtcome hreturned
  cases houtcome with
  | noNetwork _ => exact absurd rfl hreturned
  | nullPeer _ _ => exact absurd rfl hreturned
  | nullFee _ _ => exact absurd rfl hreturned
  | done a => exact ⟨rfl, a, rfl⟩

/-- The run: the globals describe one environment throughout exactly when every call that
    fails keeps what they hold. -/
theorem run_keepsEnvironment_iff {s s' : CoreState} {steps : List (CoreState × Call × CoreState)}
    (hrun : Run CallStep s steps s') :
    KeepsEnvironment s steps s' ↔
      ∀ pre call post, (pre, call, post) ∈ steps →
        KeepsOnFailure call.world call.networkType pre := by
  constructor
  · intro hkeeps pre call post hmem
    refine keepsOnFailure_iff.mpr fun s₀ hs₀ => ?_
    have hstep := hrun.step_of_mem hmem
    rw [CallStep, hs₀] at hstep
    obtain ⟨hzero, rfl⟩ := Prod.mk.inj (Except.ok.inj hstep)
    exact hkeeps.failed pre call s₀ hmem hzero.symm
  · intro hkeeps
    -- so only successful calls change the globals, and the last of them decides
    have hfailed : ∀ pre call post, (pre, call, post) ∈ steps → call.returned = 0 →
        post.globals = pre.globals := by
      intro pre call post hmem hreturned
      have hstep := hrun.step_of_mem hmem
      rw [CallStep, hreturned] at hstep
      exact keepsOnFailure_iff.mp (hkeeps pre call post hmem) post hstep
    refine ⟨hfailed, ?_⟩
    rcases hrun.eq_or_eq_after CoreState.globals (fun call => call.returned ≠ 0)
      (fun pre call post hmem hzero => hfailed pre call post hmem (not_not.mp hzero)) with
      hinitial | ⟨pre, call, post, hmem, hreturned, hglobals⟩
    · exact .inl hinitial
    · obtain ⟨hone, hestablishes⟩ := establishes_of_callStep (hrun.step_of_mem hmem) hreturned
      exact .inr ⟨pre, call, post, hmem, hone, hglobals ▸ hestablishes⟩

/-- A call that sets the environment up, with a listed peer in place of the first one. -/
def successfulCall : Call where
  world := (World.ofAnswers higherElsewhere).withFees fun _ _ => { send := 10000000 }
  networkType := .MAIN
  returned := 1

/-- A call for the same network that gets no configuration. -/
def failedCall : Call where
  world := .ofAnswers {}
  networkType := .MAIN
  returned := 0

def successfulCallAnswered : PeersAnswered successfulCall.world .MAIN {} :=
  ⟨⟨⟨0, _, _, retry_of_accept rfl (by decide), rfl⟩, _, by decide, rfl⟩, _, by decide, rfl⟩

theorem successfulCall_step : CallStep {} successfulCall successfulCallAnswered.state :=
  arkCoreSetEnvrionment_eq_ok_iff.mpr (.done successfulCallAnswered)

theorem failedCall_step (s : CoreState) :
    CallStep s failedCall (attempted failedCall.world .MAIN s 5) :=
  arkCoreSetEnvrionment_eq_ok_iff.mpr
    (.noNetwork (retry_ok_eq_none_iff.mpr fun _ _ => not_not.mpr rfl))

/-- The second call fails and keeps the environment that the first one set up. -/
theorem run_keepsEnvironment_failedCall :
    let established := successfulCallAnswered.state
    let final := attempted failedCall.world .MAIN established 5
    KeepsEnvironment {}
      [(({} : CoreState), successfulCall, established), (established, failedCall, final)]
      final := by
  intro established final
  have hrun := (Run.single successfulCall_step).snoc (failedCall_step _)
  refine (run_keepsEnvironment_iff hrun).mpr fun pre call post hmem => ?_
  refine keepsOnFailure_iff.mpr fun s' hs' => ?_
  rcases List.mem_pair.mp hmem with hcall | hcall
  · -- the first call does not fail
    cases hcall
    cases hs'.symm.trans successfulCall_step
  · cases hcall
    obtain ⟨-, rfl⟩ := Prod.mk.inj (Except.ok.inj (hs'.symm.trans (failedCall_step _)))
    rfl

/-- A call for the other network that gets a null peer does not: the type and the
    configuration are those of the new network. -/
theorem not_run_keepsEnvironment :
    ¬ ∀ (s s' : CoreState) (steps : List (CoreState × Call × CoreState)),
      Run CallStep s steps s' → KeepsEnvironment s steps s' := by
  intro h
  -- if that held, a failed call would keep the initial network type
  have hkeeps : ∀ w s', arkCoreSetEnvrionment w .MAIN {} = .ok (0, s') →
      s'.globals.networkType = .DEVELOPMENT := by
    intro w s' hok
    have hrun : Run CallStep {} [({}, ⟨w, .MAIN, 0⟩, s')] s' := Run.single hok
    rw [(h _ _ _ hrun).failed _ _ _ List.mem_cons_self rfl]
  have hcall : (match arkCoreSetEnvrionment (.ofBodies (sampleBodies "\x7b\x7d")) .MAIN {} with
    | .ok (ret, s') => decide (ret = 0 ∧ s'.globals.networkType = .MAIN)
    | .error _ => false) = true := by decide +kernel
  split at hcall
  · next ret s' hok =>
    obtain ⟨rfl, htype⟩ := of_decide_eq_true hcall
    rw [hkeeps _ _ hok] at htype
    exact absurd htype (by decide)
  · exact nomatch hcall

end ArkInC.Native
