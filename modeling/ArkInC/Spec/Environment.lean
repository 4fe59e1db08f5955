import ArkInC.ForStd.Retry
import ArkInC.Spec.FilterPeers

/-!
# Setting up the environment

`ark_core_setEnvrionment` asks up to five seeds for the configuration of the network,
asks the seed that gave one about itself, asks the peer it is told about for its fees
and then for the list of peers, and stops at the first null answer. `Outcome` lists the
four ways in which a call that returns can end, with the answers it got and the state
it leaves; every property of the function follows from it by cases.

## Key results

- `seedLoop_eq_retry`: the loop over the seeds is a bounded retry
- `arkCoreSetEnvrionment_eq_ok_iff`: a call returns exactly in the ways of `Outcome`
-/

namespace ArkInC.Native

section

variable (w : World) (networkType : ARKNETWORKTYPE) (s : CoreState)

/-! ## Attempts -/

/-- The seed of an attempt. -/
def seed (i : Nat) : ArkPeer := w.randomPeer (s.clock + i) networkType

/-- The answer to an attempt. -/
def configuration (i : Nat) : Except Fault ArkNetwork :=
  w.autoconfigure (s.clock + i) (seed w networkType s i).ip (seed w networkType s i).port

/-- The requests of the first `n` attempts. -/
def autoconfigureRequests (n : Nat) : List Request :=
  (List.range n).map fun i =>
    .autoconfigure (seed w networkType s i).ip (seed w networkType s i).port

/-- The state after `n` attempts. -/
def attempted (n : Nat) : CoreState :=
  { s with
    globals := { s.globals with networkType := networkType }
    requests := s.requests ++ autoconfigureRequests w networkType s n }

/-- A configuration that is not null. -/
def Configured (network : ArkNetwork) : Prop := arkHelpersIsNetworkNull network ≠ 1

instance : DecidablePred Configured := fun _ => instDecidableNot

variable {w networkType s}

@[simp] theorem autoconfigureRequests_length (n : Nat) :
    (autoconfigureRequests w networkType s n).length = n := by
  simp [autoconfigureRequests]

@[simp] theorem attempted_clock (n : Nat) : (attempted w networkType s n).clock = s.clock + n := by
  simp [attempted, CoreState.clock]

@[simp] theorem attempted_networkType (n : Nat) :
    (attempted w networkType s n).globals.networkType = networkType := rfl

theorem attempted_zero :
    attempted w networkType s 0 =
      { s with globals := { s.globals with networkType := networkType } } := by
  simp [attempted, autoconfigureRequests]

theorem attempted_succ (n : Nat) :
    { attempted w networkType s n with
        requests := (attempted w networkType s n).requests ++
          [.autoconfigure (seed w networkType s n).ip (seed w networkType s n).port] } =
      attempted w networkType s (n + 1) := by
  simp [attempted, autoconfigureRequests, List.range_succ]

theorem arkHelpersIsNetworkNull_of_configured {network : ArkNetwork} (h : Configured network) :
    arkHelpersIsNetworkNull network = 0 := by
  unfold Configured arkHelpersIsNetworkNull at *
  split at h
  · exact absurd rfl h
  · next hnull => rw [if_neg hnull]

/-- What the loop leaves: the flag is cleared exactly when an attempt was accepted, with
    the seed and the answer of that attempt. -/
inductive LoopResult (w : World) (networkType : ARKNETWORKTYPE) (s : CoreState) (n : Nat) :
    Option (Nat × ArkNetwork) → Int × ArkPeer × ArkNetwork × CoreState → Prop where
  | accepted (i : Nat) (network : ArkNetwork) :
    LoopResult w networkType s n (some (i, network))
      (0, seed w networkType s i, network, attempted w networkType s (i + 1))
  | rejected (peer : ArkPeer) (network : ArkNetwork) :
    LoopResult w networkType s n none (1, peer, network, attempted w networkType s n)

/-- One turn of the loop. -/
theorem seedLoop_turn {n i : Nat} {peer : ArkPeer} {network : ArkNetwork} :
    seedLoop w (n + 1) 1 peer network (attempted w networkType s i) =
      configuration w networkType s i >>= fun network =>
        seedLoop w n (arkHelpersIsNetworkNull network) (seed w networkType s i) network
          (attempted w networkType s (i + 1)) := by
  rw [seedLoop, if_pos rfl]
  simp only [CoreState.send, attempted_clock, attempted_networkType, Except.pure_eq]
  -- the request of the turn is the last one of `i + 1` attempts
  rw [← attempted_succ]
  simp only [configuration, seed]
  cases w.autoconfigure (s.clock + i) (w.randomPeer (s.clock + i) networkType).ip
    (w.randomPeer (s.clock + i) networkType).port with
  | error e => rfl
  | ok network => rfl

theorem seedLoop_of_not_fail {n : Nat} {fail : Int} (hfail : fail ≠ 1) {peer : ArkPeer}
    {network : ArkNetwork} :
    seedLoop w n fail peer network s = .ok (fail, peer, network, s) := by
  cases n with
  | zero => rfl
  | succ n => rw [seedLoop, if_neg hfail, Except.pure_eq]

variable (w networkType s) in
/-- The loop over the seeds is a bounded retry. -/
theorem seedLoop_eq_retry (n i : Nat) (peer : ArkPeer) (network : ArkNetwork) :
    match retry (configuration w networkType s) Configured n i with
    | .error e => seedLoop w n 1 peer network (attempted w networkType s i) = .error e
    | .ok result => ∃ x, LoopResult w networkType s (i + n) result x ∧
      seedLoop w n 1 peer network (attempted w networkType s i) = .ok x := by
  -- induction on the attempts that are left
  induction n generalizing i peer network with
  | zero => exact ⟨_, .rejected peer network, rfl⟩
  | succ n ih =>
    rw [seedLoop_turn, retry]
    cases configuration w networkType s i with
    | error e => rfl
    | ok answer =>
      -- an accepted answer clears the flag, a null one leaves it set
      by_cases hconfigured : Configured answer
      · rw [Except.ok_bind, Except.ok_bind, if_pos hconfigured,
          arkHelpersIsNetworkNull_of_configured hconfigured]
        exact ⟨_, .accepted i answer, seedLoop_of_not_fail (by decide)⟩
      · rw [Except.ok_bind, Except.ok_bind, if_neg hconfigured,
          not_not.mp hconfigured, show i + (n + 1) = i + 1 + n by omega]
        exact ih (i + 1) _ _

/-! ## The answers of a call -/

variable (w networkType s)

/-- The answers of a call up to the details of the seed that gave the configuration. -/
structure DetailsAnswered where
  attempt : Nat
  network : ArkNetwork
  peer : ArkPeer
  configured : retry (configuration w networkType s) Configured 5 0 = .ok (some (attempt, network))
  details : w.peersGet (s.clock + attempt + 1) (seed w networkType s attempt)
    (seed w networkType s attempt).ip (seed w networkType s attempt).port = .ok peer

/-- The answers of a call up to the fees. -/
structure FeesAnswered extends DetailsAnswered w networkType s where
  fee : ArkFee
  peer_not_null : arkHelpersIsPeerNull peer ≠ 1
  fees : w.feesGet (s.clock + attempt + 2) peer.ip peer.port = .ok fee

/-- The answers of a call up to the list of peers. -/
structure PeersAnswered extends FeesAnswered w networkType s where
  tuple : ArkPeerArray
  fee_not_null : arkHelpersIsFeeNull fee ≠ 1
  peers : w.peers (s.clock + attempt + 3) peer.ip peer.port = .ok tuple

variable {w networkType s}

/-- The state after the details were stored. -/
def DetailsAnswered.state (a : DetailsAnswered w networkType s) : CoreState where
  globals :=
    { networkType := networkType
      network := a.network
      selectedPeer := a.peer
      selectedPeerFee := s.globals.selectedPeerFee }
  requests := s.requests ++ autoconfigureRequests w networkType s (a.attempt + 1) ++
    [.peersGet (seed w networkType s a.attempt) (seed w networkType s a.attempt).ip
      (seed w networkType s a.attempt).port]
  numOfValidPeers := s.numOfValidPeers

/-- The state after the fees were stored. -/
def FeesAnswered.state (a : FeesAnswered w networkType s) : CoreState :=
  { a.toDetailsAnswered.state with
    globals := { a.toDetailsAnswered.state.globals with selectedPeerFee := a.fee }
    requests := a.toDetailsAnswered.state.requests ++ [.feesGet a.peer.ip a.peer.port] }

/-- The state after the list of peers was filtered. -/
def PeersAnswered.state (a : PeersAnswered w networkType s) : CoreState where
  globals :=
    { a.toFeesAnswered.state.globals with
      selectedPeer := lastHigherPeer a.peer a.tuple.data }
  requests := a.toFeesAnswered.state.requests ++ [.peers a.peer.ip a.peer.port]
  numOfValidPeers := (validPeers a.tuple.data).length

/-- The ways in which a call can return: the value, and the state it leaves. -/
inductive Outcome (w : World) (networkType : ARKNETWORKTYPE) (s : CoreState) :
    Int → CoreState → Prop where
  | noNetwork (h : retry (configuration w networkType s) Configured 5 0 = .ok none) :
    Outcome w networkType s 0 (attempted w networkType s 5)
  | nullPeer (a : DetailsAnswered w networkType s) (h : arkHelpersIsPeerNull a.peer = 1) :
    Outcome w networkType s 0 a.state
  | nullFee (a : FeesAnswered w networkType s) (h : arkHelpersIsFeeNull a.fee = 1) :
    Outcome w networkType s 0 a.state
  | done (a : PeersAnswered w networkType s) : Outcome w networkType s 1 a.state

/-- A call that returns does so in one of the four ways. -/
private theorem outcome_of_arkCoreSetEnvrionment {ret : Int} {s' : CoreState}
    (h : arkCoreSetEnvrionment w networkType s = .ok (ret, s')) :
    Outcome w networkType s ret s' := by
  have hloop := seedLoop_eq_retry w networkType s 5 0 {} {}
  simp only [attempted_zero] at hloop
  simp only [arkCoreSetEnvrionment] at h
  -- first the loop over the seeds: a fault, no configuration, or one
  cases hretry : retry (configuration w networkType s) Configured 5 0 with
  | error e =>
    rw [hretry] at hloop
    rw [hloop, Except.error_bind] at h
    cases h
  | ok result =>
    rw [hretry] at hloop
    obtain ⟨x, hx, hloop⟩ := hloop
    rw [hloop, Except.ok_bind] at h
    cases hx with
    | rejected peer network =>
      cases h
      exact .noNetwork hretry
    | accepted i network =>
      rw [if_neg (zero_ne_one : (0 : Int) ≠ 1)] at h
      -- then the details, the fees and the list, with a test behind each of the first two
      obtain ⟨⟨peer, _⟩, hsent, h⟩ := Except.bind_eq_ok.mp h
      obtain ⟨hpeer, rfl⟩ := CoreState.send_eq_ok.mp hsent
      let details : DetailsAnswered w networkType s :=
        ⟨i, network, peer, hretry, by
          simpa [CoreState.clock, attempted, Nat.add_assoc] using hpeer⟩
      split at h
      · next hnull =>
        -- the peer is null: the state is the one with the details stored
        cases h
        exact .nullPeer details hnull
      next hpeerNull =>
      obtain ⟨⟨fee, _⟩, hsent, h⟩ := Except.bind_eq_ok.mp h
      obtain ⟨hfee, rfl⟩ := CoreState.send_eq_ok.mp hsent
      have hfeesGet : w.feesGet (s.clock + i + 2) peer.ip peer.port = .ok fee := by
        simpa [CoreState.clock, attempted, Nat.add_assoc] using hfee
      let fees : FeesAnswered w networkType s := ⟨details, fee, hpeerNull, hfeesGet⟩
      split at h
      · next hnull =>
        -- the fees are null: they are stored too
        cases h
        exact .nullFee fees hnull
      next hfeeNull =>
      -- from here on the call is one of `ark_core_filterPeers`
      obtain ⟨tuple, htuple⟩ := exists_tuple_of_arkCoreFilterPeers h
      rw [arkCoreFilterPeers_eq htuple] at h
      cases h
      have hpeers : w.peers (s.clock + i + 3) peer.ip peer.port = .ok tuple := by
        simpa [CoreState.clock, attempted, Nat.add_assoc] using htuple
      exact .done ⟨fees, tuple, hfeeNull, hpeers⟩

/-- With the details answered, the call goes on with the test of the peer. -/
private theorem arkCoreSetEnvrionment_of_details (a : DetailsAnswered w networkType s) :
    arkCoreSetEnvrionment w networkType s =
      if arkHelpersIsPeerNull a.peer = 1 then .ok (0, a.state)
      else
        a.state.send (.feesGet a.peer.ip a.peer.port) (w.feesGet · a.peer.ip a.peer.port) >>=
          fun (fee, state) =>
            let state := { state with globals := { state.globals with selectedPeerFee := fee } }
            if arkHelpersIsFeeNull fee = 1 then .ok (0, state) else arkCoreFilterPeers w state := by
  have hloop := seedLoop_eq_retry w networkType s 5 0 {} {}
  rw [a.configured] at hloop
  obtain ⟨x, hx, hloop⟩ := hloop
  -- an attempt was accepted, so the flag is cleared
  cases hx
  have hsent : CoreState.send
      { attempted w networkType s (a.attempt + 1) with
        globals :=
          { (attempted w networkType s (a.attempt + 1)).globals with network := a.network } }
      (.peersGet (seed w networkType s a.attempt) (seed w networkType s a.attempt).ip
        (seed w networkType s a.attempt).port)
      (w.peersGet · (seed w networkType s a.attempt) (seed w networkType s a.attempt).ip
        (seed w networkType s a.attempt).port) = .ok (a.peer, _) :=
    CoreState.send_eq_ok.mpr ⟨by
      simpa [CoreState.clock, attempted, Nat.add_assoc] using a.details, rfl⟩
  simp only [attempted_zero] at hloop
  simp only [arkCoreSetEnvrionment, hloop, Except.ok_bind]
  rw [if_neg (zero_ne_one : (0 : Int) ≠ 1)]
  rw [hsent]
  rfl

/-- With the fees answered, the call goes on with the test of the fees. -/
private theorem arkCoreSetEnvrionment_of_fees (a : FeesAnswered w networkType s) :
    arkCoreSetEnvrionment w networkType s =
      if arkHelpersIsFeeNull a.fee = 1 then .ok (0, a.state) else arkCoreFilterPeers w a.state := by
  have hsent : a.toDetailsAnswered.state.send (.feesGet a.peer.ip a.peer.port)
      (w.feesGet · a.peer.ip a.peer.port) = .ok (a.fee, _) :=
    CoreState.send_eq_ok.mpr ⟨by
      simpa [CoreState.clock, DetailsAnswered.state, Nat.add_assoc] using a.fees, rfl⟩
  rw [arkCoreSetEnvrionment_of_details a.toDetailsAnswered, if_neg a.peer_not_null, hsent,
    Except.ok_bind]
  rfl

/-- Each of the four ways is a call that returns. -/
private theorem arkCoreSetEnvrionment_of_outcome {ret : Int} {s' : CoreState}
    (h : Outcome w networkType s ret s') :
    arkCoreSetEnvrionment w networkType s = .ok (ret, s') := by
  cases h with
  | noNetwork h =>
    have hloop := seedLoop_eq_retry w networkType s 5 0 {} {}
    rw [h] at hloop
    obtain ⟨x, hx, hloop⟩ := hloop
    cases hx
    simp only [attempted_zero] at hloop
    simp only [arkCoreSetEnvrionment, hloop, Except.ok_bind, if_true, Except.pure_eq]
  | nullPeer a h => rw [arkCoreSetEnvrionment_of_details a, if_pos h]
  | nullFee a h => rw [arkCoreSetEnvrionment_of_fees a, if_pos h]
  | done a =>
    -- the list is asked of the peer that is selected by then
    have htuple : w.peers a.toFeesAnswered.state.clock
        a.toFeesAnswered.state.globals.selectedPeer.ip
        a.toFeesAnswered.state.globals.selectedPeer.port = .ok a.tuple := by
      simpa [CoreState.clock, FeesAnswered.state, DetailsAnswered.state, Nat.add_assoc]
        using a.peers
    rw [arkCoreSetEnvrionment_of_fees a.toFeesAnswered, if_neg a.fee_not_null,
      arkCoreFilterPeers_eq htuple]
    rfl

/-- A call returns exactly in the ways of `Outcome`. -/
theorem arkCoreSetEnvrionment_eq_ok_iff {ret : Int} {s' : CoreState} :
    arkCoreSetEnvrionment w networkType s = .ok (ret, s') ↔ Outcome w networkType s ret s' :=
  ⟨outcome_of_arkCoreSetEnvrionment, arkCoreSetEnvrionment_of_outcome⟩

end

end ArkInC.Native
