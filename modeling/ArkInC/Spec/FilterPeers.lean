import ArkInC.ForStd.List
import ArkInC.Native.Core
import ArkInC.Spec.Decoders
import ArkInC.Spec.ReadArray
import ArkInC.Spec.Response

/-!
# The peer the filter selects

`ark_core_filterPeers` compares every valid peer with the height at its start, which it
never raises. So it ends with the last valid peer above that height, not with the
highest one.

## Key results

- `arkCoreFilterPeers_eq`: what the function does to the state
- `arkCoreFilterPeers_greatest_iff`: when it selects a peer of the greatest height
- `arkCoreFilterPeers_reportedOk_iff`: when it counts and selects only peers that were
  reported as `OK`
-/

namespace ArkInC.Native

/-! ## Requests -/

/-- A request that is answered is recorded. -/
theorem CoreState.send_eq_ok {α : Type} {s s' : CoreState} {request : Request}
    {answer : Nat → Except Fault α} {v : α} :
    s.send request answer = .ok (v, s') ↔
      answer s.clock = .ok v ∧ s' = { s with requests := s.requests ++ [request] } := by
  rw [CoreState.send, Except.bind_eq_ok]
  constructor
  · intro h
    obtain ⟨v', hv, h⟩ := h
    cases h
    exact ⟨hv, rfl⟩
  · intro h
    obtain ⟨hv, rfl⟩ := h
    exact ⟨v, hv, rfl⟩

/-! ## The loop -/

/-- The peers of a table the loop counts. -/
def validPeers (peers : List ArkPeer) : List ArkPeer := peers.filter fun peer => peer.status = .OK

theorem validPeers_cons (peer : ArkPeer) (peers : List ArkPeer) :
    validPeers (peer :: peers) =
      if peer.status = .OK then peer :: validPeers peers else validPeers peers := by
  simp [validPeers, List.filter_cons]

theorem mem_validPeers {peer : ArkPeer} {peers : List ArkPeer} :
    peer ∈ validPeers peers ↔ peer ∈ peers ∧ peer.status = .OK := by
  simp [validPeers]

/-- The valid peers above the height of `start`. -/
abbrev higherPeers (start : ArkPeer) (peers : List ArkPeer) : List ArkPeer :=
  (validPeers peers).above ArkPeer.height start

/-- The last valid peer above the height of `start`, or `start`. -/
abbrev lastHigherPeer (start : ArkPeer) (peers : List ArkPeer) : ArkPeer :=
  (validPeers peers).lastAbove ArkPeer.height start

/-- The loop counts the valid peers, and keeps the last one above the threshold. -/
theorem foldl_filterStep (maxheight : Int) (peers : List ArkPeer) (start : ArkPeer) (n : Nat) :
    peers.foldl (filterStep maxheight) (start, n) =
      (((validPeers peers).filter fun peer => maxheight < peer.height).getLastD start,
        n + (validPeers peers).length) := by
  rw [← List.foldl_ite_eq_getLastD]
  induction peers generalizing start n with
  | nil => rfl
  | cons peer peers ih =>
    rw [List.foldl_cons, filterStep]
    -- only a valid peer is counted and compared
    by_cases hvalid : peer.status = .OK
    · rw [if_pos hvalid, ih, validPeers_cons, if_pos hvalid, List.foldl_cons, List.length_cons,
        Nat.add_right_comm, Nat.add_assoc]
    · rw [if_neg hvalid, ih, validPeers_cons, if_neg hvalid]

/-- What `ark_core_filterPeers` does, given the table it is sent. -/
theorem arkCoreFilterPeers_eq {w : World} {s : CoreState} {tuple : ArkPeerArray}
    (hpeers : w.peers s.clock s.globals.selectedPeer.ip s.globals.selectedPeer.port = .ok tuple) :
    arkCoreFilterPeers w s = .ok (1,
      { globals := { s.globals with
          selectedPeer := lastHigherPeer s.globals.selectedPeer tuple.data }
        requests := s.requests ++
          [.peers s.globals.selectedPeer.ip s.globals.selectedPeer.port]
        numOfValidPeers := (validPeers tuple.data).length }) := by
  simp only [arkCoreFilterPeers, CoreState.send, hpeers, Except.ok_bind, Except.pure_eq,
    foldl_filterStep, Nat.zero_add]
  rfl

/-- A call of `ark_core_filterPeers` that returns was sent a table. -/
theorem exists_tuple_of_arkCoreFilterPeers {w : World} {s s' : CoreState} {ret : Int}
    (h : arkCoreFilterPeers w s = .ok (ret, s')) :
    ∃ tuple, w.peers s.clock s.globals.selectedPeer.ip s.globals.selectedPeer.port = .ok tuple := by
  simp only [arkCoreFilterPeers] at h
  obtain ⟨⟨tuple, _⟩, hsent, -⟩ := Except.bind_eq_ok.mp h
  exact ⟨tuple, (CoreState.send_eq_ok.mp hsent).1⟩

/-! ## The greatest height -/

/-- `selected` has the greatest height of `start` and the valid peers, and is one of
    them. -/
structure SelectsGreatest (start : ArkPeer) (peers : List ArkPeer) (selected : ArkPeer) :
    Prop where
  isGreatest : IsGreatest
    (insert start.height {height | ∃ peer ∈ peers, peer.status = .OK ∧ peer.height = height})
    selected.height
  eq_or_mem : selected = start ∨ selected ∈ peers ∧ selected.status = .OK

theorem selectsGreatest_lastHigherPeer_iff {start : ArkPeer} {peers : List ArkPeer} :
    SelectsGreatest start peers (lastHigherPeer start peers) ↔
      ∀ last ∈ (higherPeers start peers).getLast?, ∀ peer ∈ higherPeers start peers,
        peer.height ≤ last.height := by
  have hheights : {height | ∃ peer ∈ peers, peer.status = .OK ∧ peer.height = height} =
      {height | ∃ peer ∈ validPeers peers, peer.height = height} := by
    ext height
    simp only [Set.mem_ofPred_eq, mem_validPeers, and_assoc]
  rw [← List.isGreatest_lastAbove_iff, ← hheights]
  refine ⟨SelectsGreatest.isGreatest, fun h => ⟨h, ?_⟩⟩
  -- the heights decide the rest; the peer is one of the table by construction
  rcases List.lastAbove_eq_or_mem (f := ArkPeer.height) (s := start) (l := validPeers peers) with
    hstart | hmem
  · exact .inl hstart
  · exact .inr (mem_validPeers.mp hmem)

/-- The filter selects a peer of the greatest height exactly when the last valid peer
    above the starting height is the highest of them. -/
theorem arkCoreFilterPeers_greatest_iff (w : World) (s : CoreState) (tuple : ArkPeerArray)
    (hpeers : w.peers s.clock s.globals.selectedPeer.ip s.globals.selectedPeer.port = .ok tuple) :
    (∃ s', arkCoreFilterPeers w s = .ok (1, s') ∧
      SelectsGreatest s.globals.selectedPeer tuple.data s'.globals.selectedPeer) ↔
    ∀ last ∈ (higherPeers s.globals.selectedPeer tuple.data).getLast?,
      ∀ peer ∈ higherPeers s.globals.selectedPeer tuple.data, peer.height ≤ last.height := by
  rw [arkCoreFilterPeers_eq hpeers, ← selectsGreatest_lastHigherPeer_iff]
  constructor
  · intro h
    obtain ⟨s', hs', hselects⟩ := h
    cases hs'
    exact hselects
  · intro hselects
    exact ⟨_, rfl, hselects⟩

/-- The table of two valid peers, of the given heights. -/
def twoPeers (first second : Int) : ArkPeerArray where
  length := 2
  data := [{ height := first }, { height := second }]

/-- In ascending order the higher peer is selected. -/
theorem arkCoreFilterPeers_greatest_ascending :
    ∃ s', arkCoreFilterPeers (.ofAnswers { peers := fun _ _ _ => twoPeers 1 2 }) {} = .ok (1, s') ∧
      SelectsGreatest {} (twoPeers 1 2).data s'.globals.selectedPeer :=
  (arkCoreFilterPeers_greatest_iff _ {} (twoPeers 1 2) rfl).mpr (by decide)

/-- In descending order the lower one is. -/
theorem not_arkCoreFilterPeers_greatest :
    ¬ ∀ (w : World) (s : CoreState) (tuple : ArkPeerArray),
      w.peers s.clock s.globals.selectedPeer.ip s.globals.selectedPeer.port = .ok tuple →
      ∃ s', arkCoreFilterPeers w s = .ok (1, s') ∧
        SelectsGreatest s.globals.selectedPeer tuple.data s'.globals.selectedPeer := by
  intro h
  obtain ⟨s', hs', hselects⟩ := h (.ofAnswers { peers := fun _ _ _ => twoPeers 2 1 }) {}
    (twoPeers 2 1) rfl
  cases hs'
  have hle : (2 : Int) ≤ 1 := hselects.isGreatest.2 (.inr ⟨_, List.mem_cons_self, rfl, rfl⟩)
  exact absurd hle (by decide)

/-! ## The reported status -/

/-- The element has a `status` member that is the name of `status`. -/
def Reports (element : CJSON) (status : ARKPEERSTATUS) : Prop :=
  stringField (some element) "status" = some status.name

instance (status : ARKPEERSTATUS) : DecidablePred (Reports · status) :=
  fun element =>
    inferInstanceAs (Decidable (stringField (some element) "status" = some status.name))

/-- The element reports one of the three statuses. -/
def ReportsKnown (element : CJSON) : Prop :=
  Reports element .OK ∨ Reports element .EUNAVAILABLE ∨ Reports element .ETIMEOUT

instance : DecidablePred ReportsKnown := fun _ => instDecidableOr

/-- The record an element of the peer list is decoded to. -/
def decodedPeer (element : CJSON) : ArkPeer :=
  (arkHelpersGetArkPeerFromJSON (some element)).toOption.getD {}

/-- The loop takes the record of the element, when it starts from `start`. -/
def Taken (start : ArkPeer) (element : CJSON) : Prop :=
  (decodedPeer element).status = .OK ∧ start.height < (decodedPeer element).height

instance (start : ArkPeer) : DecidablePred (Taken start) := fun _ => instDecidableAnd

/-- Only elements that report `OK` are counted, and the element the selected peer comes
    from, if it was replaced, is one of them. -/
structure SelectsReportedOk (start : ArkPeer) (elements : List CJSON) (s' : CoreState) :
    Prop where
  counted : s'.numOfValidPeers = elements.countP (Reports · .OK)
  replaced : ∀ element ∈ (elements.filter (Taken start)).getLast?,
    arkHelpersGetArkPeerFromJSON (some element) = .ok s'.globals.selectedPeer ∧
      Reports element .OK
  kept : elements.filter (Taken start) = [] → s'.globals.selectedPeer = start

theorem arkHelpersGetArkPeerFromJSON_of_readable {element : CJSON}
    (h : PeerReadable (some element)) :
    arkHelpersGetArkPeerFromJSON (some element) = .ok (decodedPeer element) := by
  obtain ⟨peer, hpeer⟩ := arkHelpersGetArkPeerFromJSON_completes.mpr h
  rw [decodedPeer, hpeer]
  rfl

/-- A decoded peer is valid unless its element reports another status. -/
theorem decodedPeer_status {element : CJSON} (h : PeerReadable (some element)) :
    (decodedPeer element).status = .OK ↔
      ¬ Reports element .EUNAVAILABLE ∧ ¬ Reports element .ETIMEOUT :=
  status_eq_OK_of_arkHelpersGetArkPeerFromJSON (arkHelpersGetArkPeerFromJSON_of_readable h)

/-- A valid peer reports `OK` exactly when it reports any of the three. -/
theorem reports_OK_iff {element : CJSON} (h : PeerReadable (some element))
    (hstatus : (decodedPeer element).status = .OK) :
    Reports element .OK ↔ ReportsKnown element := by
  -- a valid peer reports neither of the two errors
  obtain ⟨hunavailable, htimeout⟩ := (decodedPeer_status h).mp hstatus
  exact ⟨.inl, fun hknown => hknown.resolve_right (not_or.mpr ⟨hunavailable, htimeout⟩)⟩

theorem decodedPeer_status_of_reports_OK {element : CJSON} (h : PeerReadable (some element))
    (hok : Reports element .OK) : (decodedPeer element).status = .OK := by
  refine (decodedPeer_status h).mpr ⟨fun h' => ?_, fun h' => ?_⟩
  · exact absurd (Option.some.inj (hok.symm.trans h')) (by decide)
  · exact absurd (Option.some.inj (hok.symm.trans h')) (by decide)

/-- A table of decoded elements: the valid peers are the records of the valid elements. -/
theorem validPeers_map (elements : List CJSON) :
    validPeers (elements.map decodedPeer) =
      (elements.filter fun element => (decodedPeer element).status = .OK).map decodedPeer := by
  rw [validPeers, List.filter_map]
  rfl

theorem higherPeers_map (start : ArkPeer) (elements : List CJSON) :
    higherPeers start (elements.map decodedPeer) =
      (elements.filter (Taken start)).map decodedPeer := by
  rw [higherPeers, validPeers_map, List.above, List.filter_map, List.filter_filter]
  congr 2
  funext element
  exact (Bool.and_comm _ _).trans (Bool.decide_and _ _).symm

/-- The table of a readable peer list. -/
theorem readArray_eq_map {t : Target} {list : Option CJSON}
    (h : ∀ element ∈ readChildren t .peer list, PeerReadable (some element)) :
    ∃ tuple, readArray t .peer (fun _ => arkHelpersGetArkPeerFromJSON) list = .ok tuple ∧
      tuple.data = (readChildren t .peer list).map decodedPeer := by
  obtain ⟨tuple, htuple⟩ :
      (readArray t .peer (fun _ => arkHelpersGetArkPeerFromJSON) list).Completes :=
    (readArray_completes_of_forall fun _ _ => arkHelpersGetArkPeerFromJSON_completes).mpr h
  refine ⟨tuple, htuple, ?_⟩
  rw [eq_comm, ← List.forall₂_eq_eq_eq, List.forall₂_map_left_iff]
  refine (readArray_forall₂ htuple).imp fun element peer hpeer => ?_
  rw [decodedPeer, hpeer]
  rfl

/-- Counting the valid elements counts those that report `OK` exactly when every element
    reports one of the three statuses. -/
theorem countP_valid_eq_iff {elements : List CJSON}
    (h : ∀ element ∈ elements, PeerReadable (some element)) :
    elements.countP (fun element => (decodedPeer element).status = .OK) =
        elements.countP (Reports · .OK) ↔
      ∀ element ∈ elements, ReportsKnown element := by
  -- the elements that report `OK` are among the valid ones
  have hvalid : elements.countP (Reports · .OK) =
      (elements.filter fun element => (decodedPeer element).status = .OK).countP
        (Reports · .OK) := by
    rw [List.countP_filter]
    refine List.countP_congr fun element helement => ?_
    have := decodedPeer_status_of_reports_OK (h element helement)
    simpa using this
  rw [hvalid, List.countP_eq_length_filter, eq_comm, List.countP_eq_length]
  constructor
  · intro hall element helement
    by_cases hstatus : (decodedPeer element).status = .OK
    · exact .inl (by simpa using hall element (by simp [helement, hstatus]))
    -- not valid: it reports one of the errors
    · have hother := (decodedPeer_status (h element helement)).not.mp hstatus
      exact .inr (by rwa [not_and_or, not_not, not_not] at hother)
  · intro hall element helement
    obtain ⟨hmem, hstatus⟩ := List.mem_filter.mp helement
    simpa using (reports_OK_iff (h element hmem) (by simpa using hstatus)).mpr (hall element hmem)

section

variable {t : Target} {w : World} {s : CoreState} {ars : ArkRestResponse}

/-- The elements of the peer list of an answer that are read. -/
def peerElements (t : Target) (ars : ArkRestResponse) : List CJSON :=
  readChildren t .peer (cJSONGetObjectItem ars.root (.lit "peers"))

/-- What `ark_core_filterPeers` does with a successful answer. -/
theorem arkCoreFilterPeers_of_successful
    (hpeers : w.peers s.clock s.globals.selectedPeer.ip s.globals.selectedPeer.port =
      arkApiPeers t (fun _ => .ok ars) s.globals.selectedPeer.ip s.globals.selectedPeer.port)
    (hars : Successful ars)
    (hreadable : ∀ element ∈ peerElements t ars, PeerReadable (some element)) :
    arkCoreFilterPeers w s = .ok (1,
      { globals := { s.globals with
          selectedPeer := lastHigherPeer s.globals.selectedPeer
            ((peerElements t ars).map decodedPeer) }
        requests := s.requests ++
          [.peers s.globals.selectedPeer.ip s.globals.selectedPeer.port]
        numOfValidPeers := (peerElements t ars).countP fun element =>
          (decodedPeer element).status = .OK }) := by
  obtain ⟨tuple, htuple, hdata⟩ := readArray_eq_map hreadable
  have hanswer : w.peers s.clock s.globals.selectedPeer.ip s.globals.selectedPeer.port =
      .ok tuple := by
    rw [hpeers, arkApiPeers, Except.ok_bind, onResponse_of_successful hars, htuple]
  rw [arkCoreFilterPeers_eq hanswer, hdata, validPeers_map, List.length_map,
    List.countP_eq_length_filter]
  rfl

/-- The last element the loop takes is the one the selected peer is decoded from. -/
theorem lastHigherPeer_map_of_getLast? {start : ArkPeer} {elements : List CJSON} {element : CJSON}
    (hlast : (elements.filter (Taken start)).getLast? = some element) :
    lastHigherPeer start (elements.map decodedPeer) = decodedPeer element := by
  refine List.lastAbove_of_getLast?_eq_some ?_
  rw [← higherPeers, higherPeers_map, List.getLast?_map, hlast, Option.map_some]

theorem lastHigherPeer_map_of_nil {start : ArkPeer} {elements : List CJSON}
    (hnone : elements.filter (Taken start) = []) :
    lastHigherPeer start (elements.map decodedPeer) = start := by
  refine List.lastAbove_of_above_eq_nil ?_
  rw [← higherPeers, higherPeers_map, hnone, List.map_nil]

end

/-- The filter counts and selects only peers that are reported as `OK` exactly when every
    element of the list reports one of the three statuses. -/
theorem arkCoreFilterPeers_reportedOk_iff (t : Target) (w : World) (s : CoreState)
    (ars : ArkRestResponse)
    (hpeers : w.peers s.clock s.globals.selectedPeer.ip s.globals.selectedPeer.port =
      arkApiPeers t (fun _ => .ok ars) s.globals.selectedPeer.ip s.globals.selectedPeer.port)
    (hars : Successful ars)
    (hreadable : ∀ element ∈ peerElements t ars, PeerReadable (some element)) :
    (∃ s', arkCoreFilterPeers w s = .ok (1, s') ∧
      SelectsReportedOk s.globals.selectedPeer (peerElements t ars) s') ↔
    ∀ element ∈ peerElements t ars, ReportsKnown element := by
  rw [arkCoreFilterPeers_of_successful hpeers hars hreadable, ← countP_valid_eq_iff hreadable]
  constructor
  -- the count alone already forces every element to report a known status
  · intro h
    obtain ⟨s', hs', hselects⟩ := h
    cases hs'
    exact hselects.counted
  · intro hcount
    refine ⟨_, rfl, hcount, ?_, lastHigherPeer_map_of_nil⟩
    intro element hlast
    -- the selected element is one of the table, and was valid when it was taken
    obtain ⟨helement, htaken⟩ := List.mem_filter.mp (List.mem_of_getLast? hlast)
    have hdecode := arkHelpersGetArkPeerFromJSON_of_readable (hreadable element helement)
    have hknown := (countP_valid_eq_iff hreadable).mp hcount element helement
    exact ⟨hdecode.trans (congrArg _ (lastHigherPeer_map_of_getLast? hlast).symm),
      (reports_OK_iff (hreadable element helement) (of_decide_eq_true htaken).1).mpr hknown⟩

/-- The world in which every request for a peer list is answered by `ars`. -/
def World.ofPeerList (t : Target) (ars : ArkRestResponse) : World :=
  { World.ofAnswers {} with peers := fun _ => arkApiPeers t fun _ => .ok ars }

theorem World.ofPeerList_peers (t : Target) (ars : ArkRestResponse) (clock : Nat)
    (ip : Option CString) (port : Int) :
    (World.ofPeerList t ars).peers clock ip port = arkApiPeers t (fun _ => .ok ars) ip port :=
  rfl

/-- A list of four peers that report their status; the highest one is not `OK`. -/
def reportedPeers : ArkRestResponse :=
  .ofBody ("\x7b\"success\":true,\"peers\":[\x7b\"status\":\"OK\",\"height\":2\x7d," ++
    "\x7b\"status\":\"ETIMEOUT\",\"height\":9\x7d,\x7b\"status\":\"OK\",\"height\":7\x7d," ++
    "\x7b\"status\":\"OK\",\"height\":1\x7d]\x7d")

/-- The list of one peer that reports no status. -/
def unreportedPeer : ArkRestResponse :=
  .ofBody "\x7b\"success\":true,\"peers\":[\x7b\"height\":1\x7d]\x7d"

/-- Before the call a peer of height 5 was selected: three peers are counted, and the third of
    the list takes its place. -/
theorem arkCoreFilterPeers_reportedOk_reportedPeers :
    let s : CoreState := { globals := { selectedPeer := { height := 5 } } }
    (∃ s', arkCoreFilterPeers (.ofPeerList .linux64 reportedPeers) s = .ok (1, s') ∧
      SelectsReportedOk { height := 5 } (peerElements .linux64 reportedPeers) s') ∧
    (lastHigherPeer { height := 5 }
      ((peerElements .linux64 reportedPeers).map decodedPeer)).height = 7 :=
  ⟨(arkCoreFilterPeers_reportedOk_iff .linux64 _ _ reportedPeers (World.ofPeerList_peers _ _ _ _ _)
    (by decide +kernel) (by decide +kernel)).mpr (by decide +kernel), by decide +kernel⟩

/-- A peer that reports no status is counted and selected too. -/
theorem not_arkCoreFilterPeers_reportedOk :
    ¬ ∀ (t : Target) (w : World) (s : CoreState) (ars : ArkRestResponse),
      w.peers s.clock s.globals.selectedPeer.ip s.globals.selectedPeer.port =
        arkApiPeers t (fun _ => .ok ars) s.globals.selectedPeer.ip s.globals.selectedPeer.port →
      Successful ars →
      (∀ element ∈ peerElements t ars, PeerReadable (some element)) →
      ∃ s', arkCoreFilterPeers w s = .ok (1, s') ∧
        SelectsReportedOk s.globals.selectedPeer (peerElements t ars) s' := by
  intro h
  -- if that held, every readable list would report known statuses only
  have hknown : ∀ ars, Successful ars →
      (∀ element ∈ peerElements .linux64 ars, PeerReadable (some element)) →
      ∀ element ∈ peerElements .linux64 ars, ReportsKnown element := by
    intro ars hars hreadable
    have hpeers := World.ofPeerList_peers .linux64 ars 0 none 0
    obtain ⟨s', hs', hselects⟩ := h .linux64 (.ofPeerList .linux64 ars) {} ars hpeers hars hreadable
    rw [arkCoreFilterPeers_of_successful hpeers hars hreadable] at hs'
    cases hs'
    exact (countP_valid_eq_iff hreadable).mp hselects.counted
  exact absurd (hknown unreportedPeer (by decide +kernel) (by decide +kernel)) (by decide +kernel)

end ArkInC.Native
