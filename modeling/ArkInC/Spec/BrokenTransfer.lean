import ArkInC.Spec.Addresses
import ArkInC.Spec.TransferCorrect

/-!
# Transfers that break off

Nothing tests whether a transfer was complete. What saves the client is the parser: the
root of a successful answer is an object, an object ends with its own brace, so a body
whose beginning already parses to a successful answer parses to the same one as a whole.
The records are the same, too, but for an address that is decoded.

## Key results

- `root_complete_take`: the beginning of a body parses to nothing successful or to the
  tree of the whole
- `run_brokenTransfer`: what an endpoint function makes of a transfer that breaks off
- `run_brokenTransfer_iff`: when that is never a wrong record, wherever the strings are
-/

namespace ArkInC.Native

/-- The text in front of the first NUL of a buffer starts with that of its beginning. -/
theorem CString.ofBytes_append (start rest : List UInt8) :
    ∃ more, (CString.ofBytes (start ++ rest)).bytes =
      (CString.ofBytes (start ++ [0])).bytes ++ more := by
  simp only [CString.ofBytes, List.takeWhile_append]
  split
  · exact ⟨rest.takeWhile (· ≠ 0), by simp⟩
  · exact ⟨[], by simp⟩

/-- If the beginning of a body is a successful answer, the whole is the same answer. -/
theorem root_complete_take {b : List UInt8} {k : Nat}
    (h : arkHelpersIsResponseSuccess (complete (b.take k)).root ≠ 0) :
    (complete b).root = (complete (b.take k)).root := by
  -- only an object reports success, and an object carries its own end
  obtain ⟨members, hobject⟩ := exists_object_of_success h
  obtain ⟨more, hmore⟩ := CString.ofBytes_append (b.take k) (b.drop k ++ [0])
  rw [← List.append_assoc, List.take_append_drop] at hmore
  rw [hobject]
  exact cJSONParse_append hmore hobject fun _ => nofun

namespace Endpoint

variable {t t' : Target} {e : Endpoint} {tr : Transfer} {q : ArkRestResponse} {b : List UInt8}
  {k : Nat}

/-- What is decoded of the beginning of a body is what is decoded of the whole. -/
theorem run_of_decodes_take (h : e.Decodes (complete (b.take k))) :
    (e.run t fun _ => .ok (complete (b.take k))) = e.run t fun _ => .ok (complete b) := by
  obtain ⟨url, decode, hrun⟩ := run_eq t e
  have hroot : (complete b).root = (complete (b.take k)).root := root_complete_take h.1
  have hwhole : e.Decodes (complete b) := by
    -- the function that tests the size does not get an empty body
    refine ⟨hroot ▸ h.1, fun hsize hzero => h.2 hsize ?_⟩
    have hnil : b = [] := List.length_eq_zero_iff.mp hzero
    simp [complete, hnil]
  rw [hrun, hrun, Except.ok_bind, Except.ok_bind, if_pos h, if_pos hwhole, hroot]

/-- A response that holds a body gives what the whole body gives. -/
theorem run_of_holds (hq : Holds q b) :
    (e.run t fun _ => .ok q) = e.run t fun _ => .ok (complete b) := by
  obtain ⟨url, decode, hrun⟩ := run_eq t e
  have hdecodes : e.Decodes q ↔ e.Decodes (complete b) := by
    rw [Decodes, Decodes, hq.root_eq, hq.size, (holds_complete b).size]
  simp only [hrun, Except.ok_bind, hdecodes, hq.root_eq]

/-- A response that parses to nothing gives the null value. -/
theorem run_of_root_none (hq : q.root = none) : (e.run t fun _ => .ok q) = .ok e.null :=
  run_of_not_decodes fun hdecodes => hdecodes.1 (hq ▸ rfl)

/-- A transfer that breaks off after `k` bytes of a body gives the null value if an allocation or
    the initialisation fails, and else what the bytes give that arrived. -/
theorem run_brokenTransfer (hsound : tr.Sound t) (hbody : tr.body = b.take k) :
    (tr.Fails → (e.run t' fun _ => arkApiGet t tr) = .ok e.null) ∧
    (¬ tr.Fails → (e.run t' fun _ => arkApiGet t tr) =
      e.run t' fun _ => .ok (complete (b.take k))) := by
  obtain ⟨q, hq, hfails, hholds⟩ := arkApiGet_spec hsound
  rw [hq]
  rw [hbody] at hholds
  exact ⟨fun h => run_of_root_none (hfails h), fun h => run_of_holds (hholds h)⟩

/-- A failed transfer gives no wrong record: what arrives gives the null value or what the whole
    body gives, in a call that puts its strings elsewhere, and the null value if something
    fails. -/
structure TransferSafe (t : Target) (e : Endpoint) (b : List UInt8) (tr : Transfer) : Prop where
  record : ∀ address address' : Nat → CString → Int,
    (e.run (t.relocate address) fun _ => arkApiGet t tr) = .ok e.null ∨
      (e.run (t.relocate address) fun _ => arkApiGet t tr) =
        e.run (t.relocate address') fun _ => .ok (complete b)
  null : tr.Fails → ∀ address : Nat → CString → Int,
    (e.run (t.relocate address) fun _ => arkApiGet t tr) = .ok e.null

/-- With its strings at the same places, what arrives of a body gives the null value or what
    the whole gives. Wherever they are, it does exactly if something fails, or nothing that is
    decoded of what arrives is an address. -/
theorem run_brokenTransfer_iff (t : Target) (e : Endpoint) (b : List UInt8) (k : Nat)
    (tr : Transfer) (hsound : tr.Sound t) (hbody : tr.body = b.take k) :
    ((e.run t fun _ => arkApiGet t tr) = .ok e.null ∨
      (e.run t fun _ => arkApiGet t tr) = e.run t fun _ => .ok (complete b)) ∧
    (e.TransferSafe t b tr ↔ tr.Fails ∨ e.AddressFree t (complete (b.take k))) := by
  by_cases hfails : tr.Fails
  · have hnull : ∀ t', (e.run t' fun _ => arkApiGet t tr) = .ok e.null := fun _ =>
      (run_brokenTransfer hsound hbody).1 hfails
    exact ⟨.inl (hnull t), iff_of_true ⟨fun _ _ => .inl (hnull _), fun _ _ => hnull _⟩
      (.inl hfails)⟩
  · -- nothing fails, so the function gets to see the bytes that arrived
    have hrun : ∀ t', (e.run t' fun _ => arkApiGet t tr) =
        e.run t' fun _ => .ok (complete (b.take k)) := fun _ =>
      (run_brokenTransfer hsound hbody).2 hfails
    by_cases hdecodes : e.Decodes (complete (b.take k))
    · have hwhole : ∀ t', (e.run t' fun _ => .ok (complete (b.take k))) =
          e.run t' fun _ => .ok (complete b) := fun _ => run_of_decodes_take hdecodes
      refine ⟨.inr ((hrun t).trans (hwhole t)), fun hsafe => .inr ?_, fun hfree => ⟨?_, ?_⟩⟩
      -- two places for the strings show an address
      · by_contra hnot
        obtain ⟨address, address', hnull, hne⟩ := exists_run_ne hnot
        rcases hsafe.record address address' with h | h
        · exact hnull ((hrun _).symm.trans h)
        · exact hne ((hrun _).symm.trans (h.trans (hwhole _).symm))
      · intro address address'
        have hfree := hfree.resolve_left hfails
        rw [hrun, run_relocate hfree, ← run_relocate hfree address', hwhole]
        exact .inr rfl
      · exact fun h => absurd h hfails
    -- what is not decoded gives the null value
    · have hnull : ∀ t', (e.run t' fun _ => arkApiGet t tr) = .ok e.null := fun _ =>
        (hrun _).trans (run_of_not_decodes hdecodes)
      exact ⟨.inl (hnull t), iff_of_true ⟨fun _ _ => .inl (hnull _), fun _ _ => hnull _⟩
        (.inr fun h => absurd h hdecodes)⟩

/-- The body of a transaction with an id, in front of a blank line. -/
def idBody : List UInt8 :=
  ascii "\x7b\"success\":true,\"transaction\":\x7b\"id\":\"7\"\x7d\x7d\n\n"

/-- Without the blank line it is decoded all the same. -/
theorem run_brokenTransfer_idBody :
    (transactionsGet none).TransferSafe .linux64 idBody (.ofBytes (idBody.take 42)) := by
  have hfree : (transactionsGet none).AddressFree .linux64 (complete (idBody.take 42)) :=
    addressFree_transactionsGet (by decide +kernel)
  have hsound : (Transfer.ofBytes (idBody.take 42)).Sound .linux64 :=
    Transfer.sound_ofBytes ((List.length_take_le 42 idBody).trans (by decide))
  have hbody : (Transfer.ofBytes (idBody.take 42)).body = idBody.take 42 :=
    Transfer.body_ofBytes _
  exact (run_brokenTransfer_iff .linux64 _ idBody 42 _ hsound hbody).2.mpr (.inr hfree)

/-- The body of a transaction whose confirmation is a string. -/
def stringBody : List UInt8 :=
  ascii "\x7b\"success\":true,\"transaction\":\x7b\"confirmation\":\"7\"\x7d\x7d"

theorem not_addressFree_stringBody (t : Target) :
    ¬ (transactionsGet none).AddressFree t (complete stringBody) := by
  intro h
  have hdecodes : (transactionsGet none).Decodes (complete stringBody) := by decide +kernel
  have hreadable : TransactionReadable
      (cJSONGetObjectItem (complete stringBody).root (.lit "transaction")) := by decide +kernel
  -- the one item that is decoded has such a confirmation
  have hnone := h hdecodes hreadable _ (List.mem_singleton.mpr rfl)
  revert hnone
  decide +kernel

/-- Even where all of it arrives, two calls return two addresses. -/
theorem not_transferSafe :
    ¬ ∀ (t : Target) (e : Endpoint) (b : List UInt8) (k : Nat) (tr : Transfer), tr.Sound t →
      tr.body = b.take k → e.TransferSafe t b tr := by
  intro h
  have hall : stringBody.take stringBody.length = stringBody := List.take_length
  have hlength : stringBody.length ≤ CURL_MAX_WRITE_SIZE := by decide +kernel
  have hsafe := h .linux64 (transactionsGet none) stringBody stringBody.length (.ofBytes stringBody)
    (Transfer.sound_ofBytes hlength) ((Transfer.body_ofBytes _).trans hall.symm)
  obtain ⟨address, address', hnull, hne⟩ :=
    exists_run_ne (not_addressFree_stringBody .linux64)
  -- all of the body arrives, and is what the function gets to see
  have hrun : ∀ t', ((transactionsGet none).run t' fun _ =>
      arkApiGet .linux64 (.ofBytes stringBody)) =
        (transactionsGet none).run t' fun _ => .ok (complete stringBody) := by
    intro t'
    have hbody := (Transfer.body_ofBytes stringBody).trans hall.symm
    have hbytes : _ → ((transactionsGet none).run t' fun _ => _) = _ :=
      (run_brokenTransfer (Transfer.sound_ofBytes (t := .linux64) hlength) hbody).2
    rw [hall] at hbytes
    exact hbytes (Transfer.not_fails_ofBytes hlength)
  rcases hsafe.record address address' with h' | h'
  · exact hnull ((hrun _).symm.trans h')
  · exact hne ((hrun _).symm.trans h')

end Endpoint

end ArkInC.Native
