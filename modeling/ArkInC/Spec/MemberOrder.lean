import ArkInC.Spec.Decoders
import Mathlib.Data.List.Find

/-!
# The order of members

A JSON object has no order, but cJSON keeps its members in a list and looks a name up by
walking it. When the names differ, the order and any members that are not looked up make no
difference to a lookup, hence none to a decoder; what does make one is the heap, from which
the decoder of transactions copies an address.

## Key results

- `cJSONGetObjectItem_rearranged`: a lookup in a rearranged object
- `Decoder.run_congr`: a decoder depends on its lookups only
- `Decoder.run_rearranged_iff`: when a decoder returns the same for a rearranged object
-/

namespace ArkInC.Native

/-! ## Lookups -/

/-- No two of the names agree up to letter case. -/
def DistinctNames (members : List (CString × CJSON)) : Prop :=
  (members.map fun member => member.1.lower).Nodup

instance : DecidablePred DistinctNames := fun members =>
  inferInstanceAs (Decidable (members.map fun member => member.1.lower).Nodup)

/-- The second list holds the members of the first in some order, and further members with
    other names than those in `names`. -/
def Rearranges (names : List String) (members members' : List (CString × CJSON)) : Prop :=
  ∃ extra, members'.Perm (members ++ extra) ∧
    ∀ member ∈ extra, ∀ name ∈ names, member.1.lower ≠ (CString.lit name).lower

/-- Of distinct names at most one is found. -/
theorem DistinctNames.subsingleton {members : List (CString × CJSON)} (h : DistinctNames members)
    (name : CString) :
    {member ∈ members | decide (name.lower = member.1.lower) = true}.Subsingleton := by
  intro a ha b hb
  have hname : a.1.lower = b.1.lower :=
    (of_decide_eq_true ha.2).symm.trans (of_decide_eq_true hb.2)
  exact List.inj_on_of_nodup_map h ha.1 hb.1 hname

/-- The lookups of some names in a rearranged object. -/
theorem cJSONGetObjectItem_rearranged {names : List String}
    {members members' : List (CString × CJSON)} (h : Rearranges names members members')
    (hdistinct : DistinctNames members') {name : String} (hname : name ∈ names) :
    cJSONGetObjectItem (some (.object members')) (.lit name) =
      cJSONGetObjectItem (some (.object members)) (.lit name) := by
  obtain ⟨extra, hperm, hextra⟩ := h
  -- no further member has the name
  have hnone : (extra.find? fun member =>
      decide ((CString.lit name).lower = member.1.lower)) = none := by
    rw [List.find?_eq_none]
    intro member hmember
    simpa using (hextra member hmember name hname).symm
  rw [cJSONGetObjectItem_object, cJSONGetObjectItem_object,
    List.find?_eq_find?_of_perm hperm (hdistinct.subsingleton _), List.find?_append, hnone,
    Option.or_none]

/-! ## Decoders -/

/-- A function of `arkhelpers.c` that reads the members of an object. -/
inductive Decoder where
  | peer
  | delegate
  | voter
  | transaction
  | success

namespace Decoder

/-- What the function returns. -/
abbrev Ret : Decoder → Type
  | peer => ArkPeer
  | delegate => ArkDelegate
  | voter => ArkVoter
  | transaction => ArkTransaction
  | success => Int

/-- The call. -/
def run (t : Target) : (d : Decoder) → Option CJSON → Except Fault d.Ret
  | peer, json => arkHelpersGetArkPeerFromJSON json
  | delegate, json => arkHelpersGetArkDelegateFromJSON t json
  | voter, json => arkHelpersGetArkVoterFromJSON t json
  | transaction, json => arkHelpersGetArkTransactionFromJSON t json
  | success, json => .ok (arkHelpersIsResponseSuccess json)

/-- The names it looks up. -/
def names : Decoder → List String
  | peer => ["ip", "port", "version", "os", "status", "delay", "height"]
  | delegate => ["username", "address", "publicKey", "vote", "producedblocks", "missedblocks",
      "rate", "approval", "productivity"]
  | voter => ["username", "address", "publicKey", "balance"]
  | transaction => ["amount", "blockid", "confirmation", "fee", "height", "id", "recipientid",
      "secondsenderpublickey", "senderid", "senderpublickey", "signature", "signsignature",
      "status", "type", "vendorfield"]
  | success => ["success"]

/-- A decoder returns the same for two items in which its names are found alike. -/
theorem run_congr {t : Target} {d : Decoder} {json json' : Option CJSON}
    (h : ∀ name ∈ d.names,
      cJSONGetObjectItem json (.lit name) = cJSONGetObjectItem json' (.lit name)) :
    d.run t json = d.run t json' := by
  cases d with
  | peer =>
    simp only [names, List.forall_mem_cons] at h
    simp only [run, arkHelpersGetArkPeerFromJSON, stringField, intField, h]
  | delegate =>
    simp only [names, List.forall_mem_cons] at h
    simp only [run, arkHelpersGetArkDelegateFromJSON, stringField, intField, doubleField, longField,
      h]
  | voter =>
    simp only [names, List.forall_mem_cons] at h
    simp only [run, arkHelpersGetArkVoterFromJSON, stringField, longField, h]
  | transaction =>
    simp only [names, List.forall_mem_cons] at h
    simp only [run, arkHelpersGetArkTransactionFromJSON, stringField, intField, doubleField,
      pointerField, h]
  | success =>
    simp only [names, List.forall_mem_cons] at h
    simp only [run, arkHelpersIsResponseSuccess, h]

end Decoder

/-! ## Addresses -/

/-- The same machine with its strings at other addresses, as after another parse. -/
def Target.relocate (t : Target) (address : Nat → CString → Int) : Target :=
  { t with intOfPointer := address }

namespace Decoder

/-- Nothing the decoder returns is an address: it is not the one of transactions, or it reads
    NULL before it returns, or the confirmation is not a string. -/
def AddressFree (d : Decoder) (json : Option CJSON) : Prop :=
  match d with
  | transaction => ¬ TransactionReadable json ∨ stringField json "confirmation" = none
  | _ => True

theorem pointerField_eq (t : Target) (json : Option CJSON) (name : String) :
    pointerField t json name = t.pointerToInt (stringField json name) := by
  unfold pointerField stringField
  cases cJSONGetObjectItem json (.lit name) with
  | none => rfl
  | some item => rfl

/-- With its strings elsewhere a transaction is decoded to the same but for one address. -/
theorem transaction_relocate (t : Target) (address : Nat → CString → Int)
    (json : Option CJSON) :
    transaction.run (t.relocate address) json = transaction.run t json >>= fun v =>
      .ok { v with confirmation :=
              (t.relocate address).pointerToInt (stringField json "confirmation") } := by
  simp only [run, arkHelpersGetArkTransactionFromJSON, Except.pure_eq, Except.ok_bind,
    pointerField_eq]
  -- the type is found before the record is built
  cases cJSONGetObjectItem json (.lit "status") with
  | none => rfl
  | some status =>
    cases cJSONGetObjectItem json (.lit "type") with
    | none => rfl
    | some type => simp only [deref_some, Except.ok_bind, bind_assoc]

/-- The confirmation of a decoded transaction is that address. -/
theorem confirmation_eq {t : Target} {json : Option CJSON} {v : ArkTransaction}
    (h : transaction.run t json = .ok v) :
    v.confirmation = t.pointerToInt (stringField json "confirmation") := by
  have hsame : transaction.run (t.relocate t.intOfPointer) json = .ok v := h
  rw [transaction_relocate, h, Except.ok_bind, Except.ok.injEq] at hsame
  exact (congrArg ArkTransaction.confirmation hsame).symm

/-- Only the confirmation of a transaction depends on where the strings are. -/
theorem transaction_relocate_iff (t : Target) (json : Option CJSON) :
    (∀ address, transaction.run t json = transaction.run (t.relocate address) json) ↔
      transaction.AddressFree json := by
  rw [AddressFree, ← arkHelpersGetArkTransactionFromJSON_completes (t := t)]
  constructor
  · intro hsame
    by_contra hnot
    obtain ⟨hcompletes, hstring⟩ := not_or.mp hnot
    obtain ⟨v, hv⟩ := not_not.mp hcompletes
    obtain ⟨confirmation, hconfirmation⟩ := Option.ne_none_iff_exists'.mp hstring
    -- one byte further on the confirmation is another number
    have hmoved := hsame fun i s => t.intOfPointer i s + 1
    have hrun : transaction.run t json = .ok v := hv
    rw [transaction_relocate, hrun, Except.ok_bind, Except.ok.injEq] at hmoved
    have hconf := congrArg ArkTransaction.confirmation hmoved
    simp only [confirmation_eq hrun, hconfirmation, Target.pointerToInt, Target.relocate] at hconf
    omega
  · intro hfree address
    rw [transaction_relocate]
    cases hrun : transaction.run t json with
    | error fault => rfl
    | ok v =>
      have hnone : stringField json "confirmation" = none :=
        hfree.resolve_left (not_not.mpr ⟨v, hrun⟩)
      -- NULL is no address, wherever the strings are
      have hzero : v.confirmation = 0 := by
        rw [confirmation_eq hrun, hnone]
        rfl
      rw [Except.ok_bind, hnone]
      exact congrArg Except.ok (congrArg (fun n => { v with confirmation := n }) hzero)

/-- The other decoders return no address. -/
theorem run_relocate_iff (t : Target) (d : Decoder) (json : Option CJSON) :
    (∀ address, d.run t json = d.run (t.relocate address) json) ↔ d.AddressFree json := by
  cases d with
  | transaction => exact transaction_relocate_iff t json
  | _ => exact iff_of_true (fun _ => rfl) trivial

/-- With the strings where they are, a rearranged object is decoded to the same. -/
theorem run_rearranged (t : Target) {d : Decoder} {members members' : List (CString × CJSON)}
    (hdistinct : DistinctNames members') (h : Rearranges d.names members members') :
    d.run t (some (.object members)) = d.run t (some (.object members')) := by
  apply run_congr
  intro name hname
  exact (cJSONGetObjectItem_rearranged h hdistinct hname).symm

/-- A rearranged object is decoded to the same, and the second time around, when the strings
    are elsewhere, exactly if nothing that is decoded is an address. -/
theorem run_rearranged_iff (t : Target) (d : Decoder) (members members' : List (CString × CJSON))
    (hdistinct : DistinctNames members') (h : Rearranges d.names members members') :
    d.run t (some (.object members)) = d.run t (some (.object members')) ∧
    ((∀ address, d.run t (some (.object members)) =
        d.run (t.relocate address) (some (.object members'))) ↔
      d.AddressFree (some (.object members))) := by
  refine ⟨run_rearranged t hdistinct h, ?_⟩
  simp only [← run_rearranged _ hdistinct h]
  exact run_relocate_iff t d _

/-- A transaction with a height, and a confirmation that is a string. -/
def confirmedTransaction : List (CString × CJSON) :=
  [(.lit "confirmation", .string (.lit "7")), (.lit "height", .number (.finite 1))]

/-- Its members the other way round, in front of a timestamp. -/
def confirmedTransaction' : List (CString × CJSON) :=
  [(.lit "height", .number (.finite 1)), (.lit "confirmation", .string (.lit "7")),
    (.lit "timestamp", .number 0)]

theorem rearranges_confirmedTransaction {names : List String}
    (h : ∀ name ∈ names, (CString.lit "timestamp").lower ≠ (CString.lit name).lower) :
    Rearranges names confirmedTransaction confirmedTransaction' := by
  refine ⟨[(.lit "timestamp", .number 0)], .swap _ _ _, fun member hmember => ?_⟩
  rw [List.mem_singleton.mp hmember]
  exact h

/-- Read as a peer, that object gives its height, also with its strings one page further on. -/
theorem run_rearranged_peer :
    peer.run .linux64 (some (.object confirmedTransaction)) =
      peer.run (Target.linux64.relocate fun _ _ => 8192) (some (.object confirmedTransaction')) :=
  (run_rearranged_iff .linux64 peer _ _ (by decide)
    (rearranges_confirmedTransaction (by decide))).2.mpr trivial _

/-- Read as a transaction, it gives the address of its confirmation. -/
theorem not_run_rearranged :
    ¬ ∀ (t : Target) (d : Decoder) (members members' : List (CString × CJSON)),
      DistinctNames members → DistinctNames members' → Rearranges d.names members members' →
      ∀ address, d.run t (some (.object members)) =
        d.run (t.relocate address) (some (.object members')) := by
  intro h
  have hdistinct : DistinctNames confirmedTransaction' := by decide
  have hrearranges : Rearranges transaction.names confirmedTransaction confirmedTransaction' :=
    rearranges_confirmedTransaction (by decide)
  have hrun := h .linux64 transaction _ _ (by decide) hdistinct hrearranges
  simp only [← run_rearranged _ hdistinct hrearranges] at hrun
  have hfree : ¬ TransactionReadable (some (.object confirmedTransaction)) ∨
      stringField (some (.object confirmedTransaction)) "confirmation" = none :=
    (transaction_relocate_iff .linux64 _).mp hrun
  -- it can be read, and its confirmation is a string
  revert hfree
  decide +kernel

end Decoder

end ArkInC.Native
