import ArkInC.ForStd.Except
import ArkInC.Native.Helpers
import ArkInC.Spec.Lookup

/-!
# What the decoders need and what they read

When the record decoders complete, and what the decoded enumerations say about the
strings they come from. The decoders of delegates and voters read nothing without
looking; the other two compare a string that may not be there. What the record of a
transaction should hold is said by the members of its object alone.

## Key results

- `enumFromString_eq_ok`: a table lookup gives the constant of that name, and the
  fallback for every other string
- `arkHelpersGetArkPeerFromJSON_completes`,
  `arkHelpersGetArkTransactionFromJSON_completes`: when the decoders complete
- `arkHelpersGetArkTransactionFromJSON_readsMembers_iff`: when a transaction is
  decoded faithfully
-/

namespace ArkInC.Native

open Binary64 (Double)

variable {ε : Type} {t : Target} {json : Option CJSON}

/-! ## Enumerations -/

def ARKPEERSTATUS.name : ARKPEERSTATUS → CString
  | OK => .lit "OK"
  | EUNAVAILABLE => .lit "EUNAVAILABLE"
  | ETIMEOUT => .lit "ETIMEOUT"

def ARKTRANSACTIONTYPE.name : ARKTRANSACTIONTYPE → CString
  | SENDARK => .lit "SENDARK"
  | SECONDSIGNATURE => .lit "SECONDSIGNATURE"
  | CREATEDELEGATE => .lit "CREATEDELEGATE"
  | VOTE => .lit "VOTE"
  | MULTISIGNATURE => .lit "MULTISIGNATURE"

theorem ARKPEERSTATUS.name_injective : Function.Injective ARKPEERSTATUS.name := by
  intro a b h
  cases a <;> cases b <;> first | rfl | exact absurd h (by decide)

theorem ARKTRANSACTIONTYPE.name_injective : Function.Injective ARKTRANSACTIONTYPE.name := by
  intro a b h
  cases a <;> cases b <;> first | rfl | exact absurd h (by decide)

theorem enumFromString_completes {map : List (CString × ε)} {result : ε} {string : Option CString} :
    (enumFromString map result string).Completes ↔ string ≠ none := by
  cases string with
  | none => simp [enumFromString]
  | some string => simp [enumFromString]

/-- A table of all constants under their names gives the constant of that name, and the
    initial result for a string that is no name. -/
theorem enumFromString_eq_ok {map : List (CString × ε)} (name : ε → CString)
    (hname : ∀ entry ∈ map, entry.1 = name entry.2) (hmap : ∀ v, (name v, v) ∈ map)
    (hinj : Function.Injective name) {result v : ε} {string : CString} :
    enumFromString map result (some string) = .ok v ↔
      string = name v ∨ (∀ v', string ≠ name v') ∧ v = result := by
  simp only [enumFromString, strcmp_eq_zero, Except.ok.injEq]
  -- the loop stops at the first entry of that name; every constant has one
  cases hfind : map.find? fun entry => decide (string = entry.1) with
  | none =>
    have hno : ∀ v', string ≠ name v' := fun v' => by
      simpa using List.find?_eq_none.mp hfind _ (hmap v')
    simp only [Option.map_none, Option.getD_none, hno v, false_or]
    exact ⟨fun h => ⟨hno, h.symm⟩, fun h => h.2.symm⟩
  | some entry =>
    have hentry : string = name entry.2 := by
      rw [← hname _ (List.mem_of_find?_eq_some hfind)]
      simpa using List.find?_some hfind
    simp only [Option.map_some, Option.getD_some]
    constructor
    · rintro rfl
      exact .inl hentry
    · rintro (h | ⟨hno, -⟩)
      · exact hinj (hentry.symm.trans h)
      · exact absurd hentry (hno _)

/-- The status `OK` is the fallback: only the two error names give another. -/
theorem arkHelpersGetArkPeerStatusFromString_eq_OK {string : CString} :
    arkHelpersGetArkPeerStatusFromString (some string) = .ok .OK ↔
      string ≠ .lit "EUNAVAILABLE" ∧ string ≠ .lit "ETIMEOUT" := by
  rw [arkHelpersGetArkPeerStatusFromString, enumFromString_eq_ok ARKPEERSTATUS.name
    (by decide) (by intro v; cases v <;> decide) ARKPEERSTATUS.name_injective]
  constructor
  · rintro (rfl | ⟨hno, -⟩)
    · decide
    -- an unknown string is none of the names
    · exact ⟨hno .EUNAVAILABLE, hno .ETIMEOUT⟩
  · intro h
    obtain ⟨hunavailable, htimeout⟩ := h
    by_cases hok : string = ARKPEERSTATUS.name .OK
    · exact .inl hok
    · refine .inr ⟨fun v => ?_, rfl⟩
      cases v with
      | OK => exact hok
      | EUNAVAILABLE => exact hunavailable
      | ETIMEOUT => exact htimeout

/-- The type `SENDARK` is the fallback. -/
theorem arkHelpersGetArkTransactionTypeFromString_eq_ok {string : CString}
    {type : ARKTRANSACTIONTYPE} :
    arkHelpersGetArkTransactionTypeFromString (some string) = .ok type ↔
      string = type.name ∨ (∀ type' : ARKTRANSACTIONTYPE, string ≠ type'.name) ∧ type = .SENDARK :=
  enumFromString_eq_ok ARKTRANSACTIONTYPE.name (by decide) (by intro v; cases v <;> decide)
    ARKTRANSACTIONTYPE.name_injective

/-! ## Peers -/

/-- A `status` member, if there is one, is a string. -/
def PeerReadable (json : Option CJSON) : Prop :=
  cJSONGetObjectItem json (.lit "status") ≠ none → stringField json "status" ≠ none

instance : DecidablePred PeerReadable := fun json => inferInstanceAs (Decidable
  (cJSONGetObjectItem json (.lit "status") ≠ none → stringField json "status" ≠ none))

/-- A peer is decoded when its status, if any, is a string. -/
theorem arkHelpersGetArkPeerFromJSON_completes :
    (arkHelpersGetArkPeerFromJSON json).Completes ↔ PeerReadable json := by
  simp only [arkHelpersGetArkPeerFromJSON, PeerReadable, stringField]
  cases cJSONGetObjectItem json (.lit "status") with
  | none => simp
  | some status =>
    simpa only [deref_some, Except.ok_bind, Except.pure_eq, Except.completes_bind_pure,
      arkHelpersGetArkPeerStatusFromString, ne_eq, reduceCtorEq, not_false_eq_true,
      forall_const, Option.bind_some] using enumFromString_completes

/-- A decoded peer is `OK` unless its status member is the name of another status. -/
theorem status_eq_OK_of_arkHelpersGetArkPeerFromJSON {peer : ArkPeer}
    (h : arkHelpersGetArkPeerFromJSON json = .ok peer) :
    peer.status = .OK ↔ stringField json "status" ≠ some (.lit "EUNAVAILABLE") ∧
      stringField json "status" ≠ some (.lit "ETIMEOUT") := by
  simp only [arkHelpersGetArkPeerFromJSON, stringField] at h ⊢
  cases hitem : cJSONGetObjectItem json (.lit "status") with
  | none =>
    simp only [hitem, Except.pure_eq, Except.ok_bind] at h
    cases h
    simp
  | some item =>
    simp only [hitem, deref_some, Except.ok_bind] at h
    obtain ⟨status, hstatus, h⟩ := Except.bind_eq_ok.mp h
    cases h
    simp only [Option.bind_some]
    -- a status that is no string is compared as NULL, and `h` says it returned
    cases hstring : item.valuestring with
    | none => simp [hstring, arkHelpersGetArkPeerStatusFromString, enumFromString] at hstatus
    | some string =>
      rw [hstring] at hstatus
      simp only [ne_eq, Option.some.injEq]
      rw [← ne_eq, ← ne_eq, ← arkHelpersGetArkPeerStatusFromString_eq_OK, hstatus, Except.ok.injEq]

/-! ## Transactions -/

/-- Where there is a `status` member there is a `type` member, and it is a string. -/
def TransactionReadable (json : Option CJSON) : Prop :=
  cJSONGetObjectItem json (.lit "status") ≠ none → stringField json "type" ≠ none

instance : DecidablePred TransactionReadable := fun json => inferInstanceAs (Decidable
  (cJSONGetObjectItem json (.lit "status") ≠ none → stringField json "type" ≠ none))

/-- A transaction is decoded when its type is readable wherever there is a status. -/
theorem arkHelpersGetArkTransactionFromJSON_completes :
    (arkHelpersGetArkTransactionFromJSON t json).Completes ↔ TransactionReadable json := by
  simp only [arkHelpersGetArkTransactionFromJSON, TransactionReadable, stringField]
  cases cJSONGetObjectItem json (.lit "status") with
  | none => simp
  | some status =>
    cases cJSONGetObjectItem json (.lit "type") with
    | none => simp
    | some item =>
      simpa only [deref_some, Except.ok_bind, Except.pure_eq, Except.completes_bind_pure,
        arkHelpersGetArkTransactionTypeFromString, ne_eq, reduceCtorEq, not_false_eq_true,
        forall_const, Option.bind_some] using enumFromString_completes

/-! ## What a transaction should hold -/

variable {members : List (CString × CJSON)} {name : String}

/-- `d` is the number of the first member of that name, zero without one. -/
def HoldsNumber (members : List (CString × CJSON)) (name : String) (d : Double) : Prop :=
  (∀ d', FirstMember members name (.number d') → d = d') ∧ (NoMember members name → d = 0)

/-- `s` is the string of the first member of that name, NULL without one. -/
def HoldsString (members : List (CString × CJSON)) (name : String) (s : Option CString) : Prop :=
  (∀ s', FirstMember members name (.string s') → s = some s') ∧ (NoMember members name → s = none)

/-- `n` is the value of the number of the first member of that name. -/
def HoldsInteger (members : List (CString × CJSON)) (name : String) (n : Int) : Prop :=
  (∀ d, FirstMember members name (.number d) → d.value = some (n : ℚ)) ∧
    (NoMember members name → n = 0)

/-- `n` is the integer part of the number of the first member of that name. -/
def HoldsIntegerPart (members : List (CString × CJSON)) (name : String) (n : Int) : Prop :=
  (∀ d, FirstMember members name (.number d) → d.truncate = some n) ∧
    (NoMember members name → n = 0)

/-- `type` is the constant that the first member of that name names, the zero one without
    one; a string that is no name is the name of no `type`. -/
def HoldsType (members : List (CString × CJSON)) (name : String) (type : ARKTRANSACTIONTYPE) :
    Prop :=
  (∀ s, FirstMember members name (.string s) → s = type.name) ∧
    (NoMember members name → type = .SENDARK)

/-- Every decoded field holds the value of its own member. -/
structure ReadsMembers (members : List (CString × CJSON)) (transaction : ArkTransaction) :
    Prop where
  amount : HoldsNumber members "amount" transaction.amount
  blockId : HoldsString members "blockid" transaction.blockId
  confirmation : HoldsIntegerPart members "confirmation" transaction.confirmation
  fee : HoldsNumber members "fee" transaction.fee
  height : HoldsInteger members "height" transaction.height
  id : HoldsString members "id" transaction.id
  recipientId : HoldsString members "recipientid" transaction.recipientId
  secondSenderPublicKey :
    HoldsString members "secondsenderpublickey" transaction.secondSenderPublicKey
  senderId : HoldsString members "senderid" transaction.senderId
  senderPublicKey : HoldsString members "senderpublickey" transaction.senderPublicKey
  signature : HoldsString members "signature" transaction.signature
  signSignature : HoldsString members "signsignature" transaction.signSignature
  type : HoldsType members "type" transaction.type
  vendorField : HoldsString members "vendorfield" transaction.vendorField

/-- The members a transaction is decoded from have the types of their fields, as far as
    they are there. -/
structure WellTyped (members : List (CString × CJSON)) : Prop where
  number : ∀ name ∈ ["amount", "confirmation", "fee", "height"],
    ∀ v, FirstMember members name v → cJSONIsNumber v
  string : ∀ name ∈ ["blockid", "id", "recipientid", "secondsenderpublickey", "senderid",
      "senderpublickey", "signature", "signsignature", "type", "vendorfield"],
    ∀ v, FirstMember members name v → cJSONIsString v

/-- The members of a transaction that is decoded right: the height is an `int`, the
    confirmation is zero, and the type is `SENDARK` if anything without a `status`, and one of
    the five with one. -/
structure TransactionDecodable (members : List (CString × CJSON)) : Prop where
  height : ∀ d, FirstMember members "height" (.number d) →
    ∃ n : Int, INT_MIN ≤ n ∧ n ≤ INT_MAX ∧ d.value = some (n : ℚ)
  confirmation : ∀ d, FirstMember members "confirmation" (.number d) → d.truncate = some 0
  type_without_status : NoMember members "status" →
    ∀ s, FirstMember members "type" (.string s) → s = .lit "SENDARK"
  type_with_status : ¬ NoMember members "status" →
    ∃ type : ARKTRANSACTIONTYPE, FirstMember members "type" (.string type.name)

/-! ## What the fields are fed from -/

theorem stringField_eq_some_iff {s : CString} :
    stringField (some (.object members)) name = some s ↔
      FirstMember members name (.string s) := by
  rw [← cJSONGetObjectItem_eq_some_iff, stringField, Option.bind_eq_some_iff]
  constructor
  · rintro ⟨v, hv, hs⟩
    cases v with
    | string s' => rw [hv, show s' = s from Option.some.inj hs]
    | _ => exact nomatch hs
  · exact fun h => ⟨_, h, rfl⟩

theorem holdsNumber_doubleField :
    HoldsNumber members name (doubleField (some (.object members)) name) := by
  refine ⟨fun d hd => ?_, fun hno => ?_⟩
  · rw [doubleField, cJSONGetObjectItem_eq_some_iff.mpr hd]
    rfl
  · rw [doubleField, cJSONGetObjectItem_eq_none_iff.mpr hno]
    rfl

theorem holdsString_stringField :
    HoldsString members name (stringField (some (.object members)) name) := by
  refine ⟨fun s hs => stringField_eq_some_iff.mpr hs, fun hno => ?_⟩
  rw [stringField, cJSONGetObjectItem_eq_none_iff.mpr hno]
  rfl

/-- `valueint` is the value of a number exactly if that is an `int`. -/
theorem saturateInt_eq_value_iff {d : Double} :
    d.value = some (saturateInt d : ℚ) ↔
      ∃ n : Int, INT_MIN ≤ n ∧ n ≤ INT_MAX ∧ d.value = some (n : ℚ) := by
  constructor
  · exact fun h => ⟨saturateInt d, (saturateInt_range d).1, (saturateInt_range d).2, h⟩
  · rintro ⟨n, hlo, hhi, hn⟩
    rw [saturateInt_of_value hn hlo hhi, hn]

theorem holdsInteger_intField_iff :
    HoldsInteger members name (intField (some (.object members)) name) ↔
      ∀ d, FirstMember members name (.number d) →
        ∃ n : Int, INT_MIN ≤ n ∧ n ≤ INT_MAX ∧ d.value = some (n : ℚ) := by
  have hint : ∀ d, FirstMember members name (.number d) →
      intField (some (.object members)) name = saturateInt d := by
    intro d hd
    rw [intField, cJSONGetObjectItem_eq_some_iff.mpr hd]
    rfl
  constructor
  · intro h d hd
    have hvalue := h.1 d hd
    rw [hint d hd] at hvalue
    exact saturateInt_eq_value_iff.mp hvalue
  · intro h
    refine ⟨fun d hd => ?_, fun hno => ?_⟩
    · rw [hint d hd]
      exact saturateInt_eq_value_iff.mpr (h d hd)
    · rw [intField, cJSONGetObjectItem_eq_none_iff.mpr hno]
      rfl

/-- The string slot of a number is NULL, and no member gives zero too. -/
theorem holdsIntegerPart_pointerField_iff :
    HoldsIntegerPart members name (pointerField t (some (.object members)) name) ↔
      ∀ d, FirstMember members name (.number d) → d.truncate = some 0 := by
  have hzero : ∀ d, FirstMember members name (.number d) →
      pointerField t (some (.object members)) name = 0 := by
    intro d hd
    rw [pointerField, cJSONGetObjectItem_eq_some_iff.mpr hd]
    rfl
  constructor
  · intro h d hd
    rw [h.1 d hd, hzero d hd]
  · intro h
    refine ⟨fun d hd => ?_, fun hno => ?_⟩
    · rw [hzero d hd, h d hd]
    · rw [pointerField, cJSONGetObjectItem_eq_none_iff.mpr hno]
      rfl

/-- The type the decoder gives: the zero one without a `status` member, else the constant
    the `type` member names, with `SENDARK` for every other string. -/
def DecodedType (members : List (CString × CJSON)) (type : ARKTRANSACTIONTYPE) : Prop :=
  if NoMember members "status" then type = .SENDARK
  else ∃ s, FirstMember members "type" (.string s) ∧
    (s = type.name ∨ (∀ type' : ARKTRANSACTIONTYPE, s ≠ type'.name) ∧ type = .SENDARK)

/-- The decoded type is that of the `type` member exactly when that member is decodable. -/
theorem DecodedType.holdsType_iff {type : ARKTRANSACTIONTYPE} (h : DecodedType members type) :
    HoldsType members "type" type ↔
      (NoMember members "status" → ∀ s, FirstMember members "type" (.string s) →
        s = .lit "SENDARK") ∧
      (¬ NoMember members "status" →
        ∃ type' : ARKTRANSACTIONTYPE, FirstMember members "type" (.string type'.name)) := by
  unfold DecodedType at h
  split at h
  · next hstatus =>
    -- the type is `SENDARK`, whatever the member says
    subst h
    exact ⟨fun hreads => ⟨fun _ => hreads.1, fun hno => absurd hstatus hno⟩,
      fun hsend => ⟨hsend.1 hstatus, fun _ => rfl⟩⟩
  · next hstatus =>
    obtain ⟨s, hs, hname⟩ := h
    constructor
    · intro hreads
      exact ⟨fun hno => absurd hno hstatus, fun _ => ⟨type, hreads.1 s hs ▸ hs⟩⟩
    · intro hdecodable
      obtain ⟨type', htype'⟩ := hdecodable.2 hstatus
      obtain rfl : s = type'.name := CJSON.string.inj (hs.unique htype')
      refine ⟨fun s' hs' => ?_, fun hno => absurd hno hs.not_noMember⟩
      rw [← CJSON.string.inj (hs.unique hs')]
      -- the fallback is only taken for strings that are no name
      rcases hname with hname | ⟨hno, -⟩
      · exact hname
      · exact absurd rfl (hno type')

/-- What the decoder of transactions returns. -/
theorem exists_type_of_arkHelpersGetArkTransactionFromJSON {transaction : ArkTransaction}
    (h : arkHelpersGetArkTransactionFromJSON t (some (.object members)) = .ok transaction) :
    ∃ type, DecodedType members type ∧ transaction =
      { amount := doubleField (some (.object members)) "amount"
        blockId := stringField (some (.object members)) "blockid"
        confirmation := pointerField t (some (.object members)) "confirmation"
        fee := doubleField (some (.object members)) "fee"
        height := intField (some (.object members)) "height"
        id := stringField (some (.object members)) "id"
        recipientId := stringField (some (.object members)) "recipientid"
        secondSenderPublicKey := stringField (some (.object members)) "secondsenderpublickey"
        senderId := stringField (some (.object members)) "senderid"
        senderPublicKey := stringField (some (.object members)) "senderpublickey"
        signature := stringField (some (.object members)) "signature"
        signSignature := stringField (some (.object members)) "signsignature"
        type := type
        vendorField := stringField (some (.object members)) "vendorfield" } := by
  simp only [arkHelpersGetArkTransactionFromJSON] at h
  split at h
  -- without a `status` member the type is not looked at
  · next hstatus =>
    cases h
    exact ⟨.SENDARK, by rw [DecodedType, if_pos (cJSONGetObjectItem_eq_none_iff.mp hstatus)], rfl⟩
  · next status hstatus =>
    obtain ⟨item, hitem, h⟩ := Except.bind_eq_ok.mp h
    obtain ⟨type, htype, h⟩ := Except.bind_eq_ok.mp h
    cases h
    refine ⟨type, ?_, rfl⟩
    rw [DecodedType, if_neg (cJSONGetObjectItem_eq_some_iff.mp hstatus).not_noMember]
    -- the decoder returned, so there is a `type` member and it is a string
    cases hobj : cJSONGetObjectItem (some (.object members)) (.lit "type") with
    | none => simp [hobj] at hitem
    | some obj =>
      rw [hobj] at hitem
      cases hitem
      cases hstring : item.valuestring with
      | none => simp [hstring, arkHelpersGetArkTransactionTypeFromString, enumFromString] at htype
      | some s =>
        rw [hstring] at htype
        refine ⟨s, stringField_eq_some_iff.mp ?_,
          arkHelpersGetArkTransactionTypeFromString_eq_ok.mp htype⟩
        rw [stringField, hobj, Option.bind_some, hstring]

/-- A transaction that can be decoded right can be read. -/
theorem TransactionDecodable.readable (h : TransactionDecodable members) :
    TransactionReadable (some (.object members)) := by
  intro hstatus
  obtain ⟨type, htype⟩ := h.type_with_status (cJSONGetObjectItem_eq_none_iff.not.mp hstatus)
  rw [stringField_eq_some_iff.mpr htype]
  exact Option.some_ne_none _

/-- Every field of a transaction holds the value of its own member exactly when the height is
    an `int`, the confirmation is zero and the type is decodable. -/
theorem arkHelpersGetArkTransactionFromJSON_readsMembers_iff (t : Target)
    (members : List (CString × CJSON)) :
    (∃ transaction, arkHelpersGetArkTransactionFromJSON t (some (.object members)) =
        .ok transaction ∧ ReadsMembers members transaction) ↔
      TransactionDecodable members := by
  constructor
  · intro h
    obtain ⟨transaction, hdecode, hreads⟩ := h
    obtain ⟨type, htype, rfl⟩ := exists_type_of_arkHelpersGetArkTransactionFromJSON hdecode
    obtain ⟨halone, hstatus⟩ := htype.holdsType_iff.mp hreads.type
    exact ⟨holdsInteger_intField_iff.mp hreads.height,
      holdsIntegerPart_pointerField_iff.mp hreads.confirmation, halone, hstatus⟩
  · intro h
    obtain ⟨transaction, hdecode⟩ :=
      (arkHelpersGetArkTransactionFromJSON_completes (t := t)).mpr h.readable
    obtain ⟨type, htype, rfl⟩ := exists_type_of_arkHelpersGetArkTransactionFromJSON hdecode
    refine ⟨_, hdecode, ?_⟩
    exact {
      amount := holdsNumber_doubleField
      blockId := holdsString_stringField
      confirmation := holdsIntegerPart_pointerField_iff.mpr h.confirmation
      fee := holdsNumber_doubleField
      height := holdsInteger_intField_iff.mpr h.height
      id := holdsString_stringField
      recipientId := holdsString_stringField
      secondSenderPublicKey := holdsString_stringField
      senderId := holdsString_stringField
      senderPublicKey := holdsString_stringField
      signature := holdsString_stringField
      signSignature := holdsString_stringField
      type := htype.holdsType_iff.mpr ⟨h.type_without_status, h.type_with_status⟩
      vendorField := holdsString_stringField }

-- with a status the vote is decoded as one, whatever the status is
example : arkHelpersGetArkTransactionFromJSON .linux64 (some (.object
    [(.lit "Type", .string (.lit "VOTE")), (.lit "status", .null), (.lit "height", .number 7),
      (.lit "recipientId", .string (.lit "A")), (.lit "confirmation", .number 0)])) =
    .ok { type := .VOTE, height := 7, recipientId := some (.lit "A") } := by
  rfl

/-- A vote without a status is decoded as a transfer. -/
theorem not_readsMembers_vote :
    ¬ ∀ (t : Target) (members : List (CString × CJSON)), WellTyped members →
      ∃ transaction, arkHelpersGetArkTransactionFromJSON t (some (.object members)) =
        .ok transaction ∧ ReadsMembers members transaction := by
  intro h
  have hvote : FirstMember [(.lit "type", .string (.lit "VOTE"))] "type"
      (.string (.lit "VOTE")) := cJSONGetObjectItem_eq_some_iff.mp rfl
  have htyped : WellTyped [(.lit "type", .string (.lit "VOTE"))] := by
    constructor
    · intro name hname v hv
      -- there is no number among the members
      have hno : ∀ name ∈ ["amount", "confirmation", "fee", "height"],
          NoMember [(.lit "type", .string (.lit "VOTE"))] name := by decide
      exact absurd (hno name hname) hv.not_noMember
    · intro name hname v hv
      obtain ⟨key, before, after, hsplit, -⟩ := hv
      have hmem : (key, v) ∈ [(CString.lit "type", CJSON.string (.lit "VOTE"))] := by
        rw [hsplit]
        simp
      rw [(Prod.mk.inj (List.mem_singleton.mp hmem)).2]
      rfl
  obtain ⟨transaction, hdecode, hreads⟩ := h .linux64 _ htyped
  cases hdecode
  exact absurd (hreads.type.1 _ hvote) (by decide)

end ArkInC.Native
