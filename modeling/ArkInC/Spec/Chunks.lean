import ArkInC.Spec.BrokenTransfer

/-!
# Answers in chunks

However an answer is cut into chunks, `curl_callback` puts it together again: after any
number of calls the buffer holds the bytes received so far in front of one NUL, and `size`
counts them. So the buffer a client gets for a body does not depend on the network, and what
an endpoint function makes of it depends only on where the parser puts its strings.

## Key results

- `curlCallbacks_append`: the calls for some chunks, from any state
- `arkApiGet_of_delivers`: `ark_api_get` returns what the calls leave
- `curlCallbacks_spec`: the invariant over the calls, and what follows for two ways of cutting
-/

namespace ArkInC.Native

/-- The bytes of some chunks. -/
def received (chunks : List Chunk) : List UInt8 := (chunks.map Chunk.contents).flatten

/-- What the buffer holds: the counted bytes and the byte behind them. -/
def ArkRestResponse.contents (ars : ArkRestResponse) : Option (List UInt8) :=
  ars.data.map (·.take (ars.size + 1))

/-- The response `ark_api_get` passes to the first call. -/
def initialResponse (t : Target) : ArkRestResponse where
  data := some (List.replicate (t.sizeBits / 8) 0)
  size := 0

/-- The calls of `curl_callback` for some chunks: what each returned, and the response they
    leave. -/
def curlCallbacks (t : Target) (tr : Transfer) :
    Nat → List Chunk → ArkRestResponse → Except Fault (List Nat × ArkRestResponse)
  | _, [], p => .ok ([], p)
  | call, chunk :: chunks, p => do
    let (wrote, p) ← curlCallback t tr call chunk p
    let (counts, p) ← curlCallbacks t tr (call + 1) chunks p
    return (wrote :: counts, p)

/-- The body `b` arrives in the chunks of the transfer, and nothing fails on the way. -/
structure Transfer.Delivers (tr : Transfer) (b : List UInt8) : Prop where
  body : tr.body = b
  not_fails : ¬ tr.Fails

theorem Holds.contents_eq {p : ArkRestResponse} {b : List UInt8} (h : Holds p b) :
    p.contents = some (b ++ [0]) := by
  obtain ⟨⟨rest, hdata⟩, hsize⟩ := h
  rw [ArkRestResponse.contents, hdata, hsize, Option.map_some, List.take_length_add_append,
    List.take_succ_cons, List.take_zero]

section

variable {t : Target} {tr : Transfer} {p : ArkRestResponse} {b : List UInt8}

/-! ## The calls -/

/-- What has arrived before some chunks is no obstacle to a prefix of them. -/
theorem not_reallocFails_of_append {call : Nat} {chunks more : List Chunk}
    (h : ¬ ReallocFails tr call b (chunks ++ more)) : ¬ ReallocFails tr call b chunks := by
  induction chunks generalizing call b with
  | nil => exact id
  | cons chunk chunks ih =>
    intro hfails
    apply h
    cases hfails with
    | inl hrealloc => exact .inl hrealloc
    | inr hfails => exact .inr (not_not.mp fun hmore => ih hmore hfails)

/-- The calls for some chunks append them, each call taking all of its chunk. -/
theorem curlCallbacks_append (call : Nat) (chunks : List Chunk) (hp : Holds p b)
    (hroom : b.length + (received chunks).length + 1 < 2 ^ t.sizeBits)
    (hrealloc : ¬ ReallocFails tr call b chunks) :
    ∃ q, curlCallbacks t tr call chunks p = .ok (chunks.map (·.contents.length), q) ∧
      Holds q (b ++ received chunks) ∧ (chunks ≠ [] → q = complete (b ++ received chunks)) := by
  -- the invariant over the calls is `Holds`; a call leaves nothing behind the terminator
  induction chunks generalizing call p b with
  | nil => exact ⟨p, rfl, by simpa [received] using hp, fun h => absurd rfl h⟩
  | cons chunk chunks ih =>
    have hreceived : received (chunk :: chunks) = chunk.contents ++ received chunks := rfl
    rw [hreceived, List.length_append] at hroom
    obtain ⟨hgranted, hrest⟩ := not_or.mp hrealloc
    have hcall := curlCallback_of_realloc (t := t) hp (by omega)
      (Bool.eq_true_of_not_eq_false hgranted)
    obtain ⟨q, hq, hholds, hexact⟩ := ih (call + 1) (holds_complete (b ++ chunk.contents))
      (by rw [List.length_append]; omega) hrest
    rw [List.append_assoc, ← hreceived] at hholds hexact
    refine ⟨q, ?_, hholds, fun _ => ?_⟩
    · simp only [curlCallbacks, hcall, Except.ok_bind, hq, Except.pure_eq, List.map_cons]
    · cases chunks with
      | nil =>
        cases hq
        rw [hreceived, show received [] = [] from rfl, List.append_nil]
      | cons _ _ => exact hexact (List.cons_ne_nil _ _)

/-- libcurl carries on as long as every call takes its chunk. -/
theorem curlEasyPerform_of_curlCallbacks {call : Nat} {chunks : List Chunk} {q : ArkRestResponse}
    (h : curlCallbacks t tr call chunks p = .ok (chunks.map (·.contents.length), q)) :
    curlEasyPerform t tr call chunks p = .ok q := by
  induction chunks generalizing call p with
  | nil => cases h; rfl
  | cons chunk chunks ih =>
    obtain ⟨⟨wrote, p'⟩, hcall, h⟩ := Except.bind_eq_ok.mp h
    obtain ⟨⟨counts, q'⟩, hcalls, h⟩ := Except.bind_eq_ok.mp h
    cases h
    -- the count is that of the chunk, so the next call follows
    rw [curlEasyPerform, hcall, Except.ok_bind]
    simpa using ih hcalls

/-! ## The transfer -/

/-- The calls for a prefix of the chunks of a body. -/
theorem curlCallbacks_of_delivers (hb : b.length < 2 ^ t.sizeBits - 1) (htr : tr.Delivers b)
    {chunks : List Chunk} (hchunks : chunks <+: tr.chunks) :
    ∃ q, curlCallbacks t tr 0 chunks (initialResponse t) =
        .ok (chunks.map (·.contents.length), q) ∧
      Holds q (received chunks) ∧ (chunks ≠ [] → q = complete (received chunks)) := by
  obtain ⟨more, hmore⟩ := hchunks
  -- a prefix is not longer than the body
  have hle : (received chunks).length ≤ b.length := by
    rw [← htr.body, Transfer.body, ← hmore, List.map_append, List.flatten_append,
      List.length_append]
    exact Nat.le_add_right _ _
  have hrealloc : ¬ ReallocFails tr 0 [] (chunks ++ more) := by
    rw [hmore]
    exact fun h => htr.not_fails (.inr (.inr h))
  exact curlCallbacks_append 0 chunks (holds_zeros t) (by rw [List.length_nil]; omega)
    (not_reallocFails_of_append hrealloc)

/-- `ark_api_get` returns what the calls for all chunks leave. -/
theorem arkApiGet_of_delivers (hb : b.length < 2 ^ t.sizeBits - 1) (htr : tr.Delivers b) :
    ∃ q, arkApiGet t tr = .ok q ∧ Holds q b ∧ (tr.chunks ≠ [] → q = complete b) := by
  obtain ⟨q, hcalls, hholds, hexact⟩ := curlCallbacks_of_delivers hb htr (List.prefix_refl _)
  have hreceived : received tr.chunks = b := htr.body
  rw [hreceived] at hholds hexact
  refine ⟨q, ?_, hholds, hexact⟩
  have hcalloc : tr.calloc = true :=
    Bool.eq_true_of_not_eq_false fun h => htr.not_fails (.inl h)
  have hinit : tr.curlEasyInit = true :=
    Bool.eq_true_of_not_eq_false fun h => htr.not_fails (.inr (.inl h))
  simpa [arkApiGet, hcalloc, hinit, initialResponse] using curlEasyPerform_of_curlCallbacks hcalls

/-- Only an empty body can arrive without any call. -/
theorem Transfer.Delivers.chunks_ne_nil (htr : tr.Delivers b) (hb : b ≠ []) : tr.chunks ≠ [] := by
  intro hnil
  apply hb
  rw [← htr.body, Transfer.body, hnil]
  rfl

end

/-- Any way of cutting a body into chunks: after each number of calls the buffer holds the
    bytes received so far and a NUL, their number is counted, and every call took its chunk.
    Two ways leave the same, for which every endpoint function returns the same with its
    strings at the same places, and wherever they are exactly if it returns no address. -/
theorem curlCallbacks_spec (t : Target) (b : List UInt8) (hb : b.length < 2 ^ t.sizeBits - 1) :
    (∀ tr : Transfer, tr.Delivers b → ∀ chunks, chunks <+: tr.chunks →
      ∃ p, curlCallbacks t tr 0 chunks (initialResponse t) =
          .ok (chunks.map (·.contents.length), p) ∧
        p.size = (received chunks).length ∧
        p.contents = some (received chunks ++ [0]) ∧
        (chunks ≠ [] → p.data = some (received chunks ++ [0]))) ∧
    ∀ tr tr' : Transfer, tr.Delivers b → tr'.Delivers b →
      (∃ p p', arkApiGet t tr = .ok p ∧ arkApiGet t tr' = .ok p' ∧
        p.size = b.length ∧ p'.size = b.length ∧
        p.contents = some (b ++ [0]) ∧ p'.contents = some (b ++ [0]) ∧
        ((b ≠ [] ∨ tr.chunks ≠ [] ∧ tr'.chunks ≠ []) → p = p')) ∧
      ∀ e : Endpoint,
        ((e.run t fun _ => arkApiGet t tr) = e.run t fun _ => arkApiGet t tr') ∧
        ((∀ address address' : Nat → CString → Int,
            (e.run (t.relocate address) fun _ => arkApiGet t tr) =
              e.run (t.relocate address') fun _ => arkApiGet t tr') ↔
          e.AddressFree t (complete b)) := by
  refine ⟨fun tr htr chunks hchunks => ?_, fun tr tr' htr htr' => ?_⟩
  · obtain ⟨p, hcalls, hholds, hexact⟩ := curlCallbacks_of_delivers hb htr hchunks
    refine ⟨p, hcalls, hholds.size, hholds.contents_eq, fun hne => ?_⟩
    rw [hexact hne, complete]
  · obtain ⟨p, hp, hholds, hexact⟩ := arkApiGet_of_delivers hb htr
    obtain ⟨p', hp', hholds', hexact'⟩ := arkApiGet_of_delivers hb htr'
    refine ⟨⟨p, p', hp, hp', hholds.size, hholds'.size, hholds.contents_eq, hholds'.contents_eq,
      fun hne => ?_⟩, fun e => ?_⟩
    · cases hne with
      | inl hne => rw [hexact (htr.chunks_ne_nil hne), hexact' (htr'.chunks_ne_nil hne)]
      | inr hne => rw [hexact hne.1, hexact' hne.2]
    -- either response is as good as the whole body
    · simp only [hp, hp', Endpoint.run_of_holds hholds, Endpoint.run_of_holds hholds']
      exact ⟨trivial, Endpoint.run_relocate_iff t e (complete b)⟩

/-- The bytes `a`, NUL and `b` in three chunks, of which the second is empty. -/
def threeChunks : Transfer :=
  { Transfer.ofBytes [97, 0, 98] with
    chunks :=
      [{ size := 1, nmemb := 1, contents := [97], contents_length := rfl },
        { size := 0, nmemb := 7, contents := [], contents_length := rfl },
        { size := 2, nmemb := 1, contents := [0, 98], contents_length := rfl }] }

theorem Transfer.delivers_ofBytes {bytes : List UInt8}
    (h : bytes.length ≤ CURL_MAX_WRITE_SIZE) : (Transfer.ofBytes bytes).Delivers bytes :=
  ⟨body_ofBytes bytes, not_fails_ofBytes h⟩

/-- They leave what one chunk leaves, and after two calls the first byte. -/
theorem curlCallbacks_spec_threeChunks :
    (∃ p, curlCallbacks .linux64 threeChunks 0 (threeChunks.chunks.take 2)
        (initialResponse .linux64) = .ok ([1, 0], p) ∧ p.size = 1 ∧ p.data = some [97, 0]) ∧
    ∀ e : Endpoint, (e.run .linux64 fun _ => arkApiGet .linux64 threeChunks) =
      e.run .linux64 fun _ => arkApiGet .linux64 (.ofBytes [97, 0, 98]) := by
  have hthree : threeChunks.Delivers [97, 0, 98] :=
    ⟨rfl, by simp [Transfer.Fails, ReallocFails, threeChunks, Transfer.ofBytes]⟩
  obtain ⟨hcalls, hsame⟩ := curlCallbacks_spec .linux64 [97, 0, 98] (by decide)
  obtain ⟨p, hp, hsize, -, hdata⟩ := hcalls threeChunks hthree _ (List.take_prefix 2 _)
  have hone : (Transfer.ofBytes [97, 0, 98]).Delivers [97, 0, 98] :=
    Transfer.delivers_ofBytes (by decide)
  exact ⟨⟨p, hp, hsize, hdata (by decide)⟩, fun e => ((hsame threeChunks _ hthree hone).2 e).1⟩

/-- A transaction with a string for a confirmation, twice in one chunk: the buffers are the
    same, the records are not. -/
theorem not_curlCallbacks_sameResult :
    ¬ ∀ (t : Target) (b : List UInt8), b.length < 2 ^ t.sizeBits - 1 →
      ∀ tr tr' : Transfer, tr.Delivers b → tr'.Delivers b → ∀ e : Endpoint,
        ∀ address address' : Nat → CString → Int,
          (e.run (t.relocate address) fun _ => arkApiGet t tr) =
            e.run (t.relocate address') fun _ => arkApiGet t tr' := by
  intro h
  have hlength : Endpoint.stringBody.length ≤ CURL_MAX_WRITE_SIZE := by decide +kernel
  have hroom : Endpoint.stringBody.length < 2 ^ Target.linux64.sizeBits - 1 :=
    hlength.trans_lt (by decide)
  have hbytes := Transfer.delivers_ofBytes hlength
  have hsame := h .linux64 _ hroom _ _ hbytes hbytes (.transactionsGet none)
  obtain ⟨p, hp, hholds, -⟩ := arkApiGet_of_delivers hroom hbytes
  simp only [hp, Endpoint.run_of_holds hholds] at hsame
  exact Endpoint.not_addressFree_stringBody .linux64
    ((Endpoint.run_relocate_iff .linux64 _ _).mp hsame)

end ArkInC.Native
