import ArkInC.ForStd.Except
import ArkInC.Native.Transfer
import ArkInC.Spec.ParseStable
import ArkInC.Spec.Response

/-!
# What a transfer leaves in the buffer

`curl_callback` keeps the bytes received so far in front of a NUL and counts them; when
`realloc` fails it drops the buffer and libcurl stops. So `ark_api_get` returns the bytes
that arrived, or a response that no endpoint function decodes.

## Key results

- `curlCallback_of_realloc`: one call appends its chunk
- `curlEasyPerform_spec`: a sequence of calls appends all chunks or drops the buffer
- `arkApiGet_spec`: what `ark_api_get` returns, for every way a transfer can go
-/

namespace ArkInC.Native

/-! ## Blocks -/

/-- Growing a block keeps its first bytes. -/
theorem resize_append (junk : Nat → UInt8) (received rest : List UInt8) (m : Nat) :
    ∃ tail, resize junk (received ++ rest) (received.length + m) = received ++ tail ∧
      tail.length = m := by
  refine ⟨(List.range m).map fun i =>
    (received ++ rest).getD (received.length + i) (junk (received.length + i)), ?_, by simp⟩
  rw [resize, List.range_add, List.map_append, List.map_map]
  congr 1
  -- below the old length nothing is read from `junk`
  refine List.ext_getElem (by simp) fun i hi hi' => ?_
  simp [List.getElem?_append_left hi', List.getElem?_eq_getElem hi']

/-- Writing inside a block. -/
theorem memcpy_append {received tail contents : List UInt8} (h : contents.length ≤ tail.length) :
    memcpy (received ++ tail) received.length contents =
      .ok (received ++ contents ++ tail.drop contents.length) := by
  rw [memcpy, if_pos (by simpa using h), List.take_left', List.drop_append,
    List.drop_of_length_le (Nat.le_add_right _ _), Nat.add_sub_cancel_left, List.nil_append]
  rfl

/-! ## Callbacks -/

/-- `CURL_MAX_WRITE_SIZE`: the most libcurl passes to the callback at once. -/
def CURL_MAX_WRITE_SIZE : Nat := 16384

/-- What the client can rely on during a transfer. -/
structure Transfer.Sound (t : Target) (tr : Transfer) : Prop where
  chunk_le : ∀ chunk ∈ tr.chunks, chunk.contents.length ≤ CURL_MAX_WRITE_SIZE
  /-- A block that is granted leaves room in the address space for the buffer libcurl has
      the chunk in. -/
  realloc_room : ∀ call bytes, tr.realloc call bytes = true →
    bytes + CURL_MAX_WRITE_SIZE < 2 ^ t.sizeBits

/-- A transfer of the bytes in one chunk, on a machine with a mebibyte to spare. -/
def Transfer.ofBytes (bytes : List UInt8) : Transfer where
  calloc := true
  curlEasyInit := true
  uninitialised := 0
  realloc _ n := n ≤ 1048576
  junk _ := 0
  chunks :=
    [{ size := 1, nmemb := bytes.length, contents := bytes
       contents_length := (Nat.one_mul _).symm }]

theorem Transfer.body_ofBytes (bytes : List UInt8) : (Transfer.ofBytes bytes).body = bytes := by
  simp [Transfer.body, Transfer.ofBytes]

theorem Transfer.sound_ofBytes {t : Target} {bytes : List UInt8}
    (h : bytes.length ≤ CURL_MAX_WRITE_SIZE) : (Transfer.ofBytes bytes).Sound t where
  chunk_le chunk hchunk := by
    rw [List.mem_singleton.mp hchunk]
    exact h
  realloc_room _ n hn := by
    have hle : n ≤ 1048576 := of_decide_eq_true hn
    rcases t.sizeBits_eq with hbits | hbits <;> rw [hbits, CURL_MAX_WRITE_SIZE] <;> omega

/-- The response holds the received bytes: they start the block, in front of a NUL, and
    `size` counts them. -/
structure Holds (p : ArkRestResponse) (received : List UInt8) : Prop where
  data : ∃ rest, p.data = some (received ++ 0 :: rest)
  size : p.size = received.length

theorem holds_complete (b : List UInt8) : Holds (complete b) b := ⟨⟨[], rfl⟩, rfl⟩

section

variable {t : Target} {tr : Transfer} {call : Nat} {chunk : Chunk} {p : ArkRestResponse}
  {received : List UInt8}

/-- A call with enough room appends its chunk and takes all of it. -/
theorem curlCallback_of_realloc (hp : Holds p received)
    (hroom : received.length + chunk.contents.length + 1 < 2 ^ t.sizeBits)
    (hrealloc : tr.realloc call (received.length + chunk.contents.length + 1) = true) :
    curlCallback t tr call chunk p =
      .ok (chunk.contents.length, complete (received ++ chunk.contents)) := by
  obtain ⟨⟨rest, hdata⟩, hsize⟩ := hp
  obtain ⟨tail, htail, hlen⟩ :=
    resize_append tr.junk received (0 :: rest) (chunk.contents.length + 1)
  rw [← Nat.add_assoc] at htail
  -- with room for the block none of the three sums wraps
  have hrealsize : chunk.size * chunk.nmemb % 2 ^ t.sizeBits = chunk.contents.length := by
    rw [← chunk.contents_length]
    exact Nat.mod_eq_of_lt (by omega)
  have hbytes : (received.length + chunk.contents.length + 1) % 2 ^ t.sizeBits =
      received.length + chunk.contents.length + 1 := Nat.mod_eq_of_lt hroom
  have hcount : (received.length + chunk.contents.length) % 2 ^ t.sizeBits =
      (received ++ chunk.contents).length := by
    rw [List.length_append]
    exact Nat.mod_eq_of_lt (by omega)
  -- behind the chunk the block has exactly one byte left
  have hterminator : (tail.drop chunk.contents.length).length = 1 := by
    rw [List.length_drop, hlen, Nat.add_sub_cancel_left]
  simp only [curlCallback, hsize, hdata, hrealsize, hbytes, hcount, hrealloc, if_true,
    Option.getD_some, htail, List.take_length]
  rw [memcpy_append (by omega), Except.ok_bind, memcpy_append (by simp [hterminator]),
    Except.ok_bind, List.drop_of_length_le (by simp [hterminator]), List.append_nil]
  rfl

/-- A call without enough room drops the buffer. -/
theorem curlCallback_of_not_realloc (hp : Holds p received)
    (hroom : received.length + chunk.contents.length + 1 < 2 ^ t.sizeBits)
    (hrealloc : tr.realloc call (received.length + chunk.contents.length + 1) = false) :
    curlCallback t tr call chunk p = .ok (2 ^ t.sizeBits - 1, { p with data := none }) := by
  have hrealsize : chunk.size * chunk.nmemb % 2 ^ t.sizeBits = chunk.contents.length := by
    rw [← chunk.contents_length]
    exact Nat.mod_eq_of_lt (by omega)
  simp only [curlCallback, hp.size, hrealsize, Nat.mod_eq_of_lt hroom, hrealloc]
  rfl

/-! ## Transfers -/

/-- Some `realloc` fails while the chunks are appended to the received bytes. -/
def ReallocFails (tr : Transfer) : Nat → List UInt8 → List Chunk → Prop
  | _, _, [] => False
  | call, received, chunk :: chunks =>
    tr.realloc call (received.length + chunk.contents.length + 1) = false ∨
      ReallocFails tr (call + 1) (received ++ chunk.contents) chunks

/-- The callbacks of a transfer append all chunks, or drop the buffer if some `realloc`
    fails. -/
theorem curlEasyPerform_spec (call : Nat) (hsound : tr.Sound t) (chunks : List Chunk)
    (hchunks : ∀ chunk ∈ chunks, chunk.contents.length ≤ CURL_MAX_WRITE_SIZE)
    (hp : Holds p received) (hroom : received.length + 1 + CURL_MAX_WRITE_SIZE < 2 ^ t.sizeBits) :
    ∃ q, curlEasyPerform t tr call chunks p = .ok q ∧
      (ReallocFails tr call received chunks → q.data = none) ∧
      (¬ ReallocFails tr call received chunks →
        Holds q (received ++ (chunks.map Chunk.contents).flatten)) := by
  -- the invariant over the calls is `Holds`
  induction chunks generalizing call p received with
  | nil => exact ⟨p, rfl, False.elim, fun _ => by simpa using hp⟩
  | cons chunk chunks ih =>
    have hchunk := hchunks chunk List.mem_cons_self
    have hlt : received.length + chunk.contents.length + 1 < 2 ^ t.sizeBits := by omega
    cases hrealloc : tr.realloc call (received.length + chunk.contents.length + 1) with
    | false =>
      -- the callback takes `SIZE_MAX` bytes, which is not the length of any chunk
      have hwrong : 2 ^ t.sizeBits - 1 ≠ chunk.contents.length := by omega
      refine ⟨{ p with data := none }, ?_, fun _ => rfl, fun h => absurd (.inl hrealloc) h⟩
      rw [curlEasyPerform, curlCallback_of_not_realloc hp hlt hrealloc, Except.ok_bind]
      exact if_pos hwrong
    | true =>
      -- the block that was granted leaves room for the next chunk
      have hroom' := hsound.realloc_room _ _ hrealloc
      obtain ⟨q, hq, hfails, hholds⟩ := ih (call + 1)
        (fun chunk' h => hchunks chunk' (List.mem_cons_of_mem _ h))
        (holds_complete (received ++ chunk.contents)) (by rw [List.length_append]; omega)
      refine ⟨q, ?_, fun h => ?_, fun h => ?_⟩
      · rw [curlEasyPerform, curlCallback_of_realloc hp hlt hrealloc, Except.ok_bind]
        simpa using hq
      · exact hfails (h.resolve_left (by simp [hrealloc]))
      · simpa using hholds fun h' => h (.inr h')

/-- Something fails in a transfer, so that the client gets no body. -/
def Transfer.Fails (tr : Transfer) : Prop :=
  tr.calloc = false ∨ tr.curlEasyInit = false ∨ ReallocFails tr 0 [] tr.chunks

theorem Transfer.not_fails_ofBytes {bytes : List UInt8} (h : bytes.length ≤ CURL_MAX_WRITE_SIZE) :
    ¬ (Transfer.ofBytes bytes).Fails := by
  have hroom : bytes.length + 1 ≤ 1048576 := by
    unfold CURL_MAX_WRITE_SIZE at h
    omega
  simp [Fails, ReallocFails, ofBytes, hroom]

/-- A response that holds received bytes parses as they do. -/
theorem Holds.root_eq (hp : Holds p received) : p.root = (complete received).root := by
  obtain ⟨⟨rest, hdata⟩, -⟩ := hp
  have htext : CString.ofBytes (received ++ 0 :: rest) = CString.ofBytes (received ++ [0]) := by
    ext1
    simp [CString.ofBytes, List.takeWhile_append]
  simp only [ArkRestResponse.root, hdata, complete, Option.map_some, htext]

/-- The buffer starts out with NULs. -/
theorem holds_zeros (t : Target) :
    Holds { data := some (List.replicate (t.sizeBits / 8) 0), size := 0 } [] := by
  have hbytes : t.sizeBits / 8 = t.sizeBits / 8 - 1 + 1 := by
    rcases t.sizeBits_eq with h | h <;> rw [h]
  exact ⟨⟨List.replicate (t.sizeBits / 8 - 1) 0, by rw [hbytes]; rfl⟩, rfl⟩

/-- An empty text has no value in it. -/
theorem root_complete_nil : (complete []).root = none := by
  have htext : CString.ofBytes ([] ++ [0]) = ⟨[], List.not_mem_nil⟩ := rfl
  simp only [ArkRestResponse.root, complete, Option.map_some, htext, cJSONParse]
  rw [show bufferSkipWhitespace [] = [] from rfl, parseValue_nil, Option.map_none]

/-- `ark_api_get` returns the bytes that arrived, and a response that parses to nothing
    when something fails. -/
theorem arkApiGet_spec (hsound : tr.Sound t) :
    ∃ q, arkApiGet t tr = .ok q ∧ (tr.Fails → q.root = none) ∧
      (¬ tr.Fails → Holds q tr.body) := by
  cases hcalloc : tr.calloc with
  | false =>
    refine ⟨{ data := none, size := tr.uninitialised }, ?_, fun _ => rfl, fun h => ?_⟩
    · simp [arkApiGet, hcalloc]
    · exact absurd (.inl hcalloc) h
  | true =>
    cases hinit : tr.curlEasyInit with
    | false =>
      refine ⟨{ data := some (List.replicate (t.sizeBits / 8) 0), size := tr.uninitialised }, ?_,
        fun _ => ?_, fun h => absurd (.inr (.inl hinit)) h⟩
      · simp [arkApiGet, hcalloc, hinit]
      · -- the size is not read by the parser
        exact (holds_zeros t).root_eq.trans root_complete_nil
    | true =>
      have hroom : ([] : List UInt8).length + 1 + CURL_MAX_WRITE_SIZE < 2 ^ t.sizeBits := by
        rcases t.sizeBits_eq with h | h <;> rw [h] <;> decide
      obtain ⟨q, hq, hfails, hholds⟩ := curlEasyPerform_spec 0 hsound tr.chunks
        hsound.chunk_le (holds_zeros t) hroom
      refine ⟨q, ?_, fun h => ?_, fun h => hholds fun h' => h (.inr (.inr h'))⟩
      · simpa [arkApiGet, hcalloc, hinit] using hq
      · have hrealloc := (h.resolve_left (by simp [hcalloc])).resolve_left (by simp [hinit])
        simp [ArkRestResponse.root, hfails hrealloc, cJSONParse]

end

end ArkInC.Native
