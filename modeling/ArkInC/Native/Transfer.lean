import ArkInC.Native.Models

/-!
# Fetching an answer

`curl_callback` and `ark_api_get` of `arkapi.c`. A `Transfer` is what the system under
them does during one request: whether the allocations succeed, and the chunks libcurl
passes to the callback until the transfer is complete or breaks off. The result of
`curl_easy_perform` is ignored by the source, so it is not part of it. The source
returns the address of a local variable; here the response is a value.
-/

namespace ArkInC.Native

/-- One call of the callback: `size * nmemb` bytes at `contents`. -/
structure Chunk where
  size : Nat
  nmemb : Nat
  contents : List UInt8
  contents_length : contents.length = size * nmemb

/-- The system during one request. -/
structure Transfer where
  /-- Whether `calloc` finds room for the initial buffer. -/
  calloc : Bool
  /-- Whether `curl_easy_init` returns a handle. -/
  curlEasyInit : Bool
  /-- What the field `size` holds before it is set. -/
  uninitialised : Nat
  /-- Whether the `n`-th `realloc` finds room for that many bytes. -/
  realloc : Nat → Nat → Bool
  /-- What the new bytes of a reallocated block hold. -/
  junk : Nat → UInt8
  /-- The chunks that arrive. -/
  chunks : List Chunk

/-- The bytes that arrive in a transfer. -/
def Transfer.body (tr : Transfer) : List UInt8 := (tr.chunks.map Chunk.contents).flatten

/-- A block resized to `n` bytes; the old bytes are kept as far as they fit. -/
def resize (junk : Nat → UInt8) (block : List UInt8) (n : Nat) : List UInt8 :=
  (List.range n).map fun i => block.getD i (junk i)

/-- Writes `contents` at `offset` of an allocated block. -/
def memcpy (block : List UInt8) (offset : Nat) (contents : List UInt8) :
    Except Fault (List UInt8) :=
  if offset + contents.length ≤ block.length then
    .ok (block.take offset ++ contents ++ block.drop (offset + contents.length))
  else .error .outOfBounds

/-- `curl_callback`, for the `call`-th chunk. It returns the number of bytes it took;
    a failed `realloc` makes that `(size_t)-1` and drops the buffer. -/
def curlCallback (t : Target) (tr : Transfer) (call : Nat) (chunk : Chunk)
    (p : ArkRestResponse) : Except Fault (Nat × ArkRestResponse) :=
  let realsize := chunk.size * chunk.nmemb % 2 ^ t.sizeBits
  let bytes := (p.size + realsize + 1) % 2 ^ t.sizeBits
  if tr.realloc call bytes then do
    -- `realloc(p->data, p->size + realsize + 1)`
    let block := resize tr.junk (p.data.getD []) bytes
    let block ← memcpy block p.size (chunk.contents.take realsize)
    let size := (p.size + realsize) % 2 ^ t.sizeBits
    -- the terminator, behind the bytes received so far
    let block ← memcpy block size [0]
    return (realsize, { data := some block, size := size })
  else return (2 ^ t.sizeBits - 1, { p with data := none })

/-- The part of `curl_easy_perform` the client sees: libcurl passes on the chunks in
    order and stops at the first callback that returns a wrong count. -/
def curlEasyPerform (t : Target) (tr : Transfer) :
    Nat → List Chunk → ArkRestResponse → Except Fault ArkRestResponse
  | _, [], p => .ok p
  | call, chunk :: chunks, p => do
    let (wrote, p) ← curlCallback t tr call chunk p
    -- the transfer is aborted, which nobody looks at
    if wrote ≠ chunk.contents.length then return p
    curlEasyPerform t tr (call + 1) chunks p

/-- `ark_api_get`, once the request has been turned into a transfer. -/
def arkApiGet (t : Target) (tr : Transfer) : Except Fault ArkRestResponse :=
  if !tr.calloc then return { data := none, size := tr.uninitialised }
  else
    let zeros := List.replicate (t.sizeBits / 8) (0 : UInt8)
    if !tr.curlEasyInit then return { data := some zeros, size := tr.uninitialised }
    -- only here is the size set
    else curlEasyPerform t tr 0 tr.chunks { data := some zeros, size := 0 }

end ArkInC.Native
