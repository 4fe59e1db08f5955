import ArkInC.ForStd.Except
import ArkInC.Native.Core
import ArkInC.Spec.FormatCorrect

/-!
# Splitting a seed

A seed is split at its colon into an ip and a port, by two copies into fresh blocks. With
room for the texts and their terminators the split is right; the blocks of the source have
room for the terminator of an empty text.

## Key results

- `splitSeed_seed`: the split of a seed, where there is room
- `splitsSeed_iff`: how much room that is
- `not_splitsSeed`: the blocks of the source are too small for every seed
-/

namespace ArkInC.Native

/-! ## Checked writes -/

section

variable {block block' src contents : List UInt8} {offset n : Nat} {index : Int} {c : UInt8}
  {fault : Fault}

theorem memcpy_eq_ok (h : memcpy block offset contents = .ok block') :
    offset + contents.length ≤ block.length ∧ block'.length = block.length := by
  unfold memcpy at h
  split at h
  · next hle =>
    cases h
    refine ⟨hle, ?_⟩
    simp only [List.length_append, List.length_take, List.length_drop]
    omega
  · cases h

theorem memcpy_eq_error (h : memcpy block offset contents = .error fault) :
    fault = .outOfBounds := by
  unfold memcpy at h
  split at h
  · cases h
  · cases h; rfl

/-- A copy writes as many bytes as it is told to. -/
theorem strncpy_eq_ok (h : strncpy block src n = .ok block') :
    n ≤ block.length ∧ block'.length = block.length := by
  obtain ⟨hle, hlen⟩ := memcpy_eq_ok h
  simp only [List.length_append, List.length_take, List.length_replicate] at hle
  exact ⟨by omega, hlen⟩

/-- A byte is written inside the block. -/
theorem storeByte_eq_ok (h : storeByte block index c = .ok block') :
    0 ≤ index ∧ index < block.length ∧ block'.length = block.length := by
  unfold storeByte at h
  split at h
  · cases h
  · obtain ⟨hle, hlen⟩ := memcpy_eq_ok h
    rw [List.length_singleton] at hle
    omega

theorem storeByte_eq_error (h : storeByte block index c = .error fault) :
    fault = .outOfBounds := by
  unfold storeByte at h
  split at h
  · cases h; rfl
  · exact memcpy_eq_error h

/-- A text and its terminator fit into a block that is longer than the text. -/
theorem strncpy_storeByte (text rest : List UInt8) (hlt : text.length < block.length) :
    ∃ tail, ∀ {α : Type} (f : List UInt8 → Except Fault α),
      (strncpy block (text ++ rest) text.length >>= fun block =>
        storeByte block text.length 0 >>= f) = f (text ++ 0 :: tail) := by
  have hcopy : strncpy block (text ++ rest) text.length =
      .ok (text ++ block.drop text.length) := by
    rw [strncpy, List.take_left', memcpy, if_pos]
    · simp
    · simpa using hlt.le
    · rfl
  have hstore : storeByte (text ++ block.drop text.length) text.length 0 =
      .ok (text ++ [0] ++ (block.drop text.length).drop 1) := by
    rw [storeByte, if_neg (by omega), Int.toNat_natCast, memcpy, if_pos]
    · simp
    · simp only [List.length_append, List.length_drop, List.length_singleton]
      omega
  refine ⟨(block.drop text.length).drop 1, fun f => ?_⟩
  rw [hcopy, Except.ok_bind, hstore, Except.ok_bind, List.append_assoc]
  rfl

end

/-! ## Seeds -/

/-- The seed of an ip and a port. -/
def seedText (ip : CString) (port : Nat) : CString where
  bytes := ip.bytes ++ ':'.toUInt8 :: decimal port
  noNul := by
    rw [List.mem_append, List.mem_cons, not_or, not_or]
    exact ⟨ip.noNul, by decide, noNul_decimal port⟩

section

variable {ip : CString} {port : Nat}

theorem idxOf_seed (h : ':'.toUInt8 ∉ ip.bytes) :
    (seedText ip port).bytes.idxOf ':'.toUInt8 = ip.bytes.length := by
  rw [seedText, List.idxOf_append_of_notMem h, List.idxOf_cons_self, Nat.add_zero]

theorem length_seed (ip : CString) (port : Nat) :
    (seedText ip port).bytes.length = ip.bytes.length + 1 + (decimal port).length := by
  rw [seedText, List.length_append, List.length_cons]
  omega

theorem take_seed : (seedText ip port).bytes.take ip.bytes.length = ip.bytes := List.take_left' rfl

theorem drop_seed : (seedText ip port).bytes.drop (ip.bytes.length + 1) = decimal port := by
  rw [seedText, List.drop_append, List.drop_of_length_le (Nat.le_add_right _ 1),
    Nat.add_sub_cancel_left]
  rfl

/-- A seed is split into its ip and its port. -/
theorem splitSeed_seed (h : ':'.toUInt8 ∉ ip.bytes) :
    splitSeed (seedText ip port) = { ip := some ip, port := port } := by
  have hy : (seedText ip port).bytes.length - ip.bytes.length - 1 = (decimal port).length := by
    rw [length_seed]
    omega
  simp only [splitSeed, idxOf_seed h, take_seed, drop_seed, hy, List.take_length,
    CString.ofBytes_bytes, atoi_decimal]

/-- The conversions to `int` change neither length of a seed that is not too long. -/
theorem bmod_seed (hint : ((seedText ip port).bytes.length : Int) ≤ INT_MAX) :
    (ip.bytes.length : Int).bmod (2 ^ 32) = ip.bytes.length ∧
      (((seedText ip port).bytes.length : Int) - ip.bytes.length - 1).bmod (2 ^ 32) =
        (decimal port).length := by
  rw [INT_MAX] at hint
  have hlen := length_seed ip port
  have hdiff : ((seedText ip port).bytes.length : Int) - ip.bytes.length - 1 =
      (decimal port).length := by omega
  rw [hdiff]
  exact ⟨Int.bmod_eq_of_le (by omega) (by omega), Int.bmod_eq_of_le (by omega) (by omega)⟩

/-- With room for both texts and their terminators, the writes are in bounds and the split is
    that of the seed. -/
theorem splitSeedInto_of_room {t : Target} {ipBlock portBlock : List UInt8}
    (h : ':'.toUInt8 ∉ ip.bytes) (hint : ((seedText ip port).bytes.length : Int) ≤ INT_MAX)
    (hip : ip.bytes.length < ipBlock.length) (hport : (decimal port).length < portBlock.length) :
    splitSeedInto t ipBlock portBlock (seedText ip port) = .ok (splitSeed (seedText ip port)) := by
  obtain ⟨hx, hy⟩ := bmod_seed hint
  have hlen := length_seed ip port
  rw [INT_MAX] at hint
  have hsize : ∀ n : Nat, (n : Int) ≤ 2147483647 → ((n : Int) % 2 ^ t.sizeBits).toNat = n := by
    intro n hn
    rcases t.sizeBits_eq with hbits | hbits <;> rw [hbits] <;> omega
  obtain ⟨ipTail, hipCopy⟩ := strncpy_storeByte ip.bytes (':'.toUInt8 :: decimal port) hip
  obtain ⟨portTail, hportCopy⟩ := strncpy_storeByte (decimal port) [] hport
  -- the second copy starts behind the colon
  have hdrop : (seedText ip port).bytes.drop ((ip.bytes.length : Int) + 1).toNat =
      decimal port ++ [] := by
    rw [show ((ip.bytes.length : Int) + 1).toNat = ip.bytes.length + 1 by omega, drop_seed,
      List.append_nil]
  have hipSize := hsize ip.bytes.length (by omega)
  have hportSize := hsize (decimal port).length (by omega)
  have hbytes : (seedText ip port).bytes = ip.bytes ++ ':'.toUInt8 :: decimal port := rfl
  -- both copies stop in front of the end of their blocks
  simp only [splitSeedInto, idxOf_seed h, hx, hy, hipSize, hportSize, hdrop]
  rw [hbytes, hipCopy, hportCopy, splitSeed_seed h, CString.ofBytes_append_cons_zero ip.noNul,
    CString.ofBytes_append_cons_zero (noNul_decimal port), atoi_decimal]
  rfl

/-- A split stays in its blocks only if both texts, as far as their lengths fit an `int`, are
    shorter. -/
theorem splitSeedInto_eq_ok {t : Target} {ipBlock portBlock : List UInt8} {element : CString}
    {peer : ArkPeer} (h : splitSeedInto t ipBlock portBlock element = .ok peer) :
    let x := (element.bytes.idxOf ':'.toUInt8 : Int).bmod (2 ^ 32)
    let y := ((element.bytes.length : Int) - x - 1).bmod (2 ^ 32)
    (0 ≤ x ∧ x < ipBlock.length) ∧ 0 ≤ y ∧ y < portBlock.length := by
  intro x y
  obtain ⟨ip, hip, h⟩ := Except.bind_eq_ok.mp h
  obtain ⟨ip', hip', h⟩ := Except.bind_eq_ok.mp h
  obtain ⟨port, hport, h⟩ := Except.bind_eq_ok.mp h
  obtain ⟨port', hport', -⟩ := Except.bind_eq_ok.mp h
  -- the terminators are the last bytes written
  have hx := storeByte_eq_ok hip'
  have hy := storeByte_eq_ok hport'
  rw [(strncpy_eq_ok hip).2] at hx
  rw [(strncpy_eq_ok hport).2] at hy
  exact ⟨⟨hx.1, hx.2.1⟩, hy.1, hy.2.1⟩

/-- The split yields the ip and the port of a seed, and every write is inside its block. -/
def SplitsSeed (t : Target) (ipBlock portBlock : List UInt8) (ip : CString) (port : Nat) : Prop :=
  splitSeedInto t ipBlock portBlock (seedText ip port) = .ok { ip := some ip, port := port }

/-- What the blocks need room for: each for its text and a terminator. -/
theorem splitsSeed_iff {t : Target} {ipBlock portBlock : List UInt8}
    (h : ':'.toUInt8 ∉ ip.bytes) (hint : ((seedText ip port).bytes.length : Int) ≤ INT_MAX) :
    SplitsSeed t ipBlock portBlock ip port ↔
      ip.bytes.length < ipBlock.length ∧ (decimal port).length < portBlock.length := by
  constructor
  · intro hsplit
    obtain ⟨hx, hy⟩ := splitSeedInto_eq_ok hsplit
    rw [idxOf_seed h, (bmod_seed hint).1] at hx
    rw [idxOf_seed h, (bmod_seed hint).1, (bmod_seed hint).2] at hy
    omega
  · intro hroom
    rw [SplitsSeed, splitSeedInto_of_room h hint hroom.1 hroom.2, splitSeed_seed h]

/-- A split that does not return has left a block. -/
theorem splitSeedInto_eq_error {t : Target} {ipBlock portBlock : List UInt8} {element : CString}
    {fault : Fault} (h : splitSeedInto t ipBlock portBlock element = .error fault) :
    fault = .outOfBounds := by
  rcases Except.bind_eq_error.mp h with h | ⟨ip, -, h⟩
  · exact memcpy_eq_error h
  rcases Except.bind_eq_error.mp h with h | ⟨ip', -, h⟩
  · exact storeByte_eq_error h
  rcases Except.bind_eq_error.mp h with h | ⟨port, -, h⟩
  · exact memcpy_eq_error h
  rcases Except.bind_eq_error.mp h with h | ⟨port', -, h⟩
  · exact storeByte_eq_error h
  · cases h

/-- Into blocks of the size that the source allocates no seed is split: one of the
    terminators is written behind its block. -/
theorem splitSeedInto_seedBlockSize (t : Target) (ipBlock portBlock : List UInt8)
    (hip : ipBlock.length = seedBlockSize) (hport : portBlock.length = seedBlockSize)
    (ip : CString) (h : ':'.toUInt8 ∉ ip.bytes) (port : Nat) (hle : port ≤ 65535) :
    splitSeedInto t ipBlock portBlock (seedText ip port) = .error .outOfBounds := by
  cases hsplit : splitSeedInto t ipBlock portBlock (seedText ip port) with
  | error fault => rw [splitSeedInto_eq_error hsplit]
  | ok peer =>
    obtain ⟨hx, hy⟩ := splitSeedInto_eq_ok hsplit
    rw [idxOf_seed h, hip, seedBlockSize] at hx
    rw [idxOf_seed h, hport, seedBlockSize, length_seed] at hy
    -- both lengths would have to be zero, but a port has one to five digits
    have hpos : 0 < (decimal port).length := List.length_pos_iff.mpr (decimal_ne_nil port)
    have hdigits : (decimal port).length ≤ 5 := decimal_length_le (by omega) (by omega)
    have hxzero : (ip.bytes.length : Int).bmod (2 ^ 32) = 0 := by omega
    rw [hxzero] at hy
    have hyzero : (((ip.bytes.length + 1 + (decimal port).length : Nat) : Int) - 0 - 1).bmod
        (2 ^ 32) = 0 := by omega
    -- five digits are no multiple of 2 ^ 32
    have hipdvd := Int.dvd_of_bmod_eq_zero hxzero
    have hportdvd := Int.dvd_of_bmod_eq_zero hyzero
    omega

end

/-- The split of the source is right for no seed. -/
theorem not_splitsSeed (t : Target) (ipBlock portBlock : List UInt8)
    (hip : ipBlock.length = seedBlockSize) (hport : portBlock.length = seedBlockSize)
    (ip : CString) (h : ':'.toUInt8 ∉ ip.bytes) (port : Nat) (hle : port ≤ 65535) :
    ¬ SplitsSeed t ipBlock portBlock ip port := by
  rw [SplitsSeed, splitSeedInto_seedBlockSize t ipBlock portBlock hip hport ip h port hle]
  exact nofun

/-- Not even for the first one of the table. -/
theorem not_splitsSeed_first : ¬ SplitsSeed .linux64 [0] [0] (.lit "5.39.9.240") 4001 :=
  not_splitsSeed .linux64 [0] [0] rfl rfl (.lit "5.39.9.240") (by decide) 4001 (by decide)

/-- The terminators do not fit, whatever the blocks held before. -/
theorem not_forall_splitsSeed :
    ¬ ∀ (t : Target) (ipBlock portBlock : List UInt8), ipBlock.length = seedBlockSize →
      portBlock.length = seedBlockSize → ∀ ip : CString, ':'.toUInt8 ∉ ip.bytes →
      ∀ port : Nat, port ≤ 65535 → SplitsSeed t ipBlock portBlock ip port := by
  intro h
  have hsplit := h .linux64 [0] [0] rfl rfl (.lit "5.39.9.240") (by decide) 4001 (by decide)
  have hroom := (splitsSeed_iff (by decide) (by decide)).mp hsplit
  exact absurd hroom.1 (by decide)

end ArkInC.Native
