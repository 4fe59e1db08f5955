import ArkInC.ForStd.Attempt
import ArkInC.Native.JsonPrint
import ArkInC.Spec.Render
import ArkInC.Spec.TransferCorrect

/-!
# What the printer writes

The printer writes the text of the tree and a terminator, growing its block as it goes,
and no write ever passes the end of the block. A buffer is `Ready` when its offset is at the
end of what was printed, and `Written` when what was printed last is behind the offset, in
front of a NUL.

## Key results

- `printValue_runs`: every tree is printed as its text, if there is room for it
- `cJSONPrintPreallocated_spec`: a buffer of the caller is large enough exactly if it has room
  for the text and one or two more bytes
- `cJSONPrint_spec`, `cJSONPrintBuffered_spec`: with a heap that grants every request
  the text is printed, unless it does not fit an `int`
-/

namespace ArkInC.Native

/-! ## The state of a buffer -/

/-- What does not change while a buffer is printed to. -/
structure PrintConfig where
  format : Bool
  noalloc : Bool
  /-- The most bytes the block can have. -/
  limit : Nat
  limit_le : limit ≤ INT_MAX
  /-- A block that can grow does so up to the largest `int`. -/
  limit_eq : noalloc = false → limit = INT_MAX

structure Settings (c : PrintConfig) (depth : Nat) (p : PrintBuffer) : Prop where
  format : p.format = c.format
  depth : p.depth = depth
  noalloc : p.noalloc = c.noalloc
  length_le : p.length ≤ c.limit
  /-- A block that cannot grow keeps its size. -/
  length_eq : c.noalloc = true → p.length = c.limit

/-- The offset is at the end of `text`. -/
structure Ready (hooks : Hooks) (c : PrintConfig) (depth : Nat) (text : List UInt8)
    (p : PrintBuffer) : Prop where
  settings : Settings c depth p
  block : ∃ rest, p.buffer = some (text ++ rest) ∧ p.length ≤ text.length + rest.length ∧
    -- one byte behind the text is copied to a new block
    (c.noalloc = true ∨ hooks.reallocate = true ∨ rest ≠ [])
  offset : p.offset = text.length
  room : p.length = 0 ∨ text.length < p.length

/-- `total` was printed and is terminated; the offset is somewhere in it, and `spare` bytes
    are left, with the terminator. -/
structure Written (c : PrintConfig) (depth : Nat) (total : List UInt8) (spare : Nat)
    (p : PrintBuffer) : Prop where
  settings : Settings c depth p
  block : ∃ rest, p.buffer = some (total ++ 0 :: rest) ∧
    p.length ≤ total.length + (rest.length + 1)
  offset : p.offset ≤ total.length
  noNul : 0 ∉ total.drop p.offset
  room : total.length + spare ≤ p.length

/-- The heap grants every request whose size is an `int`. -/
def Hooks.Granting (hooks : Hooks) : Prop :=
  ∀ request size : Nat, size ≤ INT_MAX → hooks.grants request size = true

/-- A heap on 64-bit Linux that grants everything, with `realloc`. -/
def Hooks.generous : Hooks where
  sizeBits := Target.linux64.sizeBits
  sizeBits_eq := Target.linux64.sizeBits_eq
  reallocate := true
  grants _ _ := true
  junk _ _ := 0

/-- What a failure means: a request was refused, or `size` bytes are too many. -/
def TooLarge (hooks : Hooks) (c : PrintConfig) (size : Nat) : Prop :=
  c.noalloc = true ∨ hooks.Granting → c.limit < size

theorem TooLarge.mono {hooks : Hooks} {c : PrintConfig} {size size' : Nat} (hle : size ≤ size')
    (h : TooLarge hooks c size) : TooLarge hooks c size' := fun hgrants => (h hgrants).trans_le hle

/-- A bound on what is needed inside a larger text. -/
theorem runs_within {hooks : Hooks} {c : PrintConfig} {f : Printing} {p : PrintBuffer}
    {Q : PrintBuffer → Prop} {size size' : Nat} (h : f.Runs p Q (TooLarge hooks c size))
    (hle : size ≤ size') : f.Runs p Q (TooLarge hooks c size') :=
  h.mono (fun _ hQ => hQ) (TooLarge.mono hle)

/-! ## Growing -/

theorem newSize_eq_some {needed size : Nat} (h : newSize needed = some size) :
    needed ≤ size ∧ size ≤ INT_MAX := by
  have hmax : (INT_MAX.toNat : Int) = INT_MAX := rfl
  have hhalf : INT_MAX / 2 * 2 ≤ INT_MAX := by decide
  simp only [newSize] at h
  -- beyond half of the largest `int` the size is that `int`, else it is doubled
  split at h
  · split at h
    · cases h
      exact ⟨by omega, hmax.le⟩
    · exact nomatch h
  · cases h
    exact ⟨by omega, by omega⟩

theorem newSize_eq_none {needed : Nat} (h : newSize needed = none) : INT_MAX < needed := by
  simp only [newSize] at h
  split at h
  · split at h
    · exact nomatch h
    · next hmax => exact not_le.mp hmax
  · exact nomatch h

variable {hooks : Hooks} {c : PrintConfig} {depth : Nat} {text : List UInt8} {p : PrintBuffer}

/-- The block after `ensure` asked for a larger one. -/
private theorem ready_grown {size needed : Nat} (requests : Nat) (hp : Ready hooks c depth text p)
    (hsize : text.length + needed + 1 ≤ size ∧ size ≤ INT_MAX) (hnoalloc : c.noalloc = false)
    {tail : List UInt8} (htail : tail.length = size - text.length) :
    Ready hooks c depth text
      { p with requests := requests, buffer := some (text ++ tail), length := size } ∧
      text.length + needed + 1 ≤ size := by
  have hlimit : (size : Int) ≤ c.limit := (c.limit_eq hnoalloc) ▸ hsize.2
  -- only the block and its length are new; the rest of `Ready` is about the kept text
  refine ⟨⟨⟨hp.settings.format, hp.settings.depth, hp.settings.noalloc, ?_, ?_⟩,
    ⟨tail, rfl, ?_, .inr (.inr ?_)⟩, hp.offset, ?_⟩, hsize.1⟩
  · exact_mod_cast hlimit
  · exact fun htrue => absurd htrue (by simp [hnoalloc])
  · change size ≤ _
    omega
  -- the tail is not empty, so one byte behind the text may be copied
  · rw [← List.length_pos_iff]
    omega
  · change size = 0 ∨ text.length < size
    omega

/-- Without `reallocate` the text is copied to a new block, with the byte behind it. -/
private theorem copy_grown {rest : List UInt8} {offset size : Nat} (junk : Nat → UInt8)
    (hrest : rest ≠ []) (hoffset : offset = text.length) (hsize : text.length < size) :
    ∃ source tail, tail.length = size - text.length ∧
      readBytes (text ++ rest) (offset + 1) = .ok source ∧
      memcpy (resize junk [] size) 0 source = .ok (text ++ tail) := by
  -- `memcpy` takes `offset + 1` bytes: the text and the first byte behind it
  obtain ⟨d, rest, rfl⟩ := List.exists_cons_of_ne_nil hrest
  have hlen : (resize junk [] size).length = size := by simp [resize]
  refine ⟨text ++ [d], d :: (resize junk [] size).drop (text.length + 1), ?_, ?_, ?_⟩
  · rw [List.length_cons, List.length_drop, hlen]
    omega
  · rw [readBytes, hoffset, if_pos (by simp), List.append_cons, List.take_left' (by simp)]
  · rw [memcpy, if_pos (by rw [List.length_append, List.length_singleton]; omega)]
    simp

/-- After `ensure` there is room for `needed` more bytes and one more. -/
theorem ensure_runs (hp : Ready hooks c depth text p) (needed : Nat) :
    (ensure hooks needed).Runs p
      (fun p' => Ready hooks c depth text p' ∧ text.length + needed + 1 ≤ p'.length)
      (TooLarge hooks c (text.length + needed + 1)) := by
  obtain ⟨rest, hbuffer, hlength, hreadable⟩ := hp.block
  have hlimit := c.limit_le
  have hoffset := hp.offset
  -- the offset is inside the block, as `ensure` tests first
  have hroom : ¬ (0 < p.length ∧ p.length ≤ p.offset) := by
    have := hp.room
    omega
  -- the tests of `ensure` in its order
  by_cases hlarge : INT_MAX < needed
  · have hrun : ensure hooks needed p = .ok (false, p) := by
      simp [ensure, hbuffer, hroom, hlarge]
    exact Attempt.runs_failure hrun fun _ => by omega
  by_cases hfits : needed + p.offset + 1 ≤ p.length
  · have hrun : ensure hooks needed p = .ok (true, p) := by
      simp [ensure, hbuffer, hroom, hlarge, hfits]
    exact Attempt.runs_success hrun ⟨hp, by omega⟩
  by_cases hnoalloc : c.noalloc = true
  · have hrun : ensure hooks needed p = .ok (false, p) := by
      simp [ensure, hbuffer, hroom, hlarge, hfits, hp.settings.noalloc, hnoalloc]
    -- such a block has kept its length, which is the limit
    have hkept := hp.settings.length_eq hnoalloc
    exact Attempt.runs_failure hrun fun _ => by omega
  rw [Bool.not_eq_true] at hnoalloc
  cases hsize : newSize (needed + p.offset + 1) with
  | none =>
    have hrun : ensure hooks needed p = .ok (false, p) := by
      simp [ensure, hbuffer, hroom, hlarge, hfits, hp.settings.noalloc, hnoalloc, hsize]
    have hmax := newSize_eq_none hsize
    push_cast at hmax
    exact Attempt.runs_failure hrun fun _ => by omega
  | some size =>
    obtain ⟨hneeded, hmax⟩ := newSize_eq_some hsize
    have hbounds : text.length + needed + 1 ≤ size ∧ size ≤ INT_MAX := ⟨by omega, hmax⟩
    by_cases hgranted : hooks.grants p.requests size = true
    · by_cases hreallocate : hooks.reallocate = true
      -- `realloc` keeps what was there, the text with it
      · obtain ⟨tail, hresize, htail⟩ :=
          resize_append (hooks.junk p.requests) text rest (size - text.length)
        rw [Nat.add_sub_cancel' (by omega)] at hresize
        refine Attempt.runs_success ?_ (ready_grown (p.requests + 1) hp hbounds hnoalloc htail)
        simp [ensure, hbuffer, hroom, hlarge, hfits, hp.settings.noalloc, hnoalloc, hsize,
          hgranted, hreallocate, hresize]
      · -- one byte behind the text is copied with it
        have hrest := (hreadable.resolve_left (by simp [hnoalloc])).resolve_left hreallocate
        obtain ⟨source, tail, htail, hread, hcopy⟩ :=
          copy_grown (hooks.junk p.requests) hrest hoffset (show text.length < size by omega)
        refine Attempt.runs_success ?_ (ready_grown (p.requests + 1) hp hbounds hnoalloc htail)
        simp [ensure, hbuffer, hroom, hlarge, hfits, hp.settings.noalloc, hnoalloc, hsize,
          hgranted, hreallocate, hread, hcopy]
    -- a refused request frees the block; this is no fault of the text
    · have hrun : ensure hooks needed p =
          .ok (false, { p with requests := p.requests + 1, buffer := none, length := 0 }) := by
        simp [ensure, hbuffer, hroom, hlarge, hfits, hp.settings.noalloc, hnoalloc, hsize,
          hgranted]
      refine Attempt.runs_failure hrun fun hgrants => absurd ?_ hgranted
      exact hgrants.resolve_left (by simp [hnoalloc]) _ _ hmax

/-! ## Writing -/

/-- What is written has to fit behind the offset; the offset moves over its first bytes. -/
theorem put_runs (hp : Ready hooks c depth text p) {needed : Nat} {bytes : List UInt8}
    {moved : Nat} (hbytes : bytes.length ≤ needed + 1) :
    (put hooks needed bytes moved).Runs p
      (fun p' => Settings c depth p' ∧ p'.offset = text.length + moved ∧
        (∃ rest, p'.buffer = some (text ++ bytes ++ rest) ∧
          p'.length ≤ text.length + bytes.length + rest.length) ∧
        text.length + needed + 1 ≤ p'.length)
      (TooLarge hooks c (text.length + needed + 1)) := by
  refine (ensure_runs hp needed).andThen fun p' h => ?_
  obtain ⟨hready, hlength⟩ := h
  obtain ⟨rest, hbuffer, hle, -⟩ := hready.block
  have hfits : bytes.length ≤ rest.length := by omega
  -- `ensure` made room behind the offset, so the write stays inside the block
  have hwrite : writeAtOffset bytes moved p' = .ok (true, { p' with
      buffer := some (text ++ bytes ++ rest.drop bytes.length), offset := p'.offset + moved }) := by
    rw [writeAtOffset, hbuffer, Option.getD_some, hready.offset, memcpy_append hfits]
    rfl
  have hsettings := hready.settings
  refine Attempt.runs_success hwrite ⟨⟨hsettings.format, hsettings.depth, hsettings.noalloc,
    hsettings.length_le, hsettings.length_eq⟩, ?_, ⟨rest.drop bytes.length, rfl, ?_⟩, hlength⟩
  · exact congrArg (· + moved) hready.offset
  · change p'.length ≤ _
    rw [List.length_drop]
    omega

/-- A piece is written, with what is behind it, and the offset moves over the piece. -/
theorem put_ready (hp : Ready hooks c depth text p) {needed : Nat} {piece behind : List UInt8}
    (hbytes : (piece ++ behind).length ≤ needed + 1)
    (hneeded : piece.length ≤ needed ∧ needed ≤ piece.length + 1) :
    (put hooks needed (piece ++ behind) piece.length).Runs p (Ready hooks c depth (text ++ piece))
      (TooLarge hooks c ((text ++ piece).length + 2)) := by
  refine (put_runs hp hbytes).mono (fun p' h => ?_) (TooLarge.mono ?_)
  · obtain ⟨hsettings, hoffset, ⟨rest, hbuffer, hle⟩, hlength⟩ := h
    rw [List.length_append] at hle
    refine ⟨hsettings, ⟨behind ++ rest, ?_, ?_, ?_⟩, ?_, ?_⟩
    · rw [hbuffer]
      simp only [List.append_assoc]
    · simp only [List.length_append]
      omega
    -- a byte is left behind the offset, as `needed` is at least the piece
    · refine .inr (.inr ?_)
      rw [← List.length_pos_iff, List.length_append]
      omega
    · rw [hoffset, List.length_append]
    · rw [List.length_append]
      omega
  · rw [List.length_append]
    omega

/-- A piece with its terminator, the offset moved over the piece or not at all. -/
theorem put_written (hp : Ready hooks c depth text p) {needed spare : Nat} (moved : Nat)
    {piece : List UInt8} (hpiece : 0 ∉ piece) (hmoved : moved = 0 ∨ moved = piece.length)
    (hneeded : piece.length + spare = needed + 1) (hspare : 0 < spare) :
    (put hooks needed (piece ++ [0]) moved).Runs p (Written c depth (text ++ piece) spare)
      (TooLarge hooks c ((text ++ piece).length + spare)) := by
  have hbytes : (piece ++ [0]).length ≤ needed + 1 := by
    rw [List.length_append, List.length_singleton]
    omega
  refine (put_runs hp hbytes).mono (fun p' h => ?_) (TooLarge.mono ?_)
  · obtain ⟨hsettings, hoffset, ⟨rest, hbuffer, hle⟩, hlength⟩ := h
    simp only [List.length_append, List.length_singleton] at hle
    refine ⟨hsettings, ⟨rest, ?_, ?_⟩, ?_, ?_, ?_⟩
    · rw [hbuffer]
      simp only [List.append_assoc, List.singleton_append]
    · rw [List.length_append]
      omega
    · rw [List.length_append]
      omega
    -- no NUL between the offset and the terminator, wherever the offset was left
    · rw [hoffset]
      rcases hmoved with rfl | rfl
      · rwa [add_zero, List.drop_left]
      · rw [List.drop_of_length_le (by rw [List.length_append])]
        exact List.not_mem_nil
    · rw [List.length_append]
      omega
  · rw [List.length_append]
    omega

/-- `update_offset` finds the terminator. -/
theorem updateOffset_eq {total : List UInt8} {spare : Nat} (hp : Written c depth total spare p) :
    updateOffset p = .ok (true, { p with offset := total.length }) := by
  obtain ⟨rest, hbuffer, -⟩ := hp.block
  -- the bytes from the offset on are a part of the text, the terminator and the rest
  have hdrop : (total ++ 0 :: rest).drop p.offset = total.drop p.offset ++ 0 :: rest :=
    List.drop_append_of_le_length hp.offset
  have hstrlen : strlenAt (total ++ 0 :: rest) p.offset = .ok (total.length - p.offset) := by
    rw [strlenAt, hdrop, if_pos (by simp), List.idxOf_append_of_notMem hp.noNul]
    simp
  simp only [updateOffset, hbuffer, hstrlen, Except.ok_bind, Nat.add_sub_cancel' hp.offset]
  rfl

theorem updateOffset_runs {total : List UInt8} {spare : Nat} {E : Prop} (hspare : 0 < spare)
    (hp : Written c depth total spare p) :
    updateOffset.Runs p (Ready hooks c depth total) E := by
  obtain ⟨rest, hbuffer, hle⟩ := hp.block
  have hroom := hp.room
  have hsettings := hp.settings
  -- the terminator is now the byte behind the text
  exact Attempt.runs_success (updateOffset_eq hp) ⟨⟨hsettings.format, hsettings.depth,
    hsettings.noalloc, hsettings.length_le, hsettings.length_eq⟩, ⟨0 :: rest, hbuffer, hle,
      .inr (.inr (List.cons_ne_nil _ _))⟩, rfl, .inr (show total.length < p.length by omega)⟩

/-! ## Numbers and strings -/

theorem printNumber_runs (hp : Ready hooks c depth text p) {d : Binary64.Double}
    (hd : IsBinary64 d) :
    (printNumber hooks d).Runs p (Written c depth (text ++ renderNumber d) 1)
      (TooLarge hooks c ((text ++ renderNumber d).length + 1)) := by
  have hlen := renderNumber_length_le hd
  obtain ⟨ok, p', hput, hgoal⟩ := put_written hp (renderNumber d).length (noNul_renderNumber d)
    (.inr rfl) rfl one_pos
  -- `number_buffer` has 26 bytes, and no text of a number is longer than 24
  have hfits : ¬ 25 < (renderNumber d).length := by omega
  exact ⟨ok, p', by rw [printNumber, numberText_eq hd, Except.ok_bind, if_neg hfits, hput], hgoal⟩

private theorem not_lt_thirtyTwo_iff {c : UInt8} : ¬ c < 32 ↔ 31 < c := by
  rw [UInt8.lt_iff_toNat_lt, UInt8.lt_iff_toNat_lt]
  have h32 : (32 : UInt8).toNat = 32 := rfl
  have h31 : (31 : UInt8).toNat = 31 := rfl
  omega

/-- The characters that `print_string_ptr` writes as they are. -/
theorem escapeChar_of_plain {c : UInt8} (hc : 31 < c ∧ c ≠ '"'.toUInt8 ∧ c ≠ '\\'.toUInt8) :
    escapeChar c = [c] := by
  have hcontrol : ∀ d : UInt8, d ≤ 31 → c ≠ d := by
    rintro d hd rfl
    exact absurd hc.1 (UInt8.not_lt.mpr hd)
  have hletter : escapeLetter c = none := by
    simp only [escapeLetter, hc.2.1, hc.2.2, hcontrol 8 (by decide), hcontrol 12 (by decide),
      hcontrol 10 (by decide), hcontrol 13 (by decide), hcontrol 9 (by decide), if_false]
  rw [escapeChar, hletter]
  exact if_neg (not_lt_thirtyTwo_iff.mpr hc.1)

theorem escapeChar_of_letter {c letter : UInt8} (h : escapeLetter c = some letter) :
    escapeChar c = ['\\'.toUInt8, letter] := by
  rw [escapeChar, h]

/-- The others without a letter are written by their code. -/
theorem escapeChar_of_code {c : UInt8} (hletter : escapeLetter c = none)
    (hc : ¬ (31 < c ∧ c ≠ '"'.toUInt8 ∧ c ≠ '\\'.toUInt8)) :
    escapeChar c = '\\'.toUInt8 :: formatU04x c := by
  have hquote : c ≠ '"'.toUInt8 := by rintro rfl; exact nomatch hletter
  have hslash : c ≠ '\\'.toUInt8 := by rintro rfl; exact nomatch hletter
  rw [escapeChar, hletter]
  refine if_pos ?_
  by_contra hlt
  exact hc ⟨not_lt_thirtyTwo_iff.mp hlt, hquote, hslash⟩

theorem escapeChar_length (c : UInt8) : (escapeChar c).length = 1 + escapeCharacters c := by
  rw [escapeChar, escapeCharacters]
  cases escapeLetter c with
  | some letter => rfl
  | none =>
    dsimp only
    split <;> rfl

theorem escape_length (s : List UInt8) :
    (s.flatMap escapeChar).length = s.length + (s.map escapeCharacters).sum := by
  induction s with
  | nil => rfl
  | cons c s ih =>
    rw [List.flatMap_cons, List.length_append, ih, escapeChar_length, List.map_cons, List.sum_cons,
      List.length_cons]
    omega

/-- Writing at the end of what was written before. -/
theorem memcpy_prefix {pre block contents : List UInt8} (hpre : pre <+: block)
    (hlen : pre.length + contents.length ≤ block.length) :
    ∃ block', memcpy block pre.length contents = .ok block' ∧ pre ++ contents <+: block' ∧
      block'.length = block.length := by
  obtain ⟨rest, rfl⟩ := hpre
  rw [List.length_append] at hlen
  refine ⟨_, memcpy_append (by omega), List.prefix_append _ _, ?_⟩
  simp only [List.length_append, List.length_drop]
  omega

/-- The loop writes the escaped characters one behind the other. -/
theorem writeEscaped_prefix {pre block : List UInt8} (input : List UInt8) (hpre : pre <+: block)
    (hlen : pre.length + (input.flatMap escapeChar).length + 1 ≤ block.length) :
    ∃ block', writeEscaped input pre.length block = .ok block' ∧
      pre ++ input.flatMap escapeChar <+: block' ∧ block'.length = block.length := by
  -- induction on what is left to write; `pre` is what is in the block already
  induction input generalizing pre block with
  | nil => exact ⟨block, rfl, by simpa using hpre, rfl⟩
  | cons c input ih =>
    rw [List.flatMap_cons, List.length_append] at hlen
    rw [List.flatMap_cons, ← List.append_assoc, writeEscaped]
    by_cases hc : 31 < c ∧ c ≠ '"'.toUInt8 ∧ c ≠ '\\'.toUInt8
    · rw [escapeChar_of_plain hc, List.length_singleton] at hlen
      rw [escapeChar_of_plain hc, if_pos hc]
      obtain ⟨block₁, hwrite, hpre₁, hlen₁⟩ := memcpy_prefix hpre (show _ + [c].length ≤ _ by
        rw [List.length_singleton]; omega)
      have hpos : (pre ++ [c]).length = pre.length + 1 := by simp
      obtain ⟨block₂, hrest, hpre₂, hlen₂⟩ := ih hpre₁ (by omega)
      rw [hpos] at hrest
      exact ⟨block₂, by rw [hwrite, Except.ok_bind, hrest], hpre₂, hlen₂.trans hlen₁⟩
    -- an escape: first the backslash, then a letter or the code
    · rw [if_neg hc]
      have hone : 1 ≤ (escapeChar c).length := by
        rw [escapeChar_length]
        exact Nat.le_add_right _ _
      obtain ⟨block₁, hwrite, hpre₁, hlen₁⟩ := memcpy_prefix hpre
        (show _ + ['\\'.toUInt8].length ≤ _ by rw [List.length_singleton]; omega)
      have hpos : (pre ++ ['\\'.toUInt8]).length = pre.length + 1 := by simp
      rw [hwrite, Except.ok_bind]
      cases hletter : escapeLetter c with
      | some letter =>
        rw [escapeChar_of_letter hletter] at hlen ⊢
        have htwo : ['\\'.toUInt8, letter].length = 2 := rfl
        obtain ⟨block₂, hwrite₂, hpre₂, hlen₂⟩ := memcpy_prefix hpre₁
          (show _ + [letter].length ≤ _ by rw [List.length_singleton]; omega)
        have hpos₂ : (pre ++ ['\\'.toUInt8] ++ [letter]).length = pre.length + 2 := by simp
        obtain ⟨block₃, hrest, hpre₃, hlen₃⟩ := ih hpre₂ (by omega)
        rw [hpos] at hwrite₂
        rw [hpos₂] at hrest
        refine ⟨block₃, ?_, by simpa using hpre₃, (hlen₃.trans hlen₂).trans hlen₁⟩
        simp only [hwrite₂, Except.ok_bind, hrest]
      | none =>
        rw [escapeChar_of_code hletter hc, List.length_cons] at hlen
        rw [escapeChar_of_code hletter hc]
        have hcode : (formatU04x c).length = 5 := rfl
        have hnul : (formatU04x c ++ [0]).length = 6 := rfl
        -- the NUL behind the sequence is overwritten by what follows
        obtain ⟨block₂, hwrite₂, hpre₂, hlen₂⟩ := memcpy_prefix hpre₁
          (show _ + (formatU04x c ++ [0]).length ≤ _ by omega)
        have hpos₂ : (pre ++ ['\\'.toUInt8] ++ formatU04x c).length = pre.length + 6 := by
          rw [List.length_append, hpos, hcode]
        rw [← List.append_assoc] at hpre₂
        obtain ⟨block₃, hrest, hpre₃, hlen₃⟩ :=
          ih ((List.prefix_append _ _).trans hpre₂) (by omega)
        rw [hpos] at hwrite₂
        rw [hpos₂] at hrest
        refine ⟨block₃, ?_, by simpa using hpre₃, (hlen₃.trans hlen₂).trans hlen₁⟩
        simp only [hwrite₂, Except.ok_bind, hrest]

private theorem escape_of_no_escapes {input : List UInt8}
    (h : (input.map escapeCharacters).sum = 0) : input.flatMap escapeChar = input := by
  induction input with
  | nil => rfl
  | cons c input ih =>
    rw [List.map_cons, List.sum_cons, Nat.add_eq_zero_iff] at h
    have hlen := escapeChar_length c
    rw [h.1] at hlen
    have hplain : escapeChar c = [c] := by
      by_cases hc : 31 < c ∧ c ≠ '"'.toUInt8 ∧ c ≠ '\\'.toUInt8
      · exact escapeChar_of_plain hc
      · cases hletter : escapeLetter c with
        | some letter => simp [escapeChar_of_letter hletter] at hlen
        | none => simp [escapeChar_of_code hletter hc, formatU04x] at hlen
    rw [List.flatMap_cons, hplain, ih h.2, List.singleton_append]

/-- The string and its terminator, behind what was written before. -/
theorem writeString_prefix {pre block : List UInt8} (s : CString) (hpre : pre <+: block)
    (hlen : pre.length + (quote s).length + 1 ≤ block.length) :
    ∃ block', writeString s.bytes (s.bytes.map escapeCharacters).sum
        (s.bytes.length + (s.bytes.map escapeCharacters).sum) pre.length block = .ok block' ∧
      pre ++ quote s ++ [0] <+: block' ∧ block'.length = block.length := by
  have hescape := escape_length s.bytes
  have hquote : (quote s).length = (s.bytes.flatMap escapeChar).length + 2 := by simp [quote]
  rw [hquote] at hlen
  -- the quote in front
  obtain ⟨block₁, hwrite, hpre₁, hlen₁⟩ := memcpy_prefix hpre
    (show _ + ['"'.toUInt8].length ≤ _ by rw [List.length_singleton]; omega)
  have hpos : (pre ++ ['"'.toUInt8]).length = pre.length + 1 := by simp
  -- the string, copied whole where it has no escapes
  obtain ⟨block₂, hwrite₂, hpre₂, hlen₂⟩ : ∃ block₂,
      (if (s.bytes.map escapeCharacters).sum = 0 then memcpy block₁ (pre.length + 1)
          (s.bytes.take (s.bytes.length + (s.bytes.map escapeCharacters).sum))
        else writeEscaped s.bytes (pre.length + 1) block₁) = .ok block₂ ∧
      pre ++ ['"'.toUInt8] ++ s.bytes.flatMap escapeChar <+: block₂ ∧
        block₂.length = block₁.length := by
    rw [← hpos]
    split
    · next hnone =>
      rw [escape_of_no_escapes hnone] at hlen ⊢
      rw [hnone, List.take_of_length_le (by omega)]
      exact memcpy_prefix hpre₁ (by omega)
    · exact writeEscaped_prefix s.bytes hpre₁ (by omega)
  have hpos₂ : (pre ++ ['"'.toUInt8] ++ s.bytes.flatMap escapeChar).length =
      pre.length + (s.bytes.length + (s.bytes.map escapeCharacters).sum) + 1 := by
    rw [List.length_append, hpos, hescape]
    omega
  -- the quote behind, and the terminator
  obtain ⟨block₃, hwrite₃, hpre₃, hlen₃⟩ := memcpy_prefix hpre₂
    (show _ + ['"'.toUInt8, 0].length ≤ _ by simp only [List.length_cons, List.length_nil]; omega)
  rw [hpos₂] at hwrite₃
  refine ⟨block₃, ?_, ?_, (hlen₃.trans hlen₂).trans hlen₁⟩
  · by_cases hnone : (s.bytes.map escapeCharacters).sum = 0
    · rw [if_pos hnone] at hwrite₂
      simp only [writeString, hwrite, Except.ok_bind, if_pos hnone, hwrite₂, hwrite₃]
    · rw [if_neg hnone] at hwrite₂
      simp only [writeString, hwrite, Except.ok_bind, if_neg hnone, hwrite₂, hwrite₃]
  · simpa [quote] using hpre₃

theorem Hooks.sizeT_eq (hooks : Hooks) {n : Nat} (h : n < 2 ^ hooks.sizeBits) : hooks.sizeT n = n :=
  Nat.mod_eq_of_lt h

/-- A string is written between quotes. -/
theorem printStringPtr_runs (hp : Ready hooks c depth text p) {s : CString}
    (hs : (quote s).length + 1 < 2 ^ hooks.sizeBits) :
    (printStringPtr hooks s).Runs p (Written c depth (text ++ quote s) 2)
      (TooLarge hooks c ((text ++ quote s).length + 2)) := by
  have hquote : (quote s).length = s.bytes.length + (s.bytes.map escapeCharacters).sum + 2 := by
    rw [← escape_length]
    simp [quote]
  have hsize : text.length + (s.bytes.length + (s.bytes.map escapeCharacters).sum + 3) + 1 =
      (text ++ quote s).length + 2 := by
    rw [List.length_append, hquote]
    omega
  have hensure := ensure_runs hp (s.bytes.length + (s.bytes.map escapeCharacters).sum + 3)
  rw [hsize] at hensure
  -- none of the sums over the string wraps
  simp only [printStringPtr, hooks.sizeT_eq (show (s.bytes.map escapeCharacters).sum < _ by omega),
    hooks.sizeT_eq (show s.bytes.length + (s.bytes.map escapeCharacters).sum < _ by omega),
    hooks.sizeT_eq (show s.bytes.length + (s.bytes.map escapeCharacters).sum + 3 < _ by omega)]
  refine hensure.andThen fun p' h => ?_
  obtain ⟨hready, hroom⟩ := h
  obtain ⟨rest, hbuffer, hle, -⟩ := hready.block
  rw [List.length_append] at hroom
  obtain ⟨block, hwrite, ⟨left, hblock⟩, hlen⟩ :=
    writeString_prefix s (List.prefix_append text rest)
    (by rw [List.length_append]; omega)
  have hrun : (do
      let block ← writeString s.bytes (s.bytes.map escapeCharacters).sum
        (s.bytes.length + (s.bytes.map escapeCharacters).sum) p'.offset (p'.buffer.getD [])
      return (true, { p' with buffer := some block })) =
        (.ok (true, { p' with buffer := some block }) : Except Fault (Bool × PrintBuffer)) := by
    rw [hbuffer, Option.getD_some, hready.offset, hwrite]
    rfl
  have hsettings := hready.settings
  have hleft : block.length = (text ++ quote s).length + (left.length + 1) := by
    rw [← hblock]
    simp only [List.length_append, List.length_singleton]
    omega
  -- the offset stays in front of the string, in which there is no NUL
  refine Attempt.runs_success hrun ⟨⟨hsettings.format, hsettings.depth, hsettings.noalloc,
    hsettings.length_le, hsettings.length_eq⟩, ⟨left, ?_, ?_⟩, ?_, ?_, ?_⟩
  · rw [← hblock]
    simp
  · change p'.length ≤ _
    rw [← hleft, hlen, List.length_append]
    omega
  · change p'.offset ≤ _
    rw [hready.offset, List.length_append]
    omega
  · change 0 ∉ (text ++ quote s).drop p'.offset
    rw [hready.offset, List.drop_left]
    exact noNul_quote s
  · change _ ≤ p'.length
    rw [List.length_append]
    omega

/-! ## Between the values -/

theorem putOpenArray_runs (hp : Ready hooks c depth text p) :
    (put hooks 1 ['['.toUInt8] 1).Runs p (Ready hooks c depth (text ++ ['['.toUInt8]))
      (TooLarge hooks c ((text ++ ['['.toUInt8]).length + 2)) := by
  have hbytes : (['['.toUInt8] ++ []).length ≤ 1 + 1 := by decide
  exact put_ready hp hbytes (show 1 ≤ 1 ∧ 1 ≤ 1 + 1 by decide)

theorem putCloseArray_runs (hp : Ready hooks c depth text p) :
    (put hooks 2 [']'.toUInt8, 0] 0).Runs p (Written c depth (text ++ [']'.toUInt8]) 2)
      (TooLarge hooks c ((text ++ [']'.toUInt8]).length + 2)) := by
  have hpiece : 0 ∉ [']'.toUInt8] := by decide
  exact put_written hp 0 hpiece (.inl rfl) rfl two_pos

theorem putComma_runs (hp : Ready hooks c depth text p) :
    (putComma hooks).Runs p (Ready hooks c depth (text ++ commaText c.format))
      (TooLarge hooks c ((text ++ commaText c.format).length + 2)) := by
  have hput : putComma hooks p = put hooks ((commaText c.format).length + 1)
      (commaText c.format ++ [0]) (commaText c.format).length p := by
    rw [putComma, hp.settings.format]
    rfl
  exact (put_ready hp (by simp) ⟨by omega, by omega⟩).congr hput

theorem putOpen_runs (hp : Ready hooks c depth text p) :
    (putOpen hooks).Runs p (Ready hooks c depth (text ++ openText c.format))
      (TooLarge hooks c ((text ++ openText c.format).length + 2)) := by
  have hput : putOpen hooks p = put hooks ((openText c.format).length + 1)
      (openText c.format ++ []) (openText c.format).length p := by
    rw [putOpen, hp.settings.format, List.append_nil]
    rfl
  exact (put_ready hp (by simp; omega) ⟨by omega, by omega⟩).congr hput

theorem putIndent_runs (hp : Ready hooks c depth text p) :
    (putIndent hooks).Runs p (Ready hooks c depth (text ++ indentText c.format depth))
      (TooLarge hooks c ((text ++ indentText c.format depth).length + 2)) := by
  by_cases hformat : c.format = true
  · have hput : putIndent hooks p = put hooks (indentText c.format depth).length
        (indentText c.format depth ++ []) (indentText c.format depth).length p := by
      simp [putIndent, indentText, hp.settings.format, hp.settings.depth, hformat]
    exact (put_ready hp (by simp) ⟨le_rfl, by omega⟩).congr hput
  -- nothing is asked for and nothing written
  · have hdone : putIndent hooks p = Attempt.done p := by
      simp [putIndent, hp.settings.format, hformat, Attempt.done]
    refine (Attempt.runs_done ?_).congr hdone
    simpa [indentText, hformat] using hp

theorem putColon_runs (hp : Ready hooks c depth text p) :
    (putColon hooks).Runs p (Ready hooks c depth (text ++ colonText c.format))
      (TooLarge hooks c ((text ++ colonText c.format).length + 2)) := by
  have hput : putColon hooks p = put hooks (colonText c.format).length
      (colonText c.format ++ []) (colonText c.format).length p := by
    rw [putColon, hp.settings.format, List.append_nil]
    rfl
  exact (put_ready hp (by simp) ⟨le_rfl, by omega⟩).congr hput

theorem putMemberEnd_runs (hp : Ready hooks c depth text p) (last : Bool) :
    (putMemberEnd hooks last).Runs p (Ready hooks c depth (text ++ memberEndText c.format last))
      (TooLarge hooks c ((text ++ memberEndText c.format last).length + 2)) := by
  have hput : putMemberEnd hooks last p = put hooks ((memberEndText c.format last).length + 1)
      (memberEndText c.format last ++ [0]) (memberEndText c.format last).length p := by
    rw [putMemberEnd, hp.settings.format]
    rfl
  exact (put_ready hp (by simp) ⟨by omega, by omega⟩).congr hput

/-- The closing bracket is indented like what the object stands in. -/
theorem putClose_runs (hp : Ready hooks c (depth + 1) text p) :
    (putClose hooks).Runs p
      (Written c (depth + 1) (text ++ (indentText c.format depth ++ ['}'.toUInt8])) 2)
      (TooLarge hooks c ((text ++ (indentText c.format depth ++ ['}'.toUInt8])).length + 2)) := by
  have hput : putClose hooks p = put hooks (if c.format then depth + 2 else 2)
      ((indentText c.format depth ++ ['}'.toUInt8]) ++ [0]) 0 p := by
    simp [putClose, indentText, hp.settings.format, hp.settings.depth]
  refine (put_written hp 0 ?_ (.inl rfl) ?_ two_pos).congr hput
  · simp only [List.mem_append, List.mem_singleton, not_or]
    exact ⟨noNul_indentText c.format depth, by decide⟩
  · cases hformat : c.format <;> simp [indentText]

theorem deeper_runs {E : Prop} (hp : Ready hooks c depth text p) :
    deeper.Runs p (Ready hooks c (depth + 1) text) E :=
  Attempt.runs_success rfl ⟨⟨hp.settings.format, congrArg (· + 1) hp.settings.depth,
    hp.settings.noalloc, hp.settings.length_le, hp.settings.length_eq⟩, hp.block, hp.offset,
    hp.room⟩

theorem shallower_runs {E : Prop} {spare : Nat} (hp : Written c (depth + 1) text spare p) :
    shallower.Runs p (Written c depth text spare) E :=
  Attempt.runs_success rfl ⟨⟨hp.settings.format, congrArg (· - 1) hp.settings.depth,
    hp.settings.noalloc, hp.settings.length_le, hp.settings.length_eq⟩, hp.block, hp.offset,
    hp.noNul, hp.room⟩

/-! ## Values -/

/-- How many bytes more than its text are needed to print a value, with the terminator. -/
def spareBytes : CJSON → Nat
  | .number _ => 1
  | _ => 2

theorem spareBytes_bounds (v : CJSON) : 0 < spareBytes v ∧ spareBytes v ≤ 2 := by
  cases v <;> simp [spareBytes]

/-- From the end of a text on, `v` is printed as its text, or the block is too small. -/
def Prints (hooks : Hooks) (c : PrintConfig) (v : CJSON) : Prop :=
  ∀ depth text p, Ready hooks c depth text p →
    (printValue hooks v).Runs p (Written c depth (text ++ render c.format depth v) (spareBytes v))
      (TooLarge hooks c ((text ++ render c.format depth v).length + spareBytes v))

section

variable {R : PrintBuffer → Prop} {size : Nat}

/-- A value is printed, the offset moves behind it, and the printing goes on. -/
theorem Prints.andThen {v : CJSON} {next : Printing} (hv : Prints hooks c v)
    (hp : Ready hooks c depth text p)
    (hsize : (text ++ render c.format depth v).length + 2 ≤ size)
    (hnext : ∀ p', Ready hooks c depth (text ++ render c.format depth v) p' →
      next.Runs p' R (TooLarge hooks c size)) :
    Attempt.Runs ((printValue hooks v).andThen (updateOffset.andThen next)) p R
      (TooLarge hooks c size) := by
  have hspare := spareBytes_bounds v
  -- `size` is for all that comes, so a failure here is one of the whole as well
  have hprinted := runs_within (hv depth text p hp) (show _ ≤ size by omega)
  exact hprinted.andThen fun p' hp' => (updateOffset_runs hspare.1 hp').andThen hnext

/-- So is a name. -/
theorem printName_andThen {name : CString} {next : Printing} (hp : Ready hooks c depth text p)
    (hname : (quote name).length + 1 < 2 ^ hooks.sizeBits)
    (hsize : (text ++ quote name).length + 2 ≤ size)
    (hnext : ∀ p', Ready hooks c depth (text ++ quote name) p' →
      next.Runs p' R (TooLarge hooks c size)) :
    Attempt.Runs ((printStringPtr hooks name).andThen (updateOffset.andThen next)) p R
      (TooLarge hooks c size) := by
  exact (runs_within (printStringPtr_runs hp hname) hsize).andThen fun p' hp' =>
    (updateOffset_runs two_pos hp').andThen hnext

end

/-- The loop of `print_array`. -/
theorem printElements_runs {items : List CJSON} (hitems : ∀ v ∈ items, Prints hooks c v)
    (hp : Ready hooks c depth text p) :
    (printElements hooks items).Runs p
      (Ready hooks c depth (text ++ renderElements c.format depth items))
      (TooLarge hooks c ((text ++ renderElements c.format depth items).length + 2)) := by
  -- induction on the items left; the text is what is printed so far
  induction items generalizing text p with
  | nil =>
    refine Attempt.runs_done ?_
    rwa [renderElements, List.append_nil]
  | cons v items ih =>
    obtain ⟨hv, hitems⟩ := List.forall_mem_cons.mp hitems
    simp only [renderElements, ← List.append_assoc]
    refine hv.andThen hp (by simp only [List.length_append]; omega) fun p₁ hp₁ => ?_
    -- a comma stands behind every item but the last
    have hcomma : Attempt.Runs (if items.isEmpty then .done else putComma hooks) p₁
        (Ready hooks c depth (text ++ render c.format depth v ++
          (if items.isEmpty then [] else commaText c.format)))
        (TooLarge hooks c ((text ++ render c.format depth v ++
          (if items.isEmpty then [] else commaText c.format)).length + 2)) := by
      cases items.isEmpty
      · exact putComma_runs hp₁
      · refine Attempt.runs_done ?_
        rwa [if_pos rfl, List.append_nil]
    refine (runs_within hcomma (by simp only [List.length_append]; omega)).andThen fun p₂ hp₂ => ?_
    exact ih hitems hp₂

/-- The loop of `print_object`. -/
theorem printMembers_runs {members : List (CString × CJSON)}
    (hmembers : ∀ m ∈ members, (quote (Prod.fst m)).length + 1 < 2 ^ hooks.sizeBits ∧
      Prints hooks c (Prod.snd m))
    (hp : Ready hooks c depth text p) :
    (printMembers hooks members).Runs p
      (Ready hooks c depth (text ++ renderMembers c.format depth members))
      (TooLarge hooks c ((text ++ renderMembers c.format depth members).length + 2)) := by
  induction members generalizing text p with
  | nil =>
    refine Attempt.runs_done ?_
    rwa [renderMembers, List.append_nil]
  | cons m members ih =>
    obtain ⟨⟨hname, hm⟩, hmembers⟩ := List.forall_mem_cons.mp hmembers
    simp only [renderMembers, ← List.append_assoc]
    -- indentation, name, colon, value, comma and line end
    refine (runs_within (putIndent_runs hp)
      (by simp only [List.length_append]; omega)).andThen fun p₁ hp₁ => ?_
    refine printName_andThen hp₁ hname
      (by simp only [List.length_append]; omega) fun p₂ hp₂ => ?_
    refine (runs_within (putColon_runs hp₂)
      (by simp only [List.length_append]; omega)).andThen fun p₃ hp₃ => ?_
    refine hm.andThen hp₃
      (by simp only [List.length_append]; omega) fun p₄ hp₄ => ?_
    refine (runs_within (putMemberEnd_runs hp₄ members.isEmpty)
      (by simp only [List.length_append]; omega)).andThen fun p₅ hp₅ => ?_
    exact ih hmembers hp₅

/-- Every tree is printed as its text, if there is room for the text and its spare bytes. -/
theorem prints_of_fits {levels : Nat} {v : CJSON} (hv : Fits levels v)
    (hstrings : StringsFit hooks.sizeBits v) : Prints hooks c v := by
  -- one case for each branch of `print_value`
  induction hv with
  | null | false | true =>
    intro depth text p hp
    rw [printValue, render]
    exact put_written hp 0 (by decide) (.inl rfl) (by decide) two_pos
  | number hd =>
    intro depth text p hp
    rw [printValue, render]
    exact printNumber_runs hp hd
  | @string _ s =>
    intro depth text p hp
    rw [printValue, render]
    exact printStringPtr_runs hp (hstrings s (by simp [CJSON.strings]))
  | @array levels items _ ih =>
    intro depth text p hp
    have hitems : ∀ v ∈ items, Prints hooks c v := fun v hv =>
      ih v hv (stringsFit_elements.mp hstrings v hv)
    rw [printValue, render]
    have hsplit : text ++ '['.toUInt8 ::
        (renderElements c.format (depth + 1) items ++ [']'.toUInt8]) =
          text ++ ['['.toUInt8] ++ renderElements c.format (depth + 1) items ++
            [']'.toUInt8] := by
      simp
    -- bracket, elements and bracket, the elements one level deeper
    rw [hsplit]
    refine (runs_within (putOpenArray_runs hp)
      (by simp only [List.length_append, spareBytes]; omega)).andThen fun p₁ hp₁ => ?_
    refine (deeper_runs hp₁).andThen fun p₂ hp₂ => ?_
    refine (runs_within (printElements_runs hitems hp₂)
      (by simp only [List.length_append, spareBytes]; omega)).andThen fun p₃ hp₃ => ?_
    exact (putCloseArray_runs hp₃).andThen fun p₄ hp₄ => shallower_runs hp₄
  | @object levels members _ ih =>
    intro depth text p hp
    have hmembers : ∀ m ∈ members, (quote (Prod.fst m)).length + 1 < 2 ^ hooks.sizeBits ∧
        Prints hooks c (Prod.snd m) := fun m hm =>
      have hfit := stringsFit_members.mp hstrings m hm
      ⟨hfit.1, ih m hm hfit.2⟩
    rw [printValue, render]
    -- brace, members and the indented brace
    simp only [List.append_assoc]
    rw [← List.append_assoc, ← List.append_assoc]
    refine (runs_within (putOpen_runs hp)
      (by simp only [List.length_append, spareBytes]; omega)).andThen fun p₁ hp₁ => ?_
    refine (deeper_runs hp₁).andThen fun p₂ hp₂ => ?_
    refine (runs_within (printMembers_runs hmembers hp₂)
      (by simp only [List.length_append, spareBytes]; omega)).andThen fun p₃ hp₃ => ?_
    exact (putClose_runs hp₃).andThen fun p₄ hp₄ => shallower_runs hp₄

/-! ## Entry points -/

theorem resize_length (junk : Nat → UInt8) (block : List UInt8) (n : Nat) :
    (resize junk block n).length = n := by
  simp [resize]

/-- The settings of a buffer that can grow. -/
def PrintConfig.growing (format : Bool) : PrintConfig where
  format := format
  noalloc := false
  limit := INT_MAX.toNat
  limit_le := by decide
  limit_eq := fun _ => rfl

/-- The settings of a buffer of `len` bytes that cannot grow. -/
def PrintConfig.preallocated (format : Bool) (len : Nat) (hlen : len ≤ INT_MAX) : PrintConfig where
  format := format
  noalloc := true
  limit := len
  limit_le := hlen
  limit_eq := nofun

/-- What a function that prints to a new block returns: no error stops it, the block it
    returns holds the text, and it returns one unless a request is refused or the text is too
    large for an `int`. -/
def ReturnsText (hooks : Hooks) (format : Bool) (v : CJSON)
    (result : Except Fault (Option (List UInt8))) : Prop :=
  ∃ block, result = .ok block ∧
    (∀ b ∈ block, CString.ofBytes b = renderText format v) ∧
    (hooks.Granting → (block.isSome ↔ (render format 0 v).length + spareBytes v ≤ INT_MAX))

theorem ofBytes_render (format : Bool) (v : CJSON) (rest : List UInt8) :
    CString.ofBytes (render format 0 v ++ 0 :: rest) = renderText format v :=
  CString.ofBytes_append_cons_zero (noNul_render format 0 v) rest

/-- Printing into the caller's block succeeds exactly if the text and the spare bytes fit
    `len`; it never writes outside of the block. -/
theorem cJSONPrintPreallocated_spec (hooks : Hooks) (format : Bool) {levels : Nat} {v : CJSON}
    (hv : Fits levels v) (hstrings : StringsFit hooks.sizeBits v) {buf : List UInt8} {len : Nat}
    (hbuf : len ≤ buf.length) (hlen : len ≤ INT_MAX) :
    ∃ ok buf', cJSONPrintPreallocated hooks v (some buf) len format = .ok (ok, buf') ∧
      (ok = true ↔ (render format 0 v).length + spareBytes v ≤ len) ∧
      (ok = true → ∃ block ∈ buf', CString.ofBytes block = renderText format v) := by
  have hready : Ready hooks (.preallocated format len hlen) 0 []
      { buffer := some buf, length := len, noalloc := true, format := format, requests := 0 } := by
    refine ⟨⟨rfl, rfl, rfl, le_rfl, fun _ => rfl⟩, ⟨buf, rfl, ?_, .inl rfl⟩, rfl, ?_⟩
    · simpa using hbuf
    · exact (Nat.eq_zero_or_pos len).imp id id
  obtain ⟨ok, p, hrun, hsuccess, hfailure⟩ := prints_of_fits hv hstrings 0 [] _ hready
  rw [List.nil_append] at hsuccess hfailure
  refine ⟨ok, p.buffer, ?_, ?_, fun hok => ?_⟩
  -- no check of the caller's arguments fails, so `print_value` is run
  · rw [cJSONPrintPreallocated, if_neg (by simp), Int.toNat_natCast, hrun]
    rfl
  · cases ok with
    | true =>
      -- the length is still `len`, and the text is in it with its spare bytes
      have hroom := (hsuccess rfl).room
      rw [(hsuccess rfl).settings.length_eq rfl] at hroom
      exact iff_of_true rfl hroom
    | false => exact iff_of_false Bool.false_ne_true (not_le.mpr (hfailure rfl (.inl rfl)))
  · obtain ⟨rest, hbuffer, -⟩ := (hsuccess hok).block
    exact ⟨_, hbuffer, ofBytes_render format v rest⟩

/-- `[-0,{"a\nb":"\u0001\"","sum":0.30000000000000004,"huge":1e999}]`, where the sum needs all
    17 digits. -/
def sampleTree : CJSON :=
  .array [.number .negZero, .object [(.lit "a\nb", .string (.lit "\u0001\"")),
    (.lit "sum", .number (.finite (1351079888211149 / 4503599627370496))),
    (.lit "huge", .number (.infinite Bool.false))]]

theorem representable_sampleSum :
    Binary64.Representable (1351079888211149 / 4503599627370496) :=
  Binary64.representable_of_nearest
    (show Binary64.nearest (1351079888211149 / 4503599627370496) = _ by decide +kernel)

theorem fits_sampleTree (levels : Nat) : Fits (levels + 2) sampleTree := by
  refine .array fun v hv => ?_
  rcases List.mem_pair.mp hv with rfl | rfl
  · exact .number trivial
  · refine .object fun m hm => ?_
    rcases List.mem_cons.mp hm with rfl | hm
    · exact .string
    · rcases List.mem_pair.mp hm with rfl | rfl
      · exact .number representable_sampleSum
      · exact .number trivial

theorem stringsFit_sampleTree : StringsFit 64 sampleTree := by
  unfold StringsFit
  decide +kernel

/-- The text has 62 characters, and the bracket at its end asks for two bytes more. -/
theorem cJSONPrintPreallocated_sampleTree :
    ∃ ok buf', cJSONPrintPreallocated .generous sampleTree (some (List.replicate 70 7)) 64 false =
        .ok (ok, buf') ∧
      (ok = true ↔ (render false 0 sampleTree).length + spareBytes sampleTree ≤ 64) ∧
      (ok = true → ∃ block ∈ buf', CString.ofBytes block = renderText false sampleTree) :=
  cJSONPrintPreallocated_spec .generous false (fits_sampleTree 0) stringsFit_sampleTree
    (by decide) (by decide)

/-- Into a block that can grow, a tree is printed if its text is not too large. -/
private theorem printValue_growing {format : Bool} {levels : Nat} {v : CJSON} (hv : Fits levels v)
    (hstrings : StringsFit hooks.sizeBits v) (hp : Ready hooks (.growing format) 0 [] p) :
    ∃ ok p', printValue hooks v p = .ok (ok, p') ∧
      (ok = true → Written (.growing format) 0 (render format 0 v) (spareBytes v) p') ∧
      (hooks.Granting → (ok = true ↔ (render format 0 v).length + spareBytes v ≤ INT_MAX)) := by
  obtain ⟨ok, p', hrun, hsuccess, hfailure⟩ := prints_of_fits hv hstrings 0 [] p hp
  rw [List.nil_append] at hsuccess hfailure
  have hlimit : ((PrintConfig.growing format).limit : Int) = INT_MAX := rfl
  change ok = true → Written (.growing format) 0 (render format 0 v) (spareBytes v) p' at hsuccess
  change ok = false →
    TooLarge hooks (.growing format) ((render format 0 v).length + spareBytes v) at hfailure
  refine ⟨ok, p', hrun, hsuccess, fun hgrants => ?_⟩
  -- a failure is one of size, as nothing was refused
  cases ok with
  | true =>
    have hroom := (hsuccess rfl).room
    have hle := (hsuccess rfl).settings.length_le
    exact iff_of_true rfl (by omega)
  | false =>
    have hlarge := hfailure rfl (.inr hgrants)
    exact iff_of_false Bool.false_ne_true (by omega)

/-- A new block of `size` bytes, of which `length` are used. -/
private theorem ready_new {format : Bool} {size length : Nat} (hle : length ≤ size)
    (hmax : length ≤ INT_MAX) (hempty : 0 < size ∨ hooks.reallocate = true) :
    Ready hooks (.growing format) 0 []
      { buffer := some (resize (hooks.junk 0) [] size), length := length, noalloc := false
        format := format, requests := 1 } := by
  have hlimit : length ≤ INT_MAX.toNat := by omega
  refine ⟨⟨rfl, rfl, rfl, hlimit, nofun⟩, ⟨_, rfl, ?_, .inr ?_⟩, rfl, ?_⟩
  · simpa [resize_length] using hle
  · refine hempty.symm.imp id fun hpos => List.length_pos_iff.mp ?_
    exact hpos.trans_eq (resize_length _ _ _).symm
  · exact (Nat.eq_zero_or_pos length).imp id id

/-- The text is kept when the block is cut off or copied. -/
private theorem finishPrint_of_written (hooks : Hooks) {format : Bool} {v : CJSON} {spare : Nat}
    (hspare : 0 < spare) (hp : Written (.growing format) 0 (render format 0 v) spare p) :
    ∃ block, finishPrint hooks { p with offset := (render format 0 v).length } = .ok block ∧
      (∀ b ∈ block, CString.ofBytes b = renderText format v) ∧
      (hooks.Granting → block.isSome = true) := by
  obtain ⟨rest, hbuffer, hle⟩ := hp.block
  have hroom := hp.room
  have hlimit := hp.settings.length_le
  have hmax : ((PrintConfig.growing format).limit : Int) = INT_MAX := rfl
  generalize htext : render format 0 v = text at hbuffer hle hroom ⊢
  have hlen : (text ++ [0]).length = text.length + 1 := by simp
  by_cases hreallocate : hooks.reallocate = true
  -- `realloc` cuts the block off at its length
  · by_cases hgranted : hooks.grants p.requests p.length = true
    · obtain ⟨tail, hresize, -⟩ :=
        resize_append (hooks.junk p.requests) (text ++ [0]) rest (p.length - (text.length + 1))
      rw [hlen, Nat.add_sub_cancel' (by omega), List.append_assoc, List.singleton_append] at hresize
      refine ⟨some (text ++ [0] ++ tail), ?_, ?_, fun _ => rfl⟩
      · simp [finishPrint, hbuffer, hreallocate, hgranted, hresize]
      · rintro b ⟨⟩
        rw [List.append_assoc, ← htext]
        exact ofBytes_render format v tail
    · refine ⟨none, ?_, nofun, fun hgrants => absurd (hgrants _ _ (by omega)) hgranted⟩
      simp [finishPrint, hreallocate, hgranted]
  -- without `reallocate` the text is copied and terminated once more
  · by_cases hgranted : hooks.grants p.requests (text.length + 1) = true
    · obtain ⟨source, tail, htail, hread, hcopy⟩ := copy_grown (hooks.junk p.requests)
        (List.cons_ne_nil 0 rest) rfl (show text.length < text.length + 1 by omega)
      rw [Nat.add_sub_cancel_left] at htail
      have hend : memcpy (text ++ tail) text.length [0] = .ok (text ++ [0] ++ tail.drop 1) :=
        memcpy_append (by rw [htail]; rfl)
      have hmin : min p.length (text.length + 1) = text.length + 1 := min_eq_right (by omega)
      refine ⟨some (text ++ [0] ++ tail.drop 1), ?_, ?_, fun _ => rfl⟩
      · simp only [finishPrint, hbuffer, hreallocate, hgranted, Option.getD_some, hmin, hread,
          hcopy, Except.ok_bind, hend]
        rfl
      · rintro b ⟨⟩
        rw [List.append_assoc, ← htext]
        exact ofBytes_render format v _
    · refine ⟨none, ?_, nofun, fun hgrants => absurd (hgrants _ _ (by omega)) hgranted⟩
      simp [finishPrint, hreallocate, hgranted]

/-- A refused request is not the fault of the text. -/
private theorem returnsText_none {format : Bool} {v : CJSON} (h : ¬ hooks.Granting) :
    ReturnsText hooks format v (.ok none) :=
  ⟨none, rfl, nofun, fun hgrants => absurd hgrants h⟩

theorem cJSONPrintBuffered_returnsText (hooks : Hooks) (format : Bool) {levels : Nat} {v : CJSON}
    (hv : Fits levels v) (hstrings : StringsFit hooks.sizeBits v) {prebuffer : Int}
    (hprebuffer : 0 ≤ prebuffer ∧ prebuffer ≤ INT_MAX)
    (hempty : 0 < prebuffer ∨ hooks.reallocate = true) :
    ReturnsText hooks format v (cJSONPrintBuffered hooks v prebuffer format) := by
  obtain ⟨size, rfl⟩ := Int.eq_ofNat_of_zero_le hprebuffer.1
  rw [cJSONPrintBuffered, if_neg (not_lt.mpr hprebuffer.1), Int.toNat_natCast]
  -- the block of the caller's size is granted or not; then it grows as needed
  by_cases hgranted : hooks.grants 0 size = true
  · obtain ⟨ok, p, hrun, hwritten, hexact⟩ := printValue_growing hv hstrings
      (ready_new le_rfl hprebuffer.2 (hempty.imp Int.natCast_pos.mp id))
    rw [hgranted, hrun]
    cases ok with
    | false =>
      exact ⟨none, rfl, nofun, fun hgrants => by rw [← hexact hgrants]; simp⟩
    | true =>
      obtain ⟨rest, hbuffer, -⟩ := (hwritten rfl).block
      refine ⟨some (render format 0 v ++ 0 :: rest), congrArg Except.ok hbuffer, ?_,
        fun hgrants => by rw [← hexact hgrants]; simp⟩
      rintro b ⟨⟩
      exact ofBytes_render format v rest
  · rw [Bool.not_eq_true] at hgranted
    rw [hgranted]
    exact returnsText_none fun hgrants =>
      Bool.false_ne_true (hgranted.symm.trans (hgrants 0 size hprebuffer.2))

/-- `cJSON_Print` and `cJSON_PrintUnformatted`. -/
theorem print_returnsText (hooks : Hooks) (format : Bool) {levels : Nat} {v : CJSON}
    (hv : Fits levels v) (hstrings : StringsFit hooks.sizeBits v) :
    ReturnsText hooks format v (print hooks v format) := by
  rw [print]
  by_cases hgranted : hooks.grants 0 256 = true
  · obtain ⟨ok, p, hrun, hwritten, hexact⟩ := printValue_growing hv hstrings
      (ready_new (Nat.zero_le 256) (by decide) (.inl (by norm_num)))
    rw [hgranted, hrun]
    cases ok with
    | false => exact ⟨none, rfl, nofun, fun hgrants => by rw [← hexact hgrants]; simp⟩
    | true =>
      obtain ⟨block, hfinish, hblock, hsome⟩ :=
        finishPrint_of_written hooks (spareBytes_bounds v).1 (hwritten rfl)
      refine ⟨block, ?_, hblock, fun hgrants => ?_⟩
      · rw [← hfinish, Except.ok_bind]
        simp [updateOffset_eq (hwritten rfl)]
      · exact iff_of_true (hsome hgrants) ((hexact hgrants).mp rfl)
  · rw [Bool.not_eq_true] at hgranted
    rw [hgranted]
    exact returnsText_none fun hgrants =>
      Bool.false_ne_true (hgranted.symm.trans (hgrants 0 256 (by decide)))

end ArkInC.Native
