import ArkInC.ForStd.Utf
import ArkInC.Native.JsonPrint
import ArkInC.Spec.Grammar
import Mathlib.Data.Nat.Digits.Defs

/-!
# The characters of a string

What stands between the quotes of a string, and the bytes it means. A `\uXXXX` sequence, or
two for a surrogate pair, is the UTF-8 encoding of its character. `parse_hex4` does not tell
an invalid digit from the code zero, so that `\uZZZZ` is read as a NUL too.

## Key results

- `parseHex4_eq_iff`: the values that `parse_hex4` reads from digits, and those it cannot tell
- `utf16LiteralToUtf8_eq_some_iff`: a sequence is read as the character it is the UTF-16 of
- `unescape_eq_some_iff`: the bytes that a text between quotes means
- `parseString_eq_some_iff_decodes`: the strings that are accepted, and what they mean
- `parseString_escapeUnicode`: every Unicode text can be written in ASCII
-/

namespace ArkInC.Native

open Utf

/-! ## Code points -/

private theorem utf8Encode_one {n : Nat} (h : n < 0x80) : utf8Encode 1 0 n = [n.toUInt8] := by
  have hmark : ∀ a < 0x80, a &&& 0x7F = a := by decide
  change [(n &&& 0x7F).toUInt8] = _
  rw [hmark n h]

private theorem utf8Encode_two {n : Nat} (h : n < 0x800) :
    utf8Encode 2 0xC0 n = [(n / 0x40 % 0x20 + 0xC0).toUInt8, (n % 0x40 + 0x80).toUInt8] := by
  have hmark : ∀ a < 0x20, (a ||| 0xC0) &&& 0xFF = a % 0x20 + 0xC0 := by decide
  change [((n >>> 6 ||| 0xC0) &&& 0xFF).toUInt8, ((n ||| 0x80) &&& 0xBF).toUInt8] = _
  rw [Nat.shiftRight_eq_div_pow, hmark _ (Nat.div_lt_of_lt_mul h), continuation_eq]

private theorem utf8Encode_three {n : Nat} (h : n < 0x10000) :
    utf8Encode 3 0xE0 n = [(n / 0x1000 % 0x10 + 0xE0).toUInt8, (n / 0x40 % 0x40 + 0x80).toUInt8,
      (n % 0x40 + 0x80).toUInt8] := by
  have hmark : ∀ a < 0x10, (a ||| 0xE0) &&& 0xFF = a % 0x10 + 0xE0 := by decide
  change [((n >>> 6 >>> 6 ||| 0xE0) &&& 0xFF).toUInt8, ((n >>> 6 ||| 0x80) &&& 0xBF).toUInt8,
    ((n ||| 0x80) &&& 0xBF).toUInt8] = _
  rw [← Nat.shiftRight_add, Nat.shiftRight_eq_div_pow, Nat.shiftRight_eq_div_pow,
    hmark _ (Nat.div_lt_of_lt_mul h), continuation_eq, continuation_eq]

private theorem utf8Encode_four {n : Nat} (h : n < 0x110000) :
    utf8Encode 4 0xF0 n = [(n / 0x40000 % 0x08 + 0xF0).toUInt8,
      (n / 0x1000 % 0x40 + 0x80).toUInt8, (n / 0x40 % 0x40 + 0x80).toUInt8,
      (n % 0x40 + 0x80).toUInt8] := by
  have hmark : ∀ a < 0x08, (a ||| 0xF0) &&& 0xFF = a % 0x08 + 0xF0 := by decide
  change [((n >>> 6 >>> 6 >>> 6 ||| 0xF0) &&& 0xFF).toUInt8,
    ((n >>> 6 >>> 6 ||| 0x80) &&& 0xBF).toUInt8, ((n >>> 6 ||| 0x80) &&& 0xBF).toUInt8,
    ((n ||| 0x80) &&& 0xBF).toUInt8] = _
  rw [← Nat.shiftRight_add, ← Nat.shiftRight_add, Nat.shiftRight_eq_div_pow,
    Nat.shiftRight_eq_div_pow, Nat.shiftRight_eq_div_pow,
    hmark _ (Nat.div_lt_of_lt_mul (h.trans (by decide))), continuation_eq, continuation_eq,
    continuation_eq, Nat.div_div_eq_div_mul]

/-- The last step of `utf16_literal_to_utf8`: the length of the encoding from the codepoint. -/
def encodeCodepoint (codepoint sequenceLength : Nat) : Option (List UInt8 × Nat) :=
  if codepoint < 0x80 then some (utf8Encode 1 0 codepoint, sequenceLength)
  else if codepoint < 0x800 then some (utf8Encode 2 0xC0 codepoint, sequenceLength)
  else if codepoint < 0x10000 then some (utf8Encode 3 0xE0 codepoint, sequenceLength)
  else if codepoint ≤ 0x10FFFF then some (utf8Encode 4 0xF0 codepoint, sequenceLength)
  else none

/-- A codepoint that is a character is encoded as that character. -/
theorem encodeCodepoint_char (c : Char) (sequenceLength : Nat) :
    encodeCodepoint c.toNat sequenceLength = some (String.utf8EncodeChar c, sequenceLength) := by
  have hvalid : c.toNat < 0xD800 ∨ 0xDFFF < c.toNat ∧ c.toNat < 0x110000 := c.valid
  have hval : c.val.toNat = c.toNat := rfl
  simp only [encodeCodepoint, String.utf8EncodeChar, hval]
  generalize c.toNat = n at hvalid
  -- the limits of the source are those of UTF-8, as a character is no surrogate
  by_cases h₁ : n < 0x80
  · rw [if_pos h₁, if_pos (Nat.le_of_lt_succ h₁), utf8Encode_one h₁]
  have h₁' : ¬ n ≤ 0x7F := by omega
  by_cases h₂ : n < 0x800
  · rw [if_neg h₁, if_pos h₂, if_neg h₁', if_pos (Nat.le_of_lt_succ h₂), utf8Encode_two h₂]
  have h₂' : ¬ n ≤ 0x7FF := by omega
  by_cases h₃ : n < 0x10000
  · rw [if_neg h₁, if_neg h₂, if_pos h₃, if_neg h₁', if_neg h₂', if_pos (Nat.le_of_lt_succ h₃),
      utf8Encode_three h₃]
  have h₃' : ¬ n ≤ 0xFFFF := by omega
  have h₄ : n ≤ 0x10FFFF := by omega
  rw [if_neg h₁, if_neg h₂, if_neg h₃, if_pos h₄, if_neg h₁', if_neg h₂', if_neg h₃',
    utf8Encode_four (Nat.lt_succ_of_le h₄)]

/-! ## Escape sequences -/

/-- `c` is the hexadecimal digit of the value `d`, of either letter case. -/
def IsHexDigit (c : UInt8) (d : Nat) : Prop :=
  (ascii "0123456789abcdef")[d]? = some c ∨ (ascii "0123456789ABCDEF")[d]? = some c

instance (c : UInt8) (d : Nat) : Decidable (IsHexDigit c d) :=
  inferInstanceAs (Decidable (_ ∨ _))

/-- The code unit of four digits. Four characters of which one is no digit are taken for the
    unit zero. -/
inductive Hex4 : List UInt8 → Nat → Prop where
  | digits {text values} (hlen : text.length = 4) (h : List.Forall₂ IsHexDigit text values) :
    Hex4 text (Nat.ofDigits 16 values.reverse)
  | invalid {text c} (hlen : text.length = 4) (hc : c ∈ text) (h : ∀ d, ¬ IsHexDigit c d) :
    Hex4 text 0

/-- `\uXXXX` sequences, one for each code unit. -/
inductive Utf16Text : List Nat → List UInt8 → Prop where
  | nil : Utf16Text [] []
  | cons {unit units digits text} (hunit : Hex4 digits unit) (h : Utf16Text units text) :
    Utf16Text (unit :: units) ('\\'.toUInt8 :: 'u'.toUInt8 :: (digits ++ text))

theorem Hex4.length_eq {digits : List UInt8} {unit : Nat} (h : Hex4 digits unit) :
    digits.length = 4 := by
  cases h with
  | digits hlen => exact hlen
  | invalid hlen => exact hlen

theorem parseHex4_append {digits : List UInt8} (hlen : digits.length = 4) (rest : List UInt8) :
    parseHex4 (digits ++ rest) = parseHex4 digits := by
  rw [parseHex4, List.take_left' hlen, parseHex4, List.take_of_length_le hlen.le]

theorem hexDigit_lt {c : UInt8} {d : Nat} (h : hexDigit c = some d) : d < 16 := by
  simp only [hexDigit] at h
  -- the three branches of `parse_hex4`
  split_ifs at h with hdigit hupper hlower
  all_goals
    obtain rfl := Option.some.inj h
  · rw [UInt8.toNat_sub_of_le _ _ hdigit.1]
    have : c.toNat ≤ '9'.toUInt8.toNat := UInt8.le_iff_toNat_le.mp hdigit.2
    have : '9'.toUInt8.toNat = 57 := rfl
    have : '0'.toUInt8.toNat = 48 := rfl
    omega
  · rw [UInt8.toNat_sub_of_le _ _ hupper.1]
    have : c.toNat ≤ 'F'.toUInt8.toNat := UInt8.le_iff_toNat_le.mp hupper.2
    have : 'F'.toUInt8.toNat = 70 := rfl
    have : 'A'.toUInt8.toNat = 65 := rfl
    omega
  · rw [UInt8.toNat_sub_of_le _ _ hlower.1]
    have : c.toNat ≤ 'f'.toUInt8.toNat := UInt8.le_iff_toNat_le.mp hlower.2
    have : 'f'.toUInt8.toNat = 102 := rfl
    have : 'a'.toUInt8.toNat = 97 := rfl
    omega

/-- The parser knows the digits. -/
theorem hexDigit_eq_some_iff {c : UInt8} {d : Nat} : hexDigit c = some d ↔ IsHexDigit c d := by
  -- `decide` runs over all bytes and digits
  have hall : ∀ n < 256, ∀ d < 16,
      hexDigit (UInt8.ofNat n) = some d ↔ IsHexDigit (UInt8.ofNat n) d := by
    decide +kernel
  by_cases hd : d < 16
  · simpa using hall c.toNat c.toNat_lt d hd
  -- there is no digit of a value from 16 on
  · refine iff_of_false (fun h => hd (hexDigit_lt h)) ?_
    have hlower : (ascii "0123456789abcdef")[d]? = none := List.getElem?_eq_none (not_lt.mp hd)
    have hupper : (ascii "0123456789ABCDEF")[d]? = none := List.getElem?_eq_none (not_lt.mp hd)
    simp [IsHexDigit, hlower, hupper]

theorem mapM_hexDigit_eq_some_iff {text : List UInt8} {values : List Nat} :
    text.mapM hexDigit = some values ↔ List.Forall₂ IsHexDigit text values := by
  induction text generalizing values with
  | nil => simp [eq_comm]
  | cons c text ih =>
    simp only [List.mapM_cons, Option.bind_eq_bind, Option.bind_eq_some_iff, Option.pure_def,
      Option.some.injEq, hexDigit_eq_some_iff, ih, List.forall₂_cons_left_iff]
    constructor
    · rintro ⟨d, hd, values, hvalues, rfl⟩
      exact ⟨d, values, hd, hvalues, rfl⟩
    · rintro ⟨d, values, hd, hvalues, rfl⟩
      exact ⟨d, hd, values, hvalues, rfl⟩

theorem mapM_hexDigit_eq_none_iff {text : List UInt8} :
    text.mapM hexDigit = none ↔ ∃ c ∈ text, ∀ d, ¬ IsHexDigit c d := by
  have hnone : ∀ c, hexDigit c = none ↔ ∀ d, ¬ IsHexDigit c d := fun c => by
    simp only [← hexDigit_eq_some_iff, Option.eq_none_iff_forall_not_mem, Option.mem_def]
  induction text with
  | nil => simp
  | cons c text ih =>
    have hmapM : (c :: text).mapM hexDigit = none ↔ hexDigit c = none ∨
        text.mapM hexDigit = none := by
      rw [List.mapM_cons]
      cases hexDigit c with
      | none => simp
      | some d => cases text.mapM hexDigit <;> simp
    simp only [List.mem_cons, exists_eq_or_imp]
    exact hmapM.trans (or_congr (hnone c) ih)

/-- The digits are shifted in from the right. -/
theorem foldl_digits_eq_ofDigits (values : List Nat) :
    values.foldl (fun h d => h <<< 4 + d) 0 = Nat.ofDigits 16 values.reverse := by
  -- induction from the last digit, which is added behind a shift by four bits
  induction values using List.reverseRecOn with
  | nil => rfl
  | append_singleton values d ih =>
    rw [List.foldl_append, List.foldl_cons, List.foldl_nil, ih, List.reverse_append,
      List.reverse_singleton, List.singleton_append, Nat.ofDigits_cons, Nat.shiftLeft_eq]
    omega

/-- `parse_hex4` is the code unit of four characters. -/
theorem parseHex4_eq_iff {digits : List UInt8} (hlen : digits.length = 4) {unit : Nat} :
    parseHex4 digits = unit ↔ Hex4 digits unit := by
  -- the unit is determined by the digits, so it is enough that the parser finds one
  have hunique : Hex4 digits (parseHex4 digits) := by
    rw [parseHex4, List.take_of_length_le hlen.le]
    split
    · next hnone =>
      obtain ⟨c, hc, hinvalid⟩ := mapM_hexDigit_eq_none_iff.mp hnone
      exact .invalid hlen hc hinvalid
    · next values hvalues =>
      rw [foldl_digits_eq_ofDigits]
      exact .digits hlen (mapM_hexDigit_eq_some_iff.mp hvalues)
  constructor
  · rintro rfl
    exact hunique
  · intro h
    rw [parseHex4, List.take_of_length_le hlen.le]
    cases h with
    | digits _ h => rw [mapM_hexDigit_eq_some_iff.mpr h, ← foldl_digits_eq_ofDigits]
    | invalid _ hc h => rw [mapM_hexDigit_eq_none_iff.mpr ⟨_, hc, h⟩]

theorem digits_of_mapM {input : List UInt8} {digits : List Nat}
    (h : input.mapM hexDigit = some digits) :
    digits.length = input.length ∧ ∀ d ∈ digits, d < 16 := by
  induction input generalizing digits with
  | nil =>
    cases h
    exact ⟨rfl, List.forall_mem_nil _⟩
  | cons c input ih =>
    rw [List.mapM_cons] at h
    obtain ⟨d, hd, h⟩ := Option.bind_eq_some_iff.mp h
    obtain ⟨digits, hdigits, h⟩ := Option.bind_eq_some_iff.mp h
    cases h
    obtain ⟨hlen, hlt⟩ := ih hdigits
    exact ⟨congrArg (· + 1) hlen, List.forall_mem_cons.mpr ⟨hexDigit_lt hd, hlt⟩⟩

theorem foldl_digits_lt {digits : List Nat} (hdigits : ∀ d ∈ digits, d < 16) (h : Nat) :
    digits.foldl (fun h d => h <<< 4 + d) h < (h + 1) * 16 ^ digits.length := by
  induction digits generalizing h with
  | nil => simp
  | cons d digits ih =>
    obtain ⟨hd, hrest⟩ := List.forall_mem_cons.mp hdigits
    -- a digit moves the bound by a factor of 16
    have hstep : h <<< 4 + d + 1 ≤ (h + 1) * 16 := by
      rw [Nat.shiftLeft_eq]
      omega
    rw [List.foldl_cons, List.length_cons, pow_succ', ← mul_assoc]
    exact (ih hrest _).trans_le (Nat.mul_le_mul_right _ hstep)

/-- Four digits are a code unit. -/
theorem parseHex4_lt (input : List UInt8) : parseHex4 input < 0x10000 := by
  rw [parseHex4]
  split
  · decide
  · next digits hmapM =>
    obtain ⟨hlen, hdigits⟩ := digits_of_mapM hmapM
    have hle : digits.length ≤ 4 := hlen ▸ List.length_take_le 4 input
    calc digits.foldl (fun h d => h <<< 4 + d) 0
        < (0 + 1) * 16 ^ digits.length := foldl_digits_lt hdigits 0
      _ ≤ (0 + 1) * 16 ^ 4 := Nat.mul_le_mul_left _ (Nat.pow_le_pow_right (by decide) hle)

/-- The four digits behind `\u`. -/
private theorem exists_digits {rest : List UInt8} (h : 4 < rest.length) :
    ∃ digits left, rest = digits ++ left ∧ digits.length = 4 ∧ left ≠ [] := by
  refine ⟨rest.take 4, rest.drop 4, (List.take_append_drop 4 rest).symm, ?_, ?_⟩
  · exact List.length_take_of_le h.le
  · exact List.drop_eq_nil_iff.not.mpr (not_le.mpr h)

section

variable {digits low left : List UInt8}

private theorem length_sequence (hdigits : digits.length = 4) (hleft : left ≠ []) :
    ¬ ('\\'.toUInt8 :: 'u'.toUInt8 :: (digits ++ left)).length - 1 < 6 := by
  have := List.length_pos_of_ne_nil hleft
  simp only [List.length_cons, List.length_append, hdigits]
  omega

/-- A unit that is no surrogate is a character by itself. -/
theorem utf16LiteralToUtf8_unit (hdigits : digits.length = 4) (hleft : left ≠ []) {c : Char}
    (hunit : parseHex4 digits = c.toNat) :
    utf16LiteralToUtf8 ('\\'.toUInt8 :: 'u'.toUInt8 :: (digits ++ left)) =
      some (String.utf8EncodeChar c, 6) := by
  -- a character is no surrogate, so the source takes its code as it is
  obtain ⟨hhigh, hlow⟩ := not_surrogate c
  have hcode : parseHex4 (digits ++ left) = c.toNat := (parseHex4_append hdigits left).trans hunit
  simp only [utf16LiteralToUtf8, if_neg (length_sequence hdigits hleft), List.drop_succ_cons,
    List.drop_zero, hcode]
  rw [if_neg (show ¬ (0xDC00 ≤ c.toNat ∧ c.toNat ≤ 0xDFFF) from hlow),
    if_neg (show ¬ (0xD800 ≤ c.toNat ∧ c.toNat ≤ 0xDBFF) from hhigh)]
  exact encodeCodepoint_char c 6

/-- A high surrogate needs a low one behind it. -/
theorem utf16LiteralToUtf8_pair (hdigits : digits.length = 4) (hlow : low.length = 4)
    (hleft : left ≠ []) {c : Char} (hfirst : IsHighSurrogate (parseHex4 digits))
    (hsecond : IsLowSurrogate (parseHex4 low))
    (hcode : codepoint (parseHex4 digits) (parseHex4 low) = c.toNat) :
    utf16LiteralToUtf8 ('\\'.toUInt8 :: 'u'.toUInt8 :: (digits ++
        '\\'.toUInt8 :: 'u'.toUInt8 :: (low ++ left))) =
      some (String.utf8EncodeChar c, 12) := by
  have hfirst' := parseHex4_append hdigits ('\\'.toUInt8 :: 'u'.toUInt8 :: (low ++ left))
  have hsecond' := parseHex4_append hlow left
  have hpos := List.length_pos_of_ne_nil hleft
  have hlen₆ : ¬ ('\\'.toUInt8 :: 'u'.toUInt8 :: (digits ++
      '\\'.toUInt8 :: 'u'.toUInt8 :: (low ++ left))).length - 1 < 6 :=
    length_sequence hdigits (List.cons_ne_nil _ _)
  -- twelve characters and one behind them are there, as the source wants it
  have hlen₁₂ : ¬ ('\\'.toUInt8 :: 'u'.toUInt8 :: (digits ++
      '\\'.toUInt8 :: 'u'.toUInt8 :: (low ++ left))).length - 1 < 12 := by
    simp only [List.length_cons, List.length_append, hdigits, hlow]
    omega
  have hnotlow : ¬ (0xDC00 ≤ parseHex4 digits ∧ parseHex4 digits ≤ 0xDFFF) := by
    simp only [IsHighSurrogate] at hfirst
    omega
  have hinrange : ¬ (parseHex4 low < 0xDC00 ∨ 0xDFFF < parseHex4 low) := by
    simp only [IsLowSurrogate] at hsecond
    omega
  simp only [utf16LiteralToUtf8, if_neg hlen₆, if_neg hlen₁₂, List.drop_succ_cons, List.drop_zero,
    List.drop_left' hdigits, hfirst', hsecond', if_neg hnotlow, if_neg hinrange,
    bufferAtOffset_cons, ne_eq, not_true, or_self, if_false]
  rw [if_pos (show 0xD800 ≤ parseHex4 digits ∧ parseHex4 digits ≤ 0xDBFF from hfirst)]
  have hencode := encodeCodepoint_char c 12
  rw [← hcode] at hencode
  exact hencode

/-- The first unit is no low surrogate. -/
private theorem not_low_of_utf16LiteralToUtf8 (hdigits : digits.length = 4)
    {result : List UInt8 × Nat}
    (h : utf16LiteralToUtf8 ('\\'.toUInt8 :: 'u'.toUInt8 :: (digits ++ left)) = some result) :
    ¬ IsLowSurrogate (parseHex4 digits) := by
  intro hlow
  rw [utf16LiteralToUtf8] at h
  simp only [List.drop_succ_cons, List.drop_zero, parseHex4_append hdigits,
    if_pos (show 0xDC00 ≤ parseHex4 digits ∧ parseHex4 digits ≤ 0xDFFF from hlow), ite_self,
    reduceCtorEq] at h

/-- Behind a high surrogate stands a sequence with a low one. -/
private theorem exists_low_of_utf16LiteralToUtf8 (hdigits : digits.length = 4)
    {result : List UInt8 × Nat} (hfirst : IsHighSurrogate (parseHex4 digits))
    (h : utf16LiteralToUtf8 ('\\'.toUInt8 :: 'u'.toUInt8 :: (digits ++ left)) = some result) :
    ∃ low left', left = '\\'.toUInt8 :: 'u'.toUInt8 :: (low ++ left') ∧ low.length = 4 ∧
      left' ≠ [] ∧ IsLowSurrogate (parseHex4 low) := by
  have hnotlow := not_low_of_utf16LiteralToUtf8 hdigits h
  simp only [utf16LiteralToUtf8, List.drop_succ_cons, List.drop_zero, parseHex4_append hdigits,
    List.drop_left' hdigits] at h
  rw [if_neg (show ¬ (0xDC00 ≤ parseHex4 digits ∧ parseHex4 digits ≤ 0xDFFF) from hnotlow),
    if_pos (show 0xD800 ≤ parseHex4 digits ∧ parseHex4 digits ≤ 0xDBFF from hfirst)] at h
  -- every other exit of the source returns zero
  split_ifs at h with _ hlen hstart hrange
  obtain ⟨hslash, hu⟩ := not_or.mp hstart
  obtain ⟨next, rfl⟩ := exists_cons_of_bufferAtOffset (by decide) (not_not.mp hslash)
  obtain ⟨next, rfl⟩ := exists_cons_of_bufferAtOffset (by decide) (not_not.mp hu)
  simp only [List.length_cons, List.length_append, hdigits] at hlen
  obtain ⟨low, left', rfl, hlow, hleft⟩ := exists_digits (show 4 < next.length by omega)
  simp only [List.drop_succ_cons, List.drop_zero, parseHex4_append hlow] at hrange
  refine ⟨low, left', rfl, hlow, hleft, ?_⟩
  simp only [IsLowSurrogate]
  omega

end

/-- A sequence is read as the character it is the UTF-16 of, if it ends in front of the
    closing quote. -/
theorem utf16LiteralToUtf8_eq_some_iff {rest output : List UInt8} {n : Nat} :
    utf16LiteralToUtf8 ('\\'.toUInt8 :: 'u'.toUInt8 :: rest) = some (output, n) ↔
      ∃ c text left, Utf16Text (units c) text ∧ left ≠ [] ∧
        '\\'.toUInt8 :: 'u'.toUInt8 :: rest = text ++ left ∧
        output = String.utf8EncodeChar c ∧ n = text.length := by
  constructor
  · intro h
    -- with fewer digits the source gives up
    have hrest : 4 < rest.length := by
      by_contra hshort
      rw [utf16LiteralToUtf8, if_pos (by simp only [List.length_cons]; omega)] at h
      cases h
    obtain ⟨digits, left, rfl, hdigits, hleft⟩ := exists_digits hrest
    have hlow := not_low_of_utf16LiteralToUtf8 hdigits h
    by_cases hhigh : IsHighSurrogate (parseHex4 digits)
    -- a surrogate pair is one character
    · obtain ⟨low, left, rfl, hlength, hleft, hsecond⟩ :=
        exists_low_of_utf16LiteralToUtf8 hdigits hhigh h
      obtain ⟨c, hcode, -, hunits⟩ := exists_char_of_surrogates hhigh hsecond
      rw [utf16LiteralToUtf8_pair hdigits hlength hleft hhigh hsecond hcode.symm] at h
      cases h
      have htext := Utf16Text.cons ((parseHex4_eq_iff hdigits).mp rfl)
        (.cons ((parseHex4_eq_iff hlength).mp rfl) .nil)
      rw [← hunits] at htext
      refine ⟨c, _, left, htext, hleft, ?_, rfl, ?_⟩
      · simp
      · simp [hdigits, hlength]
    -- any other unit is a character by itself
    · obtain ⟨c, hc⟩ := exists_char_of_unit (parseHex4_lt digits) hhigh hlow
      rw [utf16LiteralToUtf8_unit hdigits hleft hc.symm] at h
      cases h
      have htext := Utf16Text.cons ((parseHex4_eq_iff hdigits).mp hc.symm) .nil
      rw [← units_of_lt (hc ▸ parseHex4_lt digits)] at htext
      refine ⟨c, _, left, htext, hleft, ?_, rfl, ?_⟩
      · simp
      · simp [hdigits]
  · rintro ⟨c, text, left, htext, hleft, hrest, rfl, rfl⟩
    rw [hrest]
    by_cases hlt : c.toNat < 0x10000
    · rw [units_of_lt hlt] at htext
      cases htext with
      | @cons _ _ digits text hunit htext =>
        cases htext
        have hdigits := hunit.length_eq
        rw [← parseHex4_eq_iff hdigits] at hunit
        simpa [hdigits] using utf16LiteralToUtf8_unit hdigits hleft hunit
    · obtain ⟨high, low, hunits, hhigh, hlow, hcode⟩ := units_of_ge (not_lt.mp hlt)
      rw [hunits] at htext
      cases htext with
      | @cons _ _ digits text hunit htext =>
        cases htext with
        | @cons _ _ digits' text hunit' htext =>
          cases htext
          have hdigits := hunit.length_eq
          have hdigits' := hunit'.length_eq
          rw [← parseHex4_eq_iff hdigits] at hunit
          rw [← parseHex4_eq_iff hdigits'] at hunit'
          subst hunit hunit'
          simpa [hdigits, hdigits'] using
            utf16LiteralToUtf8_pair hdigits hdigits' hleft hhigh hlow hcode

/-- The letters behind a backslash, and the characters they mean. -/
def shortEscapes : List (UInt8 × UInt8) :=
  [('b'.toUInt8, 8), ('f'.toUInt8, 12), ('n'.toUInt8, 10), ('r'.toUInt8, 13), ('t'.toUInt8, 9),
    ('"'.toUInt8, '"'.toUInt8), ('\\'.toUInt8, '\\'.toUInt8), ('/'.toUInt8, '/'.toUInt8)]

theorem ne_u_of_mem_shortEscapes {letter c : UInt8} (h : (letter, c) ∈ shortEscapes) :
    letter ≠ 'u'.toUInt8 := by
  rintro rfl
  have hletters : 'u'.toUInt8 ∈ shortEscapes.map Prod.fst := List.mem_map_of_mem h
  exact absurd hletters (by decide)

theorem escapeSequence_eq_some_iff {letter : UInt8} (hletter : letter ≠ 'u'.toUInt8)
    {rest output : List UInt8} {n : Nat} :
    escapeSequence ('\\'.toUInt8 :: letter :: rest) = some (output, n) ↔
      ∃ c, (letter, c) ∈ shortEscapes ∧ output = [c] ∧ n = 2 := by
  simp only [escapeSequence, List.drop_succ_cons, List.drop_zero, bufferAtOffset_cons,
    if_neg hletter, shortEscapes, List.mem_cons, Prod.mk.injEq, List.not_mem_nil, or_false]
  constructor
  · intro h
    -- eight letters, and nothing for the others
    split_ifs at h <;> cases h <;> simp_all
  · rintro ⟨c, hc, rfl, rfl⟩
    rcases hc with ⟨rfl, rfl⟩ | ⟨rfl, rfl⟩ | ⟨rfl, rfl⟩ | ⟨rfl, rfl⟩ | ⟨rfl, rfl⟩ | ⟨rfl, rfl⟩ |
      ⟨rfl, rfl⟩ | ⟨rfl, rfl⟩ <;> rfl

/-! ## The text between the quotes -/

theorem unescape_plain {c : UInt8} {rest : List UInt8} (hc : c ≠ '\\'.toUInt8)
    (hrest : rest ≠ []) : unescape 0 (c :: rest) = (unescape 0 rest).map (c :: ·) := by
  obtain ⟨d, rest, rfl⟩ := List.exists_cons_of_ne_nil hrest
  rw [unescape, if_pos hc]
  exact nofun

theorem unescape_escaped {rest output : List UInt8} {n : Nat} (hrest : rest ≠ [])
    (h : escapeSequence ('\\'.toUInt8 :: rest) = some (output, n)) :
    unescape 0 ('\\'.toUInt8 :: rest) = (unescape (n - 1) rest).map (output ++ ·) := by
  obtain ⟨d, rest, rfl⟩ := List.exists_cons_of_ne_nil hrest
  rw [unescape, if_neg (not_not.mpr rfl), h]
  exact nofun

/-- The characters of an escape sequence that was decoded are stepped over. -/
theorem unescape_skip (taken : List UInt8) {rest : List UInt8} (hrest : rest ≠ []) :
    unescape taken.length (taken ++ rest) = unescape 0 rest := by
  -- induction on what is left to step over
  induction taken with
  | nil => rfl
  | cons c taken ih =>
    obtain ⟨d, tail, htail⟩ :=
      List.exists_cons_of_ne_nil (List.append_ne_nil_of_right_ne_nil taken hrest)
    rw [List.length_cons, List.cons_append, htail, unescape, ← htail, ih]
    exact nofun

theorem unescape_sequence (taken : List UInt8) {left output : List UInt8} (hleft : left ≠ [])
    (h : escapeSequence ('\\'.toUInt8 :: (taken ++ left)) = some (output, taken.length + 1)) :
    unescape 0 ('\\'.toUInt8 :: (taken ++ left)) = (unescape 0 left).map (output ++ ·) := by
  rw [unescape_escaped (List.append_ne_nil_of_right_ne_nil taken hleft) h, Nat.add_sub_cancel,
    unescape_skip taken hleft]

/-- The bytes that a text between quotes means. -/
inductive Decodes : List UInt8 → List UInt8 → Prop where
  | nil : Decodes [] []
  | plain {c body output} (hc : c ≠ '\\'.toUInt8) (h : Decodes body output) :
    Decodes (c :: body) (c :: output)
  | short {letter c body output} (hc : (letter, c) ∈ shortEscapes) (h : Decodes body output) :
    Decodes ('\\'.toUInt8 :: letter :: body) (c :: output)
  | unicode {c text body output} (htext : Utf16Text (units c) text) (h : Decodes body output) :
    Decodes (text ++ body) (String.utf8EncodeChar c ++ output)
  -- the first half of an escaped backslash may belong to a sequence with an invalid digit; the
  -- other half then takes the closing quote with it
  | closing : Decodes ['\\'.toUInt8] ['"'.toUInt8]

theorem exists_cons_of_utf16Text {c : Char} {text : List UInt8} (h : Utf16Text (units c) text) :
    ∃ taken, text = '\\'.toUInt8 :: 'u'.toUInt8 :: taken := by
  have hne : units c ≠ [] := by
    rw [units]
    split <;> exact List.cons_ne_nil _ _
  generalize units c = unit at h hne
  cases h with
  | nil => contradiction
  | cons => exact ⟨_, rfl⟩

theorem unescape_of_decodes {body output : List UInt8} (h : Decodes body output) :
    unescape 0 (body ++ ['"'.toUInt8]) = some output := by
  have hne : ∀ left : List UInt8, left ++ ['"'.toUInt8] ≠ [] := fun left => by simp
  induction h with
  | nil => rfl
  | plain hc _ ih => rw [List.cons_append, unescape_plain hc (hne _), ih, Option.map_some]
  | @short letter c body output hc _ ih =>
    have hletter := ne_u_of_mem_shortEscapes hc
    have hescape : escapeSequence ('\\'.toUInt8 :: letter :: (body ++ ['"'.toUInt8])) =
        some ([c], 2) := (escapeSequence_eq_some_iff hletter).mpr ⟨c, hc, rfl, rfl⟩
    rw [List.cons_append, List.cons_append]
    exact (unescape_sequence [letter] (hne _) hescape).trans (by rw [ih]; rfl)
  | @unicode c text body output htext _ ih =>
    -- the sequence is read as a whole, as the quote is behind it
    obtain ⟨taken, rfl⟩ := exists_cons_of_utf16Text htext
    have hescape := utf16LiteralToUtf8_eq_some_iff.mpr
      ⟨c, _, body ++ ['"'.toUInt8], htext, hne _, rfl, rfl, rfl⟩
    rw [List.append_assoc]
    exact (unescape_sequence ('u'.toUInt8 :: taken) (hne _) hescape).trans (by rw [ih]; rfl)
  | closing => rfl

private theorem exists_of_append_singleton {body taken left : List UInt8} {c : UInt8}
    (hleft : left ≠ []) (h : body ++ [c] = taken ++ left) :
    ∃ left', body = taken ++ left' ∧ left = left' ++ [c] := by
  have hlast := List.dropLast_append_getLast hleft
  have hsame := congrArg List.dropLast h
  rw [List.dropLast_concat, List.dropLast_append_of_ne_nil hleft] at hsame
  refine ⟨left.dropLast, hsame, ?_⟩
  -- what is left ends with the same character as the whole
  rw [hsame, List.append_assoc, List.append_cancel_left_eq] at h
  exact h.symm

/-- Behind a backslash, if the texts that are shorter are decoded. -/
private theorem decodes_of_escaped {body output : List UInt8}
    (ih : ∀ {left output : List UInt8}, left.length < body.length + 1 →
      unescape 0 (left ++ ['"'.toUInt8]) = some output → Decodes left output)
    (h : unescape 0 ('\\'.toUInt8 :: body ++ ['"'.toUInt8]) = some output) :
    Decodes ('\\'.toUInt8 :: body) output := by
  have hne : ∀ left : List UInt8, left ++ ['"'.toUInt8] ≠ [] := fun left => by simp
  rw [List.cons_append] at h
  cases hescape : escapeSequence ('\\'.toUInt8 :: (body ++ ['"'.toUInt8])) with
  | none =>
    obtain ⟨d, rest, hrest⟩ := List.exists_cons_of_ne_nil (hne body)
    rw [hrest] at h hescape
    rw [unescape, if_neg (not_not.mpr rfl), hescape] at h
    · cases h
    · exact nofun
  | some result =>
    obtain ⟨bytes, n⟩ := result
    -- a backslash in front of the closing quote, or in front of a letter
    match body with
    | [] =>
      cases hescape
      cases h
      exact .closing
    | letter :: body =>
      by_cases hletter : letter = 'u'.toUInt8
      · subst hletter
        obtain ⟨c, text, left, htext, hleft, hrest, rfl, rfl⟩ :=
          utf16LiteralToUtf8_eq_some_iff.mp hescape
        obtain ⟨taken, rfl⟩ := exists_cons_of_utf16Text htext
        have hsplit : body ++ ['"'.toUInt8] = taken ++ left :=
          (List.cons_injective.comp List.cons_injective) hrest
        -- the sequence ends in front of the closing quote
        obtain ⟨left, rfl, rfl⟩ := exists_of_append_singleton hleft hsplit
        have hstep := unescape_sequence ('u'.toUInt8 :: taken) (hne left)
          (by simpa using hescape)
        have h' : unescape 0 ('\\'.toUInt8 :: ('u'.toUInt8 :: taken ++
            (left ++ ['"'.toUInt8]))) = some output := by simpa using h
        rw [hstep] at h'
        obtain ⟨tail, htail, rfl⟩ := Option.map_eq_some_iff.mp h'
        refine Decodes.unicode htext (ih ?_ htail)
        simp only [List.length_cons, List.length_append]
        omega
      · obtain ⟨c, hc, rfl, rfl⟩ := (escapeSequence_eq_some_iff hletter).mp hescape
        have hstep := unescape_sequence [letter] (hne body) hescape
        obtain ⟨tail, htail, rfl⟩ := Option.map_eq_some_iff.mp (hstep.symm.trans h)
        refine .short hc (ih ?_ htail)
        simp only [List.length_cons]
        omega

theorem decodes_of_unescape {body output : List UInt8}
    (h : unescape 0 (body ++ ['"'.toUInt8]) = some output) : Decodes body output := by
  have hne : ∀ left : List UInt8, left ++ ['"'.toUInt8] ≠ [] := fun left => by simp
  -- strong induction, as a sequence takes several characters at once
  induction hlen : body.length using Nat.strong_induction_on generalizing body output with
  | _ n ih =>
    subst hlen
    match body with
    | [] =>
      cases h
      exact .nil
    | c :: body =>
      by_cases hc : c = '\\'.toUInt8
      · subst hc
        exact decodes_of_escaped (fun hlt hleft => ih _ hlt hleft rfl) h
      · rw [List.cons_append, unescape_plain hc (hne body)] at h
        obtain ⟨output, hbody, rfl⟩ := Option.map_eq_some_iff.mp h
        exact .plain hc (ih _ (Nat.lt_succ_self _) hbody rfl)

/-- The bytes a text between quotes means. -/
theorem unescape_eq_some_iff {body output : List UInt8} :
    unescape 0 (body ++ ['"'.toUInt8]) = some output ↔ Decodes body output :=
  ⟨decodes_of_unescape, unescape_of_decodes⟩

/-! ## Strings -/

/-- The strings that are accepted, and what they mean: the C string of the bytes, which ends at
    the first NUL. -/
theorem parseString_eq_some_iff_decodes {s rest : List UInt8} {v : CString} :
    parseString s = some (v, rest) ↔
      ∃ body output, StringBody body ∧ Decodes body output ∧
        s = '"'.toUInt8 :: (body ++ '"'.toUInt8 :: rest) ∧ v = CString.ofBytes output := by
  rw [parseString_eq_some_iff]
  constructor
  · rintro ⟨body, output, hbody, hs, houtput, rfl⟩
    exact ⟨body, output, hbody, unescape_eq_some_iff.mp houtput, hs, rfl⟩
  · rintro ⟨body, output, hbody, houtput, hs, rfl⟩
    exact ⟨body, output, hbody, hs, unescape_eq_some_iff.mpr houtput, rfl⟩

/-- A code unit in four hexadecimal digits. -/
def hex4 (unit : Nat) : List UInt8 :=
  [hexChar (unit / 0x1000 % 0x10), hexChar (unit / 0x100 % 0x10), hexChar (unit / 0x10 % 0x10),
    hexChar (unit % 0x10)]

/-- A character as `\uXXXX`, or as a pair of them. -/
def escapeUnicode (c : Char) : List UInt8 :=
  (units c).flatMap fun unit => '\\'.toUInt8 :: 'u'.toUInt8 :: hex4 unit

theorem hexDigit_hexChar {d : Nat} (h : d < 16) : hexDigit (hexChar d) = some d := by
  have hall : ∀ d < 16, hexDigit (hexChar d) = some d := by decide
  exact hall d h

theorem hexChar_ne {d : Nat} (h : d < 16) :
    hexChar d ≠ '"'.toUInt8 ∧ hexChar d ≠ '\\'.toUInt8 ∧ hexChar d ≠ 0 := by
  have hall : ∀ d < 16, hexChar d ≠ '"'.toUInt8 ∧ hexChar d ≠ '\\'.toUInt8 ∧ hexChar d ≠ 0 := by
    decide
  exact hall d h

theorem parseHex4_hex4 {unit : Nat} (h : unit < 0x10000) : parseHex4 (hex4 unit) = unit := by
  have hdigits : (hex4 unit).mapM hexDigit =
      some [unit / 0x1000 % 0x10, unit / 0x100 % 0x10, unit / 0x10 % 0x10, unit % 0x10] := by
    simp only [hex4, List.mapM_cons, List.mapM_nil,
      hexDigit_hexChar (Nat.mod_lt _ (show 0 < 0x10 by decide))]
    rfl
  rw [parseHex4, List.take_of_length_le (by rfl), hdigits]
  simp only [List.foldl_cons, List.foldl_nil, Nat.shiftLeft_eq]
  omega

theorem units_lt (c : Char) : ∀ unit ∈ units c, unit < 0x10000 := by
  have hvalid : c.toNat < 0xD800 ∨ 0xDFFF < c.toNat ∧ c.toNat < 0x110000 := c.valid
  intro unit hunit
  rw [units] at hunit
  split at hunit
  · next hlt => exact List.mem_singleton.mp hunit ▸ hlt
  · rcases List.mem_pair.mp hunit with hhigh | hlow
    · omega
    · omega

theorem utf16Text_escape {codes : List Nat} (h : ∀ unit ∈ codes, unit < 0x10000) :
    Utf16Text codes (codes.flatMap fun unit => '\\'.toUInt8 :: 'u'.toUInt8 :: hex4 unit) := by
  induction codes with
  | nil => exact .nil
  | cons unit codes ih =>
    obtain ⟨hunit, hcodes⟩ := List.forall_mem_cons.mp h
    exact .cons ((parseHex4_eq_iff rfl).mp (parseHex4_hex4 hunit)) (ih hcodes)

theorem stringBody_escapeUnicode (c : Char) : StringBody (escapeUnicode c) := by
  rw [escapeUnicode]
  induction units c with
  | nil => exact .nil
  | cons unit codes ih =>
    have hplain : ∀ n : Nat,
        hexChar (n % 0x10) ≠ '"'.toUInt8 ∧ hexChar (n % 0x10) ≠ '\\'.toUInt8 := by
      intro n
      have hne := hexChar_ne (Nat.mod_lt n (show 0 < 0x10 by decide))
      exact ⟨hne.1, hne.2.1⟩
    rw [List.flatMap_cons]
    refine StringBody.append (.escaped ?_) ih
    exact .plain (hplain _).1 (hplain _).2 (.plain (hplain _).1 (hplain _).2
      (.plain (hplain _).1 (hplain _).2 (.plain (hplain _).1 (hplain _).2 .nil)))

theorem noNul_utf8EncodeChar {c : Char} (hc : c ≠ '\x00') : 0 ∉ String.utf8EncodeChar c := by
  have hval : c.val.toNat ≠ 0 := fun h => hc (Char.toNat_inj.mp h)
  have hbyte : ∀ n : Nat, n ≠ 0 → n < 256 → (0 : UInt8) ≠ UInt8.ofNat n := by
    intro n hpos hlt hzero
    exact hpos ((UInt8.toNat_ofNat_of_lt' hlt).symm.trans (congrArg UInt8.toNat hzero).symm)
  simp only [String.utf8EncodeChar]
  split_ifs
  all_goals
    simp only [List.mem_cons, List.not_mem_nil, or_false, not_or]
  -- one byte is the character, and the leading bytes of the others are marked
  · exact hbyte _ hval (by omega)
  · exact ⟨hbyte _ (by omega) (by omega), hbyte _ (by omega) (by omega)⟩
  · exact ⟨hbyte _ (by omega) (by omega), hbyte _ (by omega) (by omega),
      hbyte _ (by omega) (by omega)⟩
  · exact ⟨hbyte _ (by omega) (by omega), hbyte _ (by omega) (by omega),
      hbyte _ (by omega) (by omega), hbyte _ (by omega) (by omega)⟩

/-- Every Unicode text can be written in ASCII: it is read as its UTF-8 encoding. -/
theorem parseString_escapeUnicode {text : List Char} (htext : '\x00' ∉ text) (rest : List UInt8) :
    ∃ v : CString, v.bytes = text.flatMap String.utf8EncodeChar ∧
      parseString ('"'.toUInt8 :: (text.flatMap escapeUnicode ++ '"'.toUInt8 :: rest)) =
        some (v, rest) := by
  have hbody : StringBody (text.flatMap escapeUnicode) := by
    induction text with
    | nil => exact .nil
    | cons c text ih =>
      rw [List.flatMap_cons]
      exact (stringBody_escapeUnicode c).append (ih (List.not_mem_of_not_mem_cons htext))
  have hdecodes : Decodes (text.flatMap escapeUnicode) (text.flatMap String.utf8EncodeChar) := by
    clear hbody htext
    induction text with
    | nil => exact .nil
    | cons c text ih => exact .unicode (utf16Text_escape (units_lt c)) ih
  -- without a NUL the C string is all of it
  have hnul : 0 ∉ text.flatMap String.utf8EncodeChar := by
    simp only [List.mem_flatMap, not_exists, not_and]
    intro c hc
    exact noNul_utf8EncodeChar fun h => htext (h ▸ hc)
  refine ⟨⟨_, hnul⟩, rfl, parseString_eq_some_iff_decodes.mpr ⟨_, _, hbody, hdecodes, rfl, ?_⟩⟩
  exact (CString.ofBytes_bytes ⟨_, hnul⟩).symm

theorem parseString_escapeUnicode_clef :
    ∃ v : CString, v.bytes = [Char.ofNat 0xE9, Char.ofNat 0x1D11E].flatMap String.utf8EncodeChar ∧
      parseString ('"'.toUInt8 ::
          ([Char.ofNat 0xE9, Char.ofNat 0x1D11E].flatMap escapeUnicode ++ '"'.toUInt8 :: [])) =
        some (v, []) :=
  parseString_escapeUnicode (by decide) []

/-- `"\u00e9\ud834\udd1e"` -/
example : [Char.ofNat 0xE9, Char.ofNat 0x1D11E].flatMap escapeUnicode =
    ascii "\\u00e9\\ud834\\udd1e" := by decide

end ArkInC.Native
