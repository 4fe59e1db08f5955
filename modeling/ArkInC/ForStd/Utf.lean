import Mathlib.Data.Nat.Bitwise
import Mathlib.Tactic

/-!
# UTF-16 code units and UTF-8 bytes

A character outside of the basic plane is a pair of UTF-16 code units, a high and a low
surrogate. The lemmas give the units and the bytes of a character the way a decoder computes
with them: with shifts and masks, six or ten bits at a time.

## Key results

- `exists_char_of_unit`, `exists_char_of_surrogates`: the characters that units stand for
- `units_of_lt`, `units_of_ge`: the units of a character
- `continuation_eq`: the low six bits behind the mark of a continuation byte
-/

namespace Utf

/-- The code units of a character in UTF-16. -/
def units (c : Char) : List Nat :=
  if c.toNat < 0x10000 then [c.toNat]
  else [0xD800 + (c.toNat - 0x10000) / 0x400, 0xDC00 + (c.toNat - 0x10000) % 0x400]

def IsHighSurrogate (unit : Nat) : Prop := 0xD800 ≤ unit ∧ unit ≤ 0xDBFF

def IsLowSurrogate (unit : Nat) : Prop := 0xDC00 ≤ unit ∧ unit ≤ 0xDFFF

/-- The code point of a pair, ten bits from each half. -/
def codepoint (high low : Nat) : Nat := 0x10000 + ((high &&& 0x3FF) <<< 10 ||| (low &&& 0x3FF))

theorem codepoint_eq (high low : Nat) :
    codepoint high low = 0x10000 + (high % 0x400 * 0x400 + low % 0x400) := by
  have hmask : ∀ n, n &&& 0x3FF = n % 0x400 := fun n => Nat.and_two_pow_sub_one_eq_mod n 10
  have hlt : low % 0x400 < 2 ^ 10 := Nat.mod_lt low (by decide)
  rw [codepoint, hmask, hmask, ← Nat.shiftLeft_add_eq_or_of_lt hlt, Nat.shiftLeft_eq]

theorem units_of_lt {c : Char} (h : c.toNat < 0x10000) : units c = [c.toNat] := if_pos h

theorem not_surrogate (c : Char) : ¬ IsHighSurrogate c.toNat ∧ ¬ IsLowSurrogate c.toNat := by
  have hvalid : c.toNat < 0xD800 ∨ 0xDFFF < c.toNat ∧ c.toNat < 0x110000 := c.valid
  simp only [IsHighSurrogate, IsLowSurrogate]
  omega

/-- A unit that is not half of a pair is a character. -/
theorem exists_char_of_unit {unit : Nat} (hlt : unit < 0x10000) (hhigh : ¬ IsHighSurrogate unit)
    (hlow : ¬ IsLowSurrogate unit) : ∃ c : Char, c.toNat = unit := by
  have hvalid : unit.isValidChar := by
    simp only [IsHighSurrogate, IsLowSurrogate, Nat.isValidChar] at *
    omega
  exact ⟨Char.ofNatAux unit hvalid, rfl⟩

theorem exists_char_of_surrogates {high low : Nat} (hhigh : IsHighSurrogate high)
    (hlow : IsLowSurrogate low) :
    ∃ c : Char, c.toNat = codepoint high low ∧ 0x10000 ≤ c.toNat ∧ units c = [high, low] := by
  have hcode := codepoint_eq high low
  simp only [IsHighSurrogate, IsLowSurrogate] at hhigh hlow
  generalize codepoint high low = n at hcode ⊢
  have hvalid : n.isValidChar := by
    simp only [Nat.isValidChar]
    omega
  have hc : (Char.ofNatAux n hvalid).toNat = n := rfl
  refine ⟨Char.ofNatAux n hvalid, hc, by omega, ?_⟩
  -- dividing takes the pair apart again
  have hfirst : 0xD800 + (n - 0x10000) / 0x400 = high := by omega
  have hsecond : 0xDC00 + (n - 0x10000) % 0x400 = low := by omega
  rw [units, hc, if_neg (show ¬ n < 0x10000 by omega), hfirst, hsecond]

/-- The pair of a character outside of the basic plane. -/
theorem units_of_ge {c : Char} (h : 0x10000 ≤ c.toNat) :
    ∃ high low, units c = [high, low] ∧ IsHighSurrogate high ∧ IsLowSurrogate low ∧
      codepoint high low = c.toNat := by
  have hvalid : c.toNat < 0xD800 ∨ 0xDFFF < c.toNat ∧ c.toNat < 0x110000 := c.valid
  refine ⟨_, _, if_neg (not_lt.mpr h), ?_, ?_, ?_⟩
  · simp only [IsHighSurrogate]
    omega
  · simp only [IsLowSurrogate]
    omega
  · rw [codepoint_eq]
    omega

/-! ## Bytes -/

/-- The low six bits behind the mark of a continuation byte. -/
theorem continuation_eq (n : Nat) : (n ||| 0x80) &&& 0xBF = n % 0x40 + 0x80 := by
  have hbyte : ∀ b < 2 ^ 8, (b ||| 0x80) &&& 0xBF = b % 0x40 + 0x80 := by decide +kernel
  -- only the low byte counts, so there are 256 cases
  have hmod : (n ||| 0x80) &&& 0xBF = (n % 2 ^ 8 ||| 0x80) &&& 0xBF := by
    have hlt : (n ||| 0x80) &&& 0xBF < 2 ^ 8 := Nat.and_lt_two_pow _ (by decide)
    rw [← Nat.mod_eq_of_lt hlt, Nat.and_mod_two_pow, Nat.or_mod_two_pow]
  rw [hmod, hbyte _ (Nat.mod_lt _ (by decide)), Nat.mod_mod_of_dvd _ (by decide)]

end Utf
