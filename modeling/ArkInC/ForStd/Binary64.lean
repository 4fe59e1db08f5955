import Mathlib.Data.Int.Log
import Mathlib.Data.Rat.Floor
import Mathlib.Tactic

/-!
# IEEE-754 binary64 values as exact rationals

A `Double` is a rational, the negative zero or a signed infinity; NaN is left out, because
no operation of this library produces it. `Binary64.nearest` rounds a rational to the nearest
double, ties to even, and is computable, so decimal literals can be evaluated.

## Key results

- `roundHalfEven_intCast`: an integer is its own rounding
- `nearest_natCast`: every natural number up to `2 ^ 53` is a double
-/

namespace Binary64

/-- A binary64 value other than NaN. The zero among the rationals is the positive one. -/
inductive Double where
  | finite (value : ℚ)
  | negZero
  | infinite (negative : Bool)
  deriving DecidableEq, Repr

instance : Inhabited Double := ⟨.finite 0⟩

instance : Zero Double := ⟨.finite 0⟩

instance : NatCast Double := ⟨fun n => .finite n⟩

theorem natCast_def (n : Nat) : (n : Double) = .finite n := rfl

/-- The number a double stands for; an infinity stands for none. -/
def Double.value : Double → Option ℚ
  | .finite q => some q
  | .negZero => some 0
  | .infinite _ => none

/-- The double with the sign that was written, which only a zero does not carry by itself. -/
def Double.withSign (negative : Bool) (d : Double) : Double :=
  if negative ∧ d = 0 then .negZero else d

@[simp] theorem Double.withSign_false (d : Double) : d.withSign false = d := by simp [withSign]

theorem Double.withSign_of_ne {d : Double} (negative : Bool) (h : d ≠ 0) :
    d.withSign negative = d := by simp [withSign, h]

/-- A sign does not change the number. -/
@[simp] theorem Double.value_withSign (negative : Bool) (d : Double) :
    (d.withSign negative).value = d.value := by
  unfold withSign
  split
  · next h => rw [h.2]; rfl
  · rfl

/-- The nearest integer, a tie going to the even neighbour. -/
def roundHalfEven (q : ℚ) : ℤ :=
  let below := ⌊q⌋
  let rest := q - below
  if rest < 1 / 2 then below
  else if 1 / 2 < rest then below + 1
  else if below % 2 = 0 then below else below + 1

/-- An integer is its own rounding. -/
theorem roundHalfEven_intCast (n : ℤ) : roundHalfEven n = n := by
  simp [roundHalfEven]

/-- The exponent of the unit in the last place of a 53-bit significand for `q`;
    below the normal range it stays at that of the subnormals. -/
def ulpExponent (q : ℚ) : ℤ :=
  max (Int.log 2 |q| - 52) (-1074)

/-- The double nearest to `q`, ties to even; past the largest finite double it is
    an infinity. -/
def nearest (q : ℚ) : Double :=
  let ulp : ℚ := 2 ^ ulpExponent q
  let rounded : ℚ := roundHalfEven (q / ulp) * ulp
  if |rounded| < 2 ^ 1024 then .finite rounded else .infinite (decide (q < 0))

/-- A rational that is a whole number of its own ulps, and not too large, is a double. -/
theorem nearest_of_multiple {q : ℚ} (m : ℤ) (hm : q = m * 2 ^ ulpExponent q)
    (hq : |q| < 2 ^ 1024) : nearest q = .finite q := by
  have hulp : (2 : ℚ) ^ ulpExponent q ≠ 0 := zpow_ne_zero _ two_ne_zero
  -- counted in ulps the value is an integer
  have hdiv : q / 2 ^ ulpExponent q = m := by rw [div_eq_iff hulp]; exact hm
  have hrounded : (roundHalfEven (q / 2 ^ ulpExponent q) : ℚ) * 2 ^ ulpExponent q = q := by
    rw [hdiv, roundHalfEven_intCast]; exact hm.symm
  simp only [nearest, hrounded, if_pos hq]

/-- Below `2 ^ 53` the unit in the last place of a natural number is at most one. -/
private theorem ulpExponent_natCast_nonpos {n : Nat} (hn : n < 2 ^ 53) :
    ulpExponent n ≤ 0 := by
  have hlog : Int.log 2 |(n : ℚ)| < 53 := by
    rcases Nat.eq_zero_or_pos n with rfl | hpos
    · simp
    · rw [Nat.abs_cast, Int.log_natCast]
      exact_mod_cast Nat.log_lt_of_lt_pow hpos.ne' hn
  simp only [ulpExponent]
  omega

/-- Every natural number up to `2 ^ 53` is a double. -/
theorem nearest_natCast {n : Nat} (hn : n ≤ 2 ^ 53) : nearest n = .finite n := by
  have hbound : |(n : ℚ)| < 2 ^ 1024 := by
    rw [Nat.abs_cast]
    calc (n : ℚ) ≤ 2 ^ 53 := by exact_mod_cast hn
      _ < 2 ^ 1024 := pow_lt_pow_right₀ (by norm_num) (by norm_num)
  rcases Nat.lt_or_eq_of_le hn with hlt | rfl
  · -- the ulp is `2 ^ (-k)`, so `n` is `n * 2 ^ k` of them
    obtain ⟨k, hk⟩ := Int.exists_eq_neg_ofNat (ulpExponent_natCast_nonpos hlt)
    refine nearest_of_multiple (n * 2 ^ k) ?_ hbound
    rw [hk]
    push_cast
    rw [zpow_neg, zpow_natCast, mul_assoc, mul_inv_cancel₀ (by positivity), mul_one]
  · -- `2 ^ 53` has an ulp of two
    have hulp : ulpExponent ((2 ^ 53 : Nat) : ℚ) = 1 := by
      rw [ulpExponent, Nat.abs_cast, Int.log_natCast, Nat.log_pow (by omega)]
      norm_num
    refine nearest_of_multiple (2 ^ 52) ?_ hbound
    rw [hulp]
    norm_num

/-- `d + 1/2`, computed without rounding. -/
def Double.addHalf : Double → Double
  | .finite q => .finite (q + 1 / 2)
  | .negZero => .finite (1 / 2)
  | .infinite negative => .infinite negative

/-- The integer part, towards zero; an infinity has none. -/
def Double.truncate : Double → Option ℤ
  | .finite q => some (if 0 ≤ q then ⌊q⌋ else ⌈q⌉)
  | .negZero => some 0
  | .infinite _ => none

/-- Adding one half and truncating gives a natural number back. -/
theorem truncate_addHalf_natCast (n : Nat) : (n : Double).addHalf.truncate = some (n : ℤ) := by
  have hfloor : ⌊(n : ℚ) + 1 / 2⌋ = (n : ℤ) := by
    rw [Int.floor_eq_iff]
    -- `n ≤ n + 1/2 < n + 1`
    constructor <;> push_cast <;> linarith
  have hnonneg : (0 : ℚ) ≤ n + 1 / 2 := by positivity
  simp only [Double.addHalf, Double.truncate, if_pos hnonneg, hfloor]

end Binary64
