import ArkInC.ForStd.Binary64

/-!
# Decimal digits of binary64 values

How far a decimal approximation may be from a binary64 value and still be rounded back to
it, and the approximation by a fixed number of significant digits.

## Key results

- `nearest_of_close`: less than `2 ^ -54` of a value away, everything is rounded to the value
- `representable_of_nearest`: what rounding returns is a binary64 value
- `nearest_significant`: seventeen significant digits determine a value
-/

namespace Binary64

/-! ## Rounding to integers -/

/-- An integer is the rounding of everything less than one half away. -/
theorem roundHalfEven_of_near {x : ℚ} {n : ℤ} (h : |x - n| < 1 / 2) : roundHalfEven x = n := by
  obtain ⟨hlo, hhi⟩ := abs_lt.mp h
  rcases le_or_gt (n : ℚ) x with hle | hlt
  · -- `n` is the floor, and the rest is below one half
    have hfloor : ⌊x⌋ = n := Int.floor_eq_iff.mpr ⟨hle, by linarith⟩
    simp only [roundHalfEven, hfloor, if_pos hhi]
  · -- the floor is `n - 1`, and the rest is above one half
    have hfloor : ⌊x⌋ = n - 1 := by
      rw [Int.floor_eq_iff]
      push_cast
      exact ⟨by linarith, by linarith⟩
    have hrest : 1 / 2 < x - (n - 1 : ℤ) := by
      push_cast
      linarith
    simp only [roundHalfEven, hfloor, if_neg (not_lt.mpr hrest.le), if_pos hrest, sub_add_cancel]

/-- A rounding is at most one half away. -/
theorem abs_sub_roundHalfEven (x : ℚ) : |x - roundHalfEven x| ≤ 1 / 2 := by
  have hlo : (0 : ℚ) ≤ x - ⌊x⌋ := sub_nonneg.mpr (Int.floor_le x)
  have hhi : x - ⌊x⌋ < 1 := by linarith [Int.lt_floor_add_one x]
  simp only [roundHalfEven]
  split_ifs with hlt hgt
  · rw [abs_of_nonneg hlo]
    exact hlt.le
  · push_cast
    rw [abs_of_nonpos (by linarith)]
    linarith
  · rw [abs_of_nonneg hlo]
    exact not_lt.mp hgt
  · push_cast
    rw [abs_of_nonpos (by linarith)]
    linarith

/-! ## Binary64 values -/

/-- A rational that is a binary64 value: a whole number of its own ulps, and not too large. -/
structure Representable (q : ℚ) : Prop where
  multiple : ∃ m : ℤ, q = m * 2 ^ ulpExponent q
  lt : |q| < 2 ^ 1024

private theorem two_zpow_pos (e : ℤ) : (0 : ℚ) < 2 ^ e := zpow_pos two_pos e

private theorem two_zpow_le {e f : ℤ} (h : e ≤ f) : (2 : ℚ) ^ e ≤ 2 ^ f :=
  zpow_le_zpow_right₀ one_le_two h

/-- A multiple of a power of two is one of every smaller power. -/
private theorem exists_multiple_of_le {q : ℚ} {m e f : ℤ} (hm : q = m * 2 ^ f) (h : e ≤ f) :
    ∃ n : ℤ, q = n * 2 ^ e := by
  obtain ⟨k, rfl⟩ := Int.le.dest h
  refine ⟨m * 2 ^ k, ?_⟩
  rw [hm, zpow_add₀ two_ne_zero, zpow_natCast]
  push_cast
  ring

/-- Different multiples of a power of two are that power apart. -/
private theorem add_two_zpow_le {a b : ℚ} {e : ℤ} (ha : ∃ m : ℤ, a = m * 2 ^ e)
    (hb : ∃ n : ℤ, b = n * 2 ^ e) (h : a < b) : a + 2 ^ e ≤ b := by
  obtain ⟨m, rfl⟩ := ha
  obtain ⟨n, rfl⟩ := hb
  have hlt : m < n := by
    have := lt_of_mul_lt_mul_right h (two_zpow_pos e).le
    exact_mod_cast this
  have hle : (m : ℚ) + 1 ≤ n := by exact_mod_cast hlt
  calc (m : ℚ) * 2 ^ e + 2 ^ e = (m + 1) * 2 ^ e := by ring
    _ ≤ n * 2 ^ e := mul_le_mul_of_nonneg_right hle (two_zpow_pos e).le

private theorem exists_multiple_two_zpow {e k : ℤ} (h : e ≤ k) : ∃ n : ℤ, (2 : ℚ) ^ k = n * 2 ^ e :=
  exists_multiple_of_le (m := 1) (by simp) h

/-- A significand has at most 53 bits. -/
theorem abs_lt_ulp (x : ℚ) : |x| < 2 ^ 53 * 2 ^ ulpExponent x := by
  have hlog : |x| < 2 ^ (Int.log 2 |x| + 1) := Int.lt_zpow_succ_log_self one_lt_two |x|
  have hulp : Int.log 2 |x| - 52 ≤ ulpExponent x := le_max_left _ _
  calc |x| < 2 ^ (Int.log 2 |x| + 1) := hlog
    _ ≤ 2 ^ (53 + ulpExponent x) := two_zpow_le (by omega)
    _ = 2 ^ 53 * 2 ^ ulpExponent x := zpow_add₀ two_ne_zero _ _

/-- A whole number of ulps of `x`, less than half of one away, is the rounding of `x`. -/
theorem nearest_of_near {x q : ℚ} {m : ℤ} (hm : q = m * 2 ^ ulpExponent x)
    (hnear : |x - q| < 2 ^ ulpExponent x / 2) (hq : |q| < 2 ^ 1024) : nearest x = .finite q := by
  have hulp := two_zpow_pos (ulpExponent x)
  have hround : roundHalfEven (x / 2 ^ ulpExponent x) = m := by
    apply roundHalfEven_of_near
    have hsub : x / 2 ^ ulpExponent x - m = (x - q) / 2 ^ ulpExponent x := by
      rw [hm, sub_div, mul_div_cancel_right₀ _ hulp.ne']
    rw [hsub, abs_div, abs_of_pos hulp, div_lt_iff₀ hulp]
    linarith
  simp only [nearest, hround, ← hm, if_pos hq]

/-- Closer to zero than to the least subnormal, everything is rounded to zero. -/
theorem nearest_of_small {x : ℚ} (h : |x| < 2 ^ (-1075 : ℤ)) : nearest x = .finite 0 := by
  have hmin : -1074 ≤ ulpExponent x := le_max_right _ _
  refine nearest_of_near (m := 0) (by simp) ?_ (by norm_num)
  calc |x - 0| = |x| := by rw [sub_zero]
    _ < 2 ^ (-1075 : ℤ) := h
    _ ≤ 2 ^ (ulpExponent x - 1) := two_zpow_le (by omega)
    _ = 2 ^ ulpExponent x / 2 := by rw [zpow_sub₀ two_ne_zero, zpow_one]

/-- Twice past the largest doubles, everything is rounded to an infinity. -/
theorem nearest_of_large {x : ℚ} (h : 2 ^ (1025 : ℤ) ≤ |x|) :
    nearest x = .infinite (decide (x < 0)) := by
  have hulp := two_zpow_pos (ulpExponent x)
  have hpos : 0 < |x| := (two_zpow_pos _).trans_le h
  have hle : 2 ^ ulpExponent x ≤ |x| := by
    have hlog : (1025 : ℤ) ≤ Int.log 2 |x| :=
      (Int.zpow_le_iff_le_log one_lt_two hpos).mp (by rwa [Nat.cast_ofNat])
    calc (2 : ℚ) ^ ulpExponent x ≤ 2 ^ Int.log 2 |x| :=
          two_zpow_le (max_le (by omega) (by omega))
      _ ≤ |x| := Int.zpow_log_le_self one_lt_two hpos
  -- the rounding is off by half an ulp, so it is at least half as large
  have hoff : |x - roundHalfEven (x / 2 ^ ulpExponent x) * 2 ^ ulpExponent x| ≤ |x| / 2 := by
    have hnear := abs_sub_roundHalfEven (x / 2 ^ ulpExponent x)
    have hdiv : x / 2 ^ ulpExponent x * 2 ^ ulpExponent x = x := div_mul_cancel₀ x hulp.ne'
    generalize roundHalfEven (x / 2 ^ ulpExponent x) = r at hnear ⊢
    calc |x - r * 2 ^ ulpExponent x| =
          |(x / 2 ^ ulpExponent x - r) * 2 ^ ulpExponent x| := by rw [sub_mul, hdiv]
      _ = |x / 2 ^ ulpExponent x - r| * 2 ^ ulpExponent x := by rw [abs_mul, abs_of_pos hulp]
      _ ≤ 1 / 2 * 2 ^ ulpExponent x := mul_le_mul_of_nonneg_right hnear hulp.le
      _ ≤ |x| / 2 := by linarith
  have hsub := abs_sub_abs_le_abs_sub x (roundHalfEven (x / 2 ^ ulpExponent x) * 2 ^ ulpExponent x)
  have htwo : (2 : ℚ) ^ (1025 : ℤ) = 2 ^ 1024 * 2 := by
    rw [show (1025 : ℤ) = (1024 : Nat) + 1 by norm_num, zpow_add₀ two_ne_zero, zpow_natCast,
      zpow_one]
  rw [htwo] at h
  rw [nearest, if_neg]
  generalize (2 : ℚ) ^ 1024 = limit at h ⊢
  linarith

/-- Next to a binary64 value the ulps are not larger than its own, and at least as large as
    `2 ^ -53` of it. -/
private theorem ulpExponent_of_close {x q : ℚ} (h : Representable q)
    (hclose : |x - q| < |q| * 2 ^ (-54 : ℤ)) :
    ulpExponent x ≤ ulpExponent q ∧ |q| ≤ 2 ^ 53 * 2 ^ ulpExponent x := by
  obtain ⟨m, hm⟩ := h.multiple
  have hqpos : 0 < |q| := by
    by_contra hzero
    have : |q| = 0 := le_antisymm (not_lt.mp hzero) (abs_nonneg q)
    rw [this, zero_mul] at hclose
    exact absurd hclose (not_lt.mpr (abs_nonneg _))
  have hxlo : |q| - |q| * 2 ^ (-54 : ℤ) < |x| := by
    have := abs_sub_abs_le_abs_sub q x
    rw [abs_sub_comm] at this
    linarith
  have hxhi : |x| < |q| + |q| * 2 ^ (-54 : ℤ) := by
    have := abs_sub_abs_le_abs_sub x q
    linarith
  have hxpos : 0 < |x| := by
    have : |q| * 2 ^ (-54 : ℤ) ≤ |q| := mul_le_of_le_one_right hqpos.le (by norm_num)
    linarith
  -- `|q|` is a multiple of its ulp between `2 ^ k` and `2 ^ (k + 1)`
  have hlo : 2 ^ Int.log 2 |q| ≤ |q| := Int.zpow_log_le_self one_lt_two hqpos
  have hhi : |q| < 2 ^ (Int.log 2 |q| + 1) := Int.lt_zpow_succ_log_self one_lt_two |q|
  have hulp : Int.log 2 |q| - 52 ≤ ulpExponent q := le_max_left _ _
  generalize hk : Int.log 2 |q| = k at hlo hhi hulp
  have hmultiple : ∃ n : ℤ, |q| = n * 2 ^ ulpExponent q := by
    refine ⟨|m|, ?_⟩
    calc |q| = |(m : ℚ) * 2 ^ ulpExponent q| := congrArg abs hm
      _ = (|m| : ℤ) * 2 ^ ulpExponent q := by
        rw [abs_mul, abs_of_pos (two_zpow_pos _), Int.cast_abs]
  have hulpLe : ulpExponent q ≤ k := by
    have hge := add_two_zpow_le ⟨0, by simp⟩ hmultiple hqpos
    rw [zero_add] at hge
    have hlt : (2 : ℚ) ^ ulpExponent q < 2 ^ (k + 1) := hge.trans_lt hhi
    have := (zpow_lt_zpow_iff_right₀ (one_lt_two : (1 : ℚ) < 2)).mp hlt
    omega
  -- the distance is less than half an ulp
  have hhalf : |q| * 2 ^ (-54 : ℤ) < 2 ^ ulpExponent q / 2 := by
    calc |q| * 2 ^ (-54 : ℤ) < 2 ^ (k + 1) * 2 ^ (-54 : ℤ) :=
          mul_lt_mul_of_pos_right hhi (two_zpow_pos _)
      _ = 2 ^ (k - 53) := by rw [← zpow_add₀ two_ne_zero]; congr 1; ring
      _ ≤ 2 ^ (ulpExponent q - 1) := two_zpow_le (by omega)
      _ = 2 ^ ulpExponent q / 2 := by rw [zpow_sub₀ two_ne_zero, zpow_one]
  have hsmall : |q| * 2 ^ (-54 : ℤ) ≤ |q| * (1 / 2) :=
    mul_le_mul_of_nonneg_left (by norm_num) hqpos.le
  generalize |q| * 2 ^ (-54 : ℤ) = distance at hclose hxlo hxhi hhalf hsmall
  have hpos := two_zpow_pos (ulpExponent q)
  have hlog : Int.log 2 |x| ≤ k := by
    have hnext := add_two_zpow_le hmultiple (exists_multiple_two_zpow (by omega)) hhi
    have hlt : |x| < 2 ^ (k + 1) := by linarith
    have := (Int.lt_zpow_iff_log_lt one_lt_two hxpos).mp (by exact_mod_cast hlt)
    omega
  refine ⟨max_le_max (by omega) le_rfl, ?_⟩
  rcases hlog.eq_or_lt with heq | hlt
  · rw [show ulpExponent x = ulpExponent q by rw [ulpExponent, ulpExponent, heq, hk]]
    exact (abs_lt_ulp q).le
  · -- in a lower binade `|q|` is the power of two at its end
    have hxk : |x| < 2 ^ k := by
      exact_mod_cast (Int.lt_zpow_iff_log_lt one_lt_two hxpos).mpr hlt
    have hqk : |q| ≤ 2 ^ k := by
      by_contra hgt
      have hnext := add_two_zpow_le (exists_multiple_two_zpow hulpLe) hmultiple (not_le.mp hgt)
      linarith
    have hxlow : 2 ^ (k - 1) ≤ |x| := by
      rw [zpow_sub₀ two_ne_zero, zpow_one]
      linarith
    have hlogx : k - 1 ≤ Int.log 2 |x| :=
      (Int.zpow_le_iff_le_log one_lt_two hxpos).mp (by exact_mod_cast hxlow)
    have hulpx : Int.log 2 |x| - 52 ≤ ulpExponent x := le_max_left _ _
    calc |q| ≤ 2 ^ k := hqk
      _ ≤ 2 ^ (53 + ulpExponent x) := two_zpow_le (by omega)
      _ = 2 ^ 53 * 2 ^ ulpExponent x := zpow_add₀ two_ne_zero _ _

/-- Less than `2 ^ -54` of a binary64 value away, everything is rounded to it. -/
theorem nearest_of_close {x q : ℚ} (h : Representable q)
    (hclose : |x - q| < |q| * 2 ^ (-54 : ℤ)) : nearest x = .finite q := by
  obtain ⟨hle, hbound⟩ := ulpExponent_of_close h hclose
  obtain ⟨m, hm⟩ := h.multiple
  -- the value is a whole number of the ulps of `x`, too
  obtain ⟨n, hn⟩ := exists_multiple_of_le hm hle
  refine nearest_of_near hn ?_ h.lt
  calc |x - q| < |q| * 2 ^ (-54 : ℤ) := hclose
    _ ≤ 2 ^ 53 * 2 ^ ulpExponent x * 2 ^ (-54 : ℤ) :=
        mul_le_mul_of_nonneg_right hbound (two_zpow_pos _).le
    _ = 2 ^ ulpExponent x / 2 := by
        rw [show (2 : ℚ) ^ (-54 : ℤ) = 1 / 2 ^ 54 by norm_num]
        ring

/-- What rounding returns is a binary64 value. -/
theorem representable_of_nearest {x q : ℚ} (h : nearest x = .finite q) : Representable q := by
  simp only [nearest] at h
  split at h
  next hlt =>
    cases h
    refine ⟨?_, hlt⟩
    have hulp := two_zpow_pos (ulpExponent x)
    have hmin : -1074 ≤ ulpExponent x := le_max_right _ _
    generalize hr : roundHalfEven (x / 2 ^ ulpExponent x) = r at hlt ⊢
    generalize hE : ulpExponent x = E at hlt hulp hmin ⊢
    -- the significand has at most 53 bits, or is the next power of two
    have hbound : |r| ≤ 2 ^ 53 := by
      have hx : |x / 2 ^ E| < 2 ^ 53 := by
        rw [abs_div, abs_of_pos hulp, div_lt_iff₀ hulp, ← hE]
        exact abs_lt_ulp x
      have hnear := abs_sub_roundHalfEven (x / 2 ^ E)
      rw [← hE, hr, hE] at hnear
      have hsub := abs_sub_abs_le_abs_sub (r : ℚ) (x / 2 ^ E)
      rw [abs_sub_comm] at hsub
      have hlt : |(r : ℚ)| < 2 ^ 53 + 1 := by linarith
      have : |r| < 2 ^ 53 + 1 := by exact_mod_cast hlt
      omega
    have hcases : r = 0 ∨ |r| < 2 ^ 53 ∧ r ≠ 0 ∨ r = 2 ^ 53 ∨ r = -2 ^ 53 := by
      rcases abs_cases r with ⟨habs, -⟩ | ⟨habs, -⟩ <;> rw [habs] at hbound ⊢ <;> omega
    have habs : |(r : ℚ) * 2 ^ E| = |(r : ℚ)| * 2 ^ E := by rw [abs_mul, abs_of_pos hulp]
    rcases hcases with rfl | ⟨hsmall, hne⟩ | htop
    · exact ⟨0, by simp⟩
    · refine exists_multiple_of_le rfl (max_le ?_ hmin)
      have hpos : 0 < |(r : ℚ) * 2 ^ E| := by
        rw [habs]
        exact mul_pos (abs_pos.mpr (by exact_mod_cast hne)) hulp
      have hlt : |(r : ℚ) * 2 ^ E| < 2 ^ (53 + E) := by
        rw [habs, zpow_add₀ two_ne_zero]
        exact mul_lt_mul_of_pos_right (by exact_mod_cast hsmall) hulp
      have := (Int.lt_zpow_iff_log_lt one_lt_two hpos).mp (by exact_mod_cast hlt)
      omega
    -- rounded up to a power of two, the ulp is twice as large
    · have hlog : ulpExponent (r * 2 ^ E) = E + 1 := by
        have htwo : |(r : ℚ) * 2 ^ E| = 2 ^ (53 + E) := by
          rw [habs, zpow_add₀ two_ne_zero]
          rcases htop with rfl | rfl <;> norm_num
        have := Int.log_zpow (R := ℚ) one_lt_two (53 + E)
        rw [ulpExponent, htwo]
        push_cast at this
        rw [this]
        omega
      rw [hlog]
      rcases htop with rfl | rfl
      · exact ⟨2 ^ 52, by rw [zpow_add₀ two_ne_zero]; push_cast; ring⟩
      · exact ⟨-2 ^ 52, by rw [zpow_add₀ two_ne_zero]; push_cast; ring⟩
  next => cases h

theorem Representable.neg {q : ℚ} (h : Representable q) : Representable (-q) where
  multiple := by
    obtain ⟨m, hm⟩ := h.multiple
    refine ⟨-m, ?_⟩
    rw [ulpExponent, abs_neg, Int.cast_neg, neg_mul]
    exact congrArg _ hm
  lt := by
    rw [abs_neg]
    exact h.lt

/-- Integers of at most 53 bits are binary64 values. -/
theorem representable_intCast {n : ℤ} (h : |n| ≤ 2 ^ 53) : Representable n := by
  have hnat : ∀ k : Nat, (k : ℤ) ≤ 2 ^ 53 → Representable k := fun k hk =>
    representable_of_nearest (nearest_natCast (by exact_mod_cast hk))
  obtain ⟨k, rfl | rfl⟩ := n.eq_nat_or_neg
  · rw [abs_of_nonneg (Int.natCast_nonneg k)] at h
    simpa using hnat k h
  · rw [abs_neg, abs_of_nonneg (Int.natCast_nonneg k)] at h
    simpa using (hnat k h).neg

/-! ## Significant digits -/

/-- A positive rational to a number of significant decimal digits: an integer of that many
    digits, and the decimal exponent of its first digit. -/
def significant (digits : Nat) (q : ℚ) : Nat × ℤ :=
  let exponent := Int.log 10 q
  let rounded := (roundHalfEven (q / 10 ^ (exponent + 1 - digits))).toNat
  -- all nines are rounded up to the next power of ten
  if rounded = 10 ^ digits then (10 ^ (digits - 1), exponent + 1) else (rounded, exponent)

/-- The value of the significant digits of a rational. -/
def significantValue (digits : Nat) (q : ℚ) : ℚ :=
  (significant digits q).1 * 10 ^ ((significant digits q).2 + 1 - digits)

section

variable {digits : Nat} {q : ℚ}

private theorem ten_zpow_pos (e : ℤ) : (0 : ℚ) < 10 ^ e := zpow_pos (by norm_num) e

/-- The rounded significand, before all nines are carried. -/
private theorem rounded_bounds (hdigits : 0 < digits) (hq : 0 < q) :
    (10 : ℤ) ^ (digits - 1) ≤ roundHalfEven (q / 10 ^ (Int.log 10 q + 1 - digits)) ∧
      roundHalfEven (q / 10 ^ (Int.log 10 q + 1 - digits)) ≤ 10 ^ digits := by
  have hlo : (10 : ℚ) ^ Int.log 10 q ≤ q := by
    exact_mod_cast Int.zpow_log_le_self (b := 10) (by norm_num) hq
  have hhi : q < (10 : ℚ) ^ (Int.log 10 q + 1) := by
    exact_mod_cast Int.lt_zpow_succ_log_self (b := 10) (by norm_num) q
  have hunit := ten_zpow_pos (Int.log 10 q + 1 - digits)
  have hnear := abs_le.mp (abs_sub_roundHalfEven (q / 10 ^ (Int.log 10 q + 1 - digits)))
  generalize Int.log 10 q = k at *
  have hfirst : (10 : ℚ) ^ (digits - 1) ≤ q / 10 ^ (k + 1 - digits) := by
    rw [le_div_iff₀ hunit, ← zpow_natCast, ← zpow_add₀ (by norm_num)]
    calc (10 : ℚ) ^ (((digits - 1 : Nat) : ℤ) + (k + 1 - digits)) = 10 ^ k := by
          congr 1
          omega
      _ ≤ q := hlo
  have hlast : q / 10 ^ (k + 1 - digits) < 10 ^ digits := by
    rw [div_lt_iff₀ hunit, ← zpow_natCast, ← zpow_add₀ (by norm_num)]
    calc q < 10 ^ (k + 1) := hhi
      _ = 10 ^ ((digits : ℤ) + (k + 1 - digits)) := by
        congr 1
        omega
  generalize roundHalfEven (q / 10 ^ (k + 1 - digits)) = r at *
  have hrlo : (((10 : ℤ) ^ (digits - 1) : ℤ) : ℚ) < (r + 1 : ℤ) := by
    push_cast
    linarith
  have hrhi : (r : ℚ) < ((10 : ℤ) ^ digits + 1 : ℤ) := by
    push_cast
    linarith
  have hrlo' := Int.cast_lt.mp hrlo
  have hrhi' := Int.cast_lt.mp hrhi
  omega

/-- The significand has the digits it is asked for. -/
theorem significant_bounds (hdigits : 0 < digits) (hq : 0 < q) :
    10 ^ (digits - 1) ≤ (significant digits q).1 ∧ (significant digits q).1 < 10 ^ digits := by
  obtain ⟨hlo, hhi⟩ := rounded_bounds hdigits hq
  simp only [significant]
  split
  · exact ⟨le_rfl, Nat.pow_lt_pow_right (by norm_num) (by omega)⟩
  · next hne =>
    generalize roundHalfEven (q / 10 ^ (Int.log 10 q + 1 - digits)) = r at *
    have hnonneg : 0 ≤ r := le_trans (by positivity) hlo
    have hlo' : 10 ^ (digits - 1) ≤ r.toNat := (Int.le_toNat hnonneg).mpr (by exact_mod_cast hlo)
    have hhi' : r.toNat ≤ 10 ^ digits := Int.toNat_le.mpr (by exact_mod_cast hhi)
    exact ⟨hlo', lt_of_le_of_ne hhi' hne⟩

/-- The digits are off by at most half a unit of the last one. -/
theorem abs_significantValue_sub_le (hdigits : 0 < digits) (hq : 0 < q) :
    |significantValue digits q - q| ≤ q * 10 ^ (1 - digits : ℤ) / 2 := by
  obtain ⟨hlo, -⟩ := rounded_bounds hdigits hq
  have hunit := ten_zpow_pos (Int.log 10 q + 1 - digits)
  have hvalue : significantValue digits q =
      roundHalfEven (q / 10 ^ (Int.log 10 q + 1 - digits)) * 10 ^ (Int.log 10 q + 1 - digits) := by
    have hnonneg : 0 ≤ roundHalfEven (q / 10 ^ (Int.log 10 q + 1 - digits)) :=
      le_trans (by positivity) hlo
    have hcast := Int.toNat_of_nonneg hnonneg
    simp only [significantValue, significant]
    split
    · next hcarry =>
      rw [← hcast, hcarry]
      push_cast
      rw [← zpow_natCast, ← zpow_natCast, ← zpow_add₀ (by norm_num), ← zpow_add₀ (by norm_num)]
      congr 1
      omega
    · rw [← hcast]
      push_cast
      rfl
  have hnear := abs_sub_roundHalfEven (q / 10 ^ (Int.log 10 q + 1 - digits))
  have hlog : (10 : ℚ) ^ Int.log 10 q ≤ q := by
    exact_mod_cast Int.zpow_log_le_self (b := 10) (by norm_num) hq
  have hsub : significantValue digits q - q =
      -(q / 10 ^ (Int.log 10 q + 1 - digits) -
        roundHalfEven (q / 10 ^ (Int.log 10 q + 1 - digits))) *
          10 ^ (Int.log 10 q + 1 - digits) := by
    rw [hvalue]
    field_simp
    ring
  rw [hsub, abs_mul, abs_neg, abs_of_pos hunit]
  calc _ ≤ 1 / 2 * (10 : ℚ) ^ (Int.log 10 q + 1 - digits) :=
        mul_le_mul_of_nonneg_right hnear hunit.le
    _ = 10 ^ Int.log 10 q * 10 ^ (1 - digits : ℤ) / 2 := by
        rw [show Int.log 10 q + 1 - digits = Int.log 10 q + (1 - digits) by ring,
          zpow_add₀ (by norm_num)]
        ring
    _ ≤ q * 10 ^ (1 - digits : ℤ) / 2 := by
        have := mul_le_mul_of_nonneg_right hlog (ten_zpow_pos (1 - digits)).le
        linarith

/-- Seventeen significant digits determine a binary64 value. -/
theorem nearest_significant {v : ℚ} (hv : Representable v) (hne : v ≠ 0) :
    nearest ((if v < 0 then -1 else 1) * significantValue 17 |v|) = .finite v := by
  have hpos : 0 < |v| := abs_pos.mpr hne
  apply nearest_of_close hv
  have hsign : |(if v < 0 then -1 else 1) * significantValue 17 |v| - v| =
      abs (significantValue 17 |v| - |v|) := by
    split
    · next hneg =>
      rw [abs_of_neg hneg, ← abs_neg]
      congr 1
      ring
    · next hnonneg => rw [one_mul, abs_of_nonneg (not_lt.mp hnonneg)]
  rw [hsign]
  calc abs (significantValue 17 |v| - |v|) ≤ |v| * 10 ^ (1 - (17 : Nat) : ℤ) / 2 :=
        abs_significantValue_sub_le (by norm_num) hpos
    _ < |v| * 2 ^ (-54 : ℤ) := by
        rw [mul_div_assoc]
        exact mul_lt_mul_of_pos_left (by norm_num) hpos

/-- The decimal exponents of binary64 values. -/
theorem significant_exponent_bounds {v : ℚ} (hv : Representable v) (hne : v ≠ 0) :
    -324 ≤ (significant digits |v|).2 ∧ (significant digits |v|).2 ≤ 309 := by
  have hpos : 0 < |v| := abs_pos.mpr hne
  have hlog : -324 ≤ Int.log 10 |v| ∧ Int.log 10 |v| ≤ 308 := by
    constructor
    · -- not below the least subnormal
      have hle : (10 : ℚ) ^ (-324 : ℤ) ≤ |v| := by
        obtain ⟨m, hm⟩ := hv.multiple
        have hm0 : m ≠ 0 := by
          rintro rfl
          rw [Int.cast_zero, zero_mul] at hm
          exact hne hm
        have hone : (1 : ℚ) ≤ |m| := by exact_mod_cast Int.one_le_abs hm0
        have hnat : 2 ^ 1074 ≤ 10 ^ 324 := by decide +kernel
        have hten : ((2 : ℚ) ^ 1074) ≤ 10 ^ 324 := by exact_mod_cast hnat
        calc (10 : ℚ) ^ (-324 : ℤ) = (10 ^ 324)⁻¹ := by rw [zpow_neg]; rfl
          _ ≤ (2 ^ 1074)⁻¹ := inv_anti₀ (by positivity) hten
          _ = 2 ^ (-1074 : ℤ) := by rw [zpow_neg]; rfl
          _ ≤ 2 ^ ulpExponent v := two_zpow_le (le_max_right _ _)
          _ ≤ |m| * 2 ^ ulpExponent v := le_mul_of_one_le_left (two_zpow_pos _).le hone
          _ = |v| := by
            conv_rhs => rw [hm]
            rw [abs_mul, abs_of_pos (two_zpow_pos _), Int.cast_abs]
      exact (Int.zpow_le_iff_le_log (by norm_num) hpos).mp (by exact_mod_cast hle)
    · have hnat : 2 ^ 1024 < 10 ^ 309 := by decide +kernel
      have hten : ((2 : ℚ) ^ 1024) < 10 ^ 309 := by exact_mod_cast hnat
      have hlt : |v| < ((10 : Nat) : ℚ) ^ (309 : ℤ) := hv.lt.trans hten
      have := (Int.lt_zpow_iff_log_lt (by norm_num) hpos).mp hlt
      omega
  simp only [significant]
  split <;> omega

end

end Binary64
