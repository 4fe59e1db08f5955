import ArkInC.Native.Api
import ArkInC.Spec.JsonText

/-!
# Written numbers

`printf` with `%d` writes a number in decimal digits behind an optional minus sign, and
`atoi` reads that back.

## Key results

- `atoi_formatD`: reading is the inverse of writing
- `not_mem_formatD`: a written number holds no delimiter
-/

namespace ArkInC.Native

theorem formatD_negSucc (n : Nat) : formatD (Int.negSucc n) = '-'.toUInt8 :: decimal (n + 1) := by
  have htext : toString (Int.negSucc n) = "-" ++ toString (n + 1) := rfl
  rw [formatD, htext, ascii, String.toList_append, List.map_append]
  rfl

/-- A character that is neither a digit nor a minus sign does not occur. -/
theorem not_mem_formatD {c : UInt8} (hdigit : isDigit c = false) (hminus : c ≠ '-'.toUInt8)
    (n : Int) : c ∉ formatD n := by
  have hdecimal : ∀ k : Nat, c ∉ decimal k := by
    intro k hc
    rw [isDigit_of_mem_decimal hc] at hdigit
    exact Bool.noConfusion hdigit
  cases n with
  | ofNat n => exact hdecimal n
  | negSucc n =>
    rw [formatD_negSucc, List.mem_cons]
    exact not_or.mpr ⟨hminus, hdecimal (n + 1)⟩

/-- `atoi` on the digits of a number. -/
theorem atoi_decimal (n : Nat) : atoi (decimal n) = n := by
  obtain ⟨d, s, hs⟩ := List.exists_cons_of_ne_nil (decimal_ne_nil n)
  have hd : isDigit d := isDigit_of_mem_decimal (hs ▸ List.mem_cons_self)
  -- the first digit is no space
  have hspace : ¬ d ≤ 32 := by
    intro hle
    have hge : '0'.toUInt8 ≤ d := (of_decide_eq_true hd).1
    exact absurd (UInt8.le_trans hge hle) (by decide)
  have hdrop : (decimal n).dropWhile (· ≤ 32) = decimal n := by
    rw [hs, List.dropWhile_cons_of_neg (by simpa using hspace)]
  have hsign : splitSign (decimal n) = (false, decimal n) := by
    rw [hs, splitSign_of_isDigit hd]
  simp only [atoi, hdrop, hsign, takeWhile_isDigit_decimal, digitsValue_decimal,
    Bool.false_eq_true, if_false]

/-- Reading a written number gives that number. -/
theorem atoi_formatD (n : Int) : atoi (formatD n) = n := by
  cases n with
  | ofNat n => exact atoi_decimal n
  | negSucc n =>
    have hdrop : ('-'.toUInt8 :: decimal (n + 1)).dropWhile (· ≤ 32) =
        '-'.toUInt8 :: decimal (n + 1) := List.dropWhile_cons_of_neg (by decide)
    simp only [atoi, formatD_negSucc, hdrop, splitSign, if_true, takeWhile_isDigit_decimal,
      digitsValue_decimal]
    omega

theorem formatD_injective : Function.Injective formatD :=
  Function.LeftInverse.injective atoi_formatD

end ArkInC.Native
