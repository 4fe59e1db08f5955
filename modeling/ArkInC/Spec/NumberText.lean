import ArkInC.ForStd.Decimal
import ArkInC.ForStd.Except
import ArkInC.Native.JsonPrint
import ArkInC.Spec.Grammar
import ArkInC.Spec.JsonText

/-!
# The texts of numbers

A number literal by its parts, the number it denotes, and the double `strtod` makes of it:
the nearest one. What `%g` writes is such a literal, and the number that `print_number`
writes is read back as the double it was written for.

## Key results

- `NumberLiteral.strtod_text`: a literal is read as the double nearest to its value
- `exists_literal_of_formatG`: what `%g` writes is a literal for the rounded number
- `numberText_eq`: the text of a number fits the buffer of `print_number`
- `strtod_renderNumber`: reading is the inverse of printing, for every finite double
-/

namespace ArkInC.Native

open Binary64 (Double Representable)

/-! ## Digits -/

private theorem foldl_digits (digits : List UInt8) (value : Nat) :
    digits.foldl (fun value c => value * 10 + (c - '0'.toUInt8).toNat) value =
      value * 10 ^ digits.length + digitsValue digits := by
  induction digits generalizing value with
  | nil => simp [digitsValue]
  | cons c digits ih =>
    -- the fold from `value` on, and the one from zero, by the same hypothesis
    rw [digitsValue, List.foldl_cons, List.foldl_cons, ih, ih (0 * 10 + _), List.length_cons]
    ring

theorem digitsValue_append (a b : List UInt8) :
    digitsValue (a ++ b) = digitsValue a * 10 ^ b.length + digitsValue b := by
  rw [digitsValue, List.foldl_append, foldl_digits b]
  rfl

theorem digitsValue_zeros (n : Nat) : digitsValue (List.replicate n '0'.toUInt8) = 0 := by
  induction n with
  | zero => rfl
  | succ n ih =>
    have hzero : digitsValue ['0'.toUInt8] = 0 := by decide
    rw [List.replicate_succ, ← List.singleton_append, digitsValue_append, ih, hzero, zero_mul]

/-- The zeros that are dropped at the end are a power of ten. -/
theorem digitsValue_append_dropZeros (a b : List UInt8) :
    digitsValue (a ++ dropZeros b) * 10 ^ (b.length - (dropZeros b).length) =
      digitsValue (a ++ b) := by
  have hsplit : dropZeros b ++ b.rtakeWhile (· = '0'.toUInt8) = b :=
    List.rdropWhile_append_rtakeWhile
  have hzeros : ∀ c ∈ b.rtakeWhile (· = '0'.toUInt8), c = '0'.toUInt8 := fun c hc => by
    simpa using List.mem_rtakeWhile_imp hc
  obtain ⟨zeros, hzero⟩ : ∃ n, b.rtakeWhile (· = '0'.toUInt8) = List.replicate n '0'.toUInt8 :=
    ⟨_, List.eq_replicate_of_mem hzeros⟩
  rw [hzero] at hsplit
  generalize dropZeros b = kept at hsplit
  subst hsplit
  -- a run of zeros behind the digits is a shift
  rw [← List.append_assoc, digitsValue_append (a ++ kept), digitsValue_zeros, List.length_append,
    Nat.add_sub_cancel_left, List.length_replicate, add_zero]

theorem dropZeros_length_le (digits : List UInt8) : (dropZeros digits).length ≤ digits.length :=
  (List.rdropWhile_prefix _ _).length_le

/-! ## Literals -/

/-- The exponent part of a literal: an `e`, a sign or none, and the digits. -/
structure ExponentPart where
  mark : UInt8
  /-- Whether there is a sign, and whether it is a minus. -/
  sign : Option Bool
  digits : List UInt8
  mark_eq : mark = 'e'.toUInt8 ∨ mark = 'E'.toUInt8
  digits_ne_nil : digits ≠ []
  isDigit_of_mem : ∀ c ∈ digits, isDigit c

/-- A minus, a plus, or nothing. -/
def signText : Option Bool → List UInt8
  | none => []
  | some negative => if negative then ['-'.toUInt8] else ['+'.toUInt8]

/-- Minus one for a minus. -/
def signFactor (negative : Bool) : Int := if negative then -1 else 1

namespace ExponentPart

def text (e : ExponentPart) : List UInt8 := e.mark :: (signText e.sign ++ e.digits)

def value (e : ExponentPart) : Int := signFactor (e.sign.getD false) * digitsValue e.digits

end ExponentPart

/-- A number literal: digits in front of the point, digits behind it, if there is one, and
    an exponent part, if there is one. On one side of the point the digits may be missing, as
    in `1.` and `-.5`, which are no numbers of JSON, but a minus or a digit comes first. -/
structure NumberLiteral where
  negative : Bool
  integer : List UInt8
  point : Bool
  fraction : List UInt8
  exponentPart : Option ExponentPart
  starts : negative = true ∨ integer ≠ []
  digits_ne_nil : integer ++ fraction ≠ []
  point_of_fraction : fraction ≠ [] → point = true
  isDigit_of_mem : ∀ c ∈ integer ++ fraction, isDigit c

namespace NumberLiteral

/-- The point and the digits behind it. -/
def pointText (l : NumberLiteral) : List UInt8 :=
  if l.point then '.'.toUInt8 :: l.fraction else []

def text (l : NumberLiteral) : List UInt8 :=
  (if l.negative then ['-'.toUInt8] else []) ++ l.integer ++ l.pointText ++
    (l.exponentPart.map ExponentPart.text).getD []

/-- The digits in front of and behind the point. -/
def mantissa (l : NumberLiteral) : Nat := digitsValue (l.integer ++ l.fraction)

/-- The exponent that goes with the mantissa. -/
def exponent (l : NumberLiteral) : Int :=
  (l.exponentPart.map ExponentPart.value).getD 0 - l.fraction.length

/-- The number the literal denotes. -/
def value (l : NumberLiteral) : ℚ := signFactor l.negative * l.mantissa * 10 ^ l.exponent

/-- A number of JSON: a point only with digits on both sides of it. -/
def ofDigits (negative : Bool) (integer fraction : List UInt8) (exponentPart : Option ExponentPart)
    (hinteger : integer ≠ []) (hdigits : ∀ c ∈ integer ++ fraction, isDigit c) :
    NumberLiteral where
  negative := negative
  integer := integer
  point := decide (fraction ≠ [])
  fraction := fraction
  exponentPart := exponentPart
  starts := .inr hinteger
  digits_ne_nil := List.append_ne_nil_of_left_ne_nil hinteger fraction
  point_of_fraction := decide_eq_true
  isDigit_of_mem := hdigits

theorem text_ofDigits {negative : Bool} {integer fraction : List UInt8}
    {exponentPart : Option ExponentPart} {hinteger : integer ≠ []}
    {hdigits : ∀ c ∈ integer ++ fraction, isDigit c} :
    (ofDigits negative integer fraction exponentPart hinteger hdigits).text =
      (if negative then ['-'.toUInt8] else []) ++ integer ++ formatFraction fraction ++
        (exponentPart.map ExponentPart.text).getD [] := by
  have hpoint : (ofDigits negative integer fraction exponentPart hinteger hdigits).pointText =
      formatFraction fraction := by
    rw [pointText, formatFraction]
    by_cases hnil : fraction = [] <;> simp [ofDigits, hnil]
  rw [text, hpoint]
  rfl

end NumberLiteral

/-- No digit comes next. -/
def DigitsEnd (rest : List UInt8) : Prop := ∀ c ∈ rest.head?, isDigit c = false

theorem takeWhile_isDigit_append {digits rest : List UInt8} (h : ∀ c ∈ digits, isDigit c)
    (hrest : DigitsEnd rest) :
    (digits ++ rest).takeWhile isDigit = digits ∧ (digits ++ rest).dropWhile isDigit = rest := by
  have hhead : rest.takeWhile isDigit = [] ∧ rest.dropWhile isDigit = rest := by
    cases rest with
    | nil => exact ⟨rfl, rfl⟩
    | cons c rest =>
      have hc := Bool.eq_false_iff.mp (hrest c rfl)
      exact ⟨List.takeWhile_cons_of_neg hc, List.dropWhile_cons_of_neg hc⟩
  rw [List.takeWhile_append_of_pos h, List.dropWhile_append_of_pos h, hhead.1, hhead.2,
    List.append_nil]
  exact ⟨rfl, rfl⟩

theorem digitsEnd_nil : DigitsEnd [] := nofun

theorem digitsEnd_cons {c : UInt8} (h : isDigit c = false) (rest : List UInt8) :
    DigitsEnd (c :: rest) := by
  intro d hd
  cases hd
  exact h

/-- Behind an optional sign there is a digit. -/
theorem splitSign_signText (sign : Option Bool) {digits : List UInt8} (hne : digits ≠ [])
    (h : ∀ c ∈ digits, isDigit c) (rest : List UInt8) :
    splitSign (signText sign ++ (digits ++ rest)) = (sign.getD false, digits ++ rest) := by
  obtain ⟨c, digits, rfl⟩ := List.exists_cons_of_ne_nil hne
  -- a digit is no sign, so nothing is taken without one
  match sign with
  | none => exact splitSign_of_isDigit (h c List.mem_cons_self)
  | some true => rfl
  | some false => rfl

/-- The exponent part is taken up to its last digit. -/
theorem splitExponent_text (e : ExponentPart) :
    splitExponent e.text = (e.value, []) := by
  have hsign := splitSign_signText e.sign e.digits_ne_nil e.isDigit_of_mem []
  obtain ⟨htake, hdrop⟩ := takeWhile_isDigit_append e.isDigit_of_mem digitsEnd_nil
  rw [List.append_nil] at hsign htake hdrop
  -- the digits are not missing, so this is no number with an `e` behind it
  rw [ExponentPart.text, splitExponent, if_pos e.mark_eq]
  simp only [hsign, htake, hdrop, if_neg e.digits_ne_nil, ExponentPart.value, signFactor]
  cases e.sign.getD false <;> simp

private theorem digitsEnd_exponent (e : Option ExponentPart) :
    DigitsEnd ((e.map ExponentPart.text).getD []) := by
  cases e with
  | none => exact digitsEnd_nil
  | some e =>
    refine digitsEnd_cons ?_ _
    rcases e.mark_eq with h | h <;> rw [h] <;> decide

/-- Without a point there are no fraction digits either. -/
theorem NumberLiteral.splitFraction_pointText (l : NumberLiteral) :
    splitFraction (l.pointText ++ (l.exponentPart.map ExponentPart.text).getD []) =
      (l.fraction, (l.exponentPart.map ExponentPart.text).getD []) := by
  rw [pointText]
  cases hpoint : l.point with
  | false =>
    have hnil : l.fraction = [] := by
      by_contra hne
      exact Bool.false_ne_true (hpoint.symm.trans (l.point_of_fraction hne))
    rw [if_neg Bool.false_ne_true, List.nil_append, hnil]
    cases l.exponentPart with
    | none => rfl
    | some e =>
      -- the mark of the exponent is no point
      have hmark : e.mark ≠ '.'.toUInt8 := by
        rcases e.mark_eq with h | h <;> rw [h] <;> decide
      rw [Option.map_some, Option.getD_some, ExponentPart.text, splitFraction, if_neg hmark]
  | true =>
    obtain ⟨htake, hdrop⟩ := takeWhile_isDigit_append
      (fun c hc => l.isDigit_of_mem c (List.mem_append_right _ hc))
      (digitsEnd_exponent l.exponentPart)
    rw [if_pos rfl, List.cons_append, splitFraction, if_pos rfl, htake, hdrop]

private theorem digitsEnd_pointText (l : NumberLiteral) :
    DigitsEnd (l.pointText ++ (l.exponentPart.map ExponentPart.text).getD []) := by
  rw [NumberLiteral.pointText]
  split
  · exact digitsEnd_cons (by decide) _
  · exact digitsEnd_exponent l.exponentPart

/-! ## The nearest double -/

theorem digitsValue_lt {digits : List UInt8} (h : ∀ c ∈ digits, isDigit c) :
    digitsValue digits < 10 ^ digits.length := by
  induction digits using List.reverseRecOn with
  | nil => decide
  | append_singleton digits c ih =>
    have hc : isDigit c := h c (by simp)
    -- a digit is at most nine
    have hdigit : digitsValue [c] ≤ 9 := by
      simp only [isDigit, decide_eq_true_eq, UInt8.le_iff_toNat_le] at hc
      simp only [digitsValue, List.foldl_cons, List.foldl_nil, zero_mul, zero_add]
      rw [UInt8.toNat_sub_of_le _ _ (UInt8.le_iff_toNat_le.mpr hc.1)]
      have hnine : '9'.toUInt8.toNat = 57 := rfl
      have hzero : '0'.toUInt8.toNat = 48 := rfl
      omega
    have hinit := ih fun c hc => h c (List.mem_append_left _ hc)
    rw [digitsValue_append, List.length_append, List.length_singleton, pow_one, pow_succ]
    omega

private theorem ten_zpow_pos (e : ℤ) : (0 : ℚ) < 10 ^ e := zpow_pos (by norm_num) e

private theorem ten_zpow_le {e f : ℤ} (h : e ≤ f) : (10 : ℚ) ^ e ≤ 10 ^ f :=
  zpow_le_zpow_right₀ (by norm_num) h

/-- Past these exponents a mantissa of at most 63 digits overflows, or is nearer to zero than
    to any other double. -/
private theorem nearest_of_exponent (negative : Bool) {mantissa : Nat} {exponent : Int}
    (h : mantissa < 10 ^ 63) (hpos : 0 < mantissa) :
    (exponent < -500 → Binary64.nearest (signFactor negative * mantissa * 10 ^ exponent) = 0) ∧
      (500 < exponent → Binary64.nearest (signFactor negative * mantissa * 10 ^ exponent) =
        .infinite negative) := by
  have hten := ten_zpow_pos exponent
  have habs : |(signFactor negative : ℚ) * mantissa * 10 ^ exponent| =
      mantissa * 10 ^ exponent := by
    rw [abs_mul, abs_mul, abs_of_pos hten, Nat.abs_cast]
    cases negative <;> simp [signFactor]
  constructor
  -- under 10^-438 everything is nearer to zero than half of the smallest double
  · intro hsmall
    apply Binary64.nearest_of_small
    rw [habs]
    have hmantissa : (mantissa : ℚ) < 10 ^ (63 : ℤ) := by exact_mod_cast h
    have hnat : 2 ^ 1075 < 10 ^ 438 := by decide +kernel
    have hlimit : ((2 : ℚ) ^ 1075) < 10 ^ 438 := by exact_mod_cast hnat
    calc mantissa * (10 : ℚ) ^ exponent < 10 ^ (63 : ℤ) * 10 ^ exponent :=
          mul_lt_mul_of_pos_right hmantissa hten
      _ = 10 ^ (63 + exponent) := (zpow_add₀ (by norm_num) _ _).symm
      _ ≤ 10 ^ (-438 : ℤ) := ten_zpow_le (by omega)
      _ = (10 ^ 438)⁻¹ := by rw [zpow_neg]; rfl
      _ ≤ (2 ^ 1075)⁻¹ := inv_anti₀ (by positivity) hlimit.le
      _ = 2 ^ (-1075 : ℤ) := by rw [zpow_neg]; rfl
  -- from 2^1025 on there is no finite double
  · intro hlarge
    have hone : (1 : ℚ) ≤ mantissa := by exact_mod_cast hpos
    have hnat : 2 ^ 1025 ≤ 10 ^ 501 := by decide +kernel
    have hlimit : ((2 : ℚ) ^ 1025) ≤ 10 ^ 501 := by exact_mod_cast hnat
    rw [Binary64.nearest_of_large]
    · have hm : (0 : ℚ) < mantissa * 10 ^ exponent := mul_pos (by linarith) hten
      rw [mul_assoc]
      cases negative <;> simp [signFactor, hm, hm.le]
    · rw [habs]
      calc (2 : ℚ) ^ (1025 : ℤ) = 2 ^ 1025 := rfl
        _ ≤ 10 ^ 501 := hlimit
        _ = 10 ^ (501 : ℤ) := rfl
        _ ≤ 10 ^ exponent := ten_zpow_le (by omega)
        _ ≤ mantissa * 10 ^ exponent := le_mul_of_one_le_left hten.le hone

/-- For the mantissas that `parse_number` can pass on, the result is the nearest double, a zero
    with the sign that was written: what is computed past the exponent limits is never wrong. -/
theorem decimalToDouble_eq_nearest {negative : Bool} {mantissa : Nat} {exponent : Int}
    (h : mantissa < 10 ^ 63) :
    decimalToDouble negative mantissa exponent =
      (Binary64.nearest (signFactor negative * mantissa * 10 ^ exponent)).withSign negative := by
  rw [decimalToDouble]
  congr 1
  rcases Nat.eq_zero_or_pos mantissa with rfl | hpos
  · have hzero := Binary64.nearest_natCast (n := 0) (by norm_num)
    rw [if_pos (.inl rfl), Nat.cast_zero, mul_zero, zero_mul]
    rw [Nat.cast_zero] at hzero
    exact hzero.symm
  -- the two limits of the exponent, then the rounding itself
  · obtain ⟨hsmall, hlarge⟩ := nearest_of_exponent negative h hpos
    split
    · next hlimit => exact (hsmall (hlimit.resolve_left hpos.ne')).symm
    · split
      · next hlimit => exact (hlarge hlimit).symm
      · rw [signFactor]
        push_cast
        rfl

namespace NumberLiteral

variable (l : NumberLiteral)

theorem text_length : l.integer.length + l.fraction.length ≤ l.text.length := by
  have hfraction : l.fraction.length ≤ l.pointText.length := by
    rw [pointText]
    split
    · exact Nat.le_succ _
    · next hpoint =>
      by_contra hlt
      exact hpoint (l.point_of_fraction fun hnil => hlt (by simp [hnil]))
  simp only [text, List.length_append]
  omega

theorem splitSign_text : splitSign l.text = (l.negative, l.integer ++
    (l.pointText ++ (l.exponentPart.map ExponentPart.text).getD [])) := by
  have hdigits : ∀ c ∈ l.integer, isDigit c := fun c hc =>
    l.isDigit_of_mem c (List.mem_append_left _ hc)
  simp only [text, List.append_assoc]
  cases hnegative : l.negative with
  | true => rfl
  | false =>
    have hinteger : l.integer ≠ [] := l.starts.resolve_left (by simp [hnegative])
    exact splitSign_signText none hinteger hdigits _

/-- The double nearest to the value of a literal; a zero is negative if it is written so. -/
def double (l : NumberLiteral) : Double := (Binary64.nearest l.value).withSign l.negative

/-- A literal is read as that double. -/
theorem strtod_text (hlen : l.text.length ≤ 63) :
    strtod l.text = some (l.double, l.text.length) := by
  have hinteger : ∀ c ∈ l.integer, isDigit c := fun c hc =>
    l.isDigit_of_mem c (List.mem_append_left _ hc)
  have hsome : ¬ (l.integer = [] ∧ l.fraction = []) := fun hnil =>
    l.digits_ne_nil (List.append_eq_nil_iff.mpr hnil)
  obtain ⟨htake, hdrop⟩ := takeWhile_isDigit_append hinteger (digitsEnd_pointText l)
  have hexponent : splitExponent ((l.exponentPart.map ExponentPart.text).getD []) =
      ((l.exponentPart.map ExponentPart.value).getD 0, []) := by
    cases l.exponentPart with
    | none => rfl
    | some e => exact splitExponent_text e
  -- no more digits than characters, and these fit the buffer
  have hmantissa : l.mantissa < 10 ^ 63 := by
    refine (digitsValue_lt l.isDigit_of_mem).trans_le (Nat.pow_le_pow_right (by norm_num) ?_)
    rw [List.length_append]
    exact l.text_length.trans hlen
  simp only [strtod, l.splitSign_text, htake, hdrop, l.splitFraction_pointText, hexponent, hsome,
    if_false, List.length_nil, Nat.sub_zero]
  exact congrArg (fun d => some (d, l.text.length)) (decimalToDouble_eq_nearest hmantissa)

/-- All of it is passed on to `strtod`. -/
theorem isNumberChar_of_mem_text : ∀ c ∈ l.text, isNumberChar c := by
  intro c hc
  simp only [text, List.mem_append] at hc
  -- the sign, the digits on both sides of the point, the exponent part
  rcases hc with ((hsign | hinteger) | hfraction) | hexponent
  · split at hsign
    · rw [List.mem_singleton.mp hsign]; decide
    · exact nomatch hsign
  · exact isNumberChar_of_isDigit (l.isDigit_of_mem c (List.mem_append_left _ hinteger))
  · rw [pointText] at hfraction
    split at hfraction
    · rcases List.mem_cons.mp hfraction with rfl | hdigit
      · decide
      · exact isNumberChar_of_isDigit (l.isDigit_of_mem c (List.mem_append_right _ hdigit))
    · exact nomatch hfraction
  · cases he : l.exponentPart with
    | none => rw [he] at hexponent; exact nomatch hexponent
    | some e =>
      rw [he, Option.map_some, Option.getD_some, ExponentPart.text, List.mem_cons,
        List.mem_append] at hexponent
      rcases hexponent with rfl | hsign | hdigit
      · rcases e.mark_eq with h | h <;> rw [h] <;> decide
      · match hsome : e.sign, hsign with
        | some true, h => rw [List.mem_singleton.mp h]; decide
        | some false, h => rw [List.mem_singleton.mp h]; decide
      · exact isNumberChar_of_isDigit (e.isDigit_of_mem c hdigit)

/-- It starts with a minus or a digit. -/
theorem bufferAtOffset_text (rest : List UInt8) :
    bufferAtOffset (l.text ++ rest) = '-'.toUInt8 ∨ isDigit (bufferAtOffset (l.text ++ rest)) := by
  simp only [text]
  cases hnegative : l.negative with
  | true => exact .inl rfl
  | false =>
    have hne : l.integer ≠ [] := l.starts.resolve_left (by simp [hnegative])
    obtain ⟨c, digits, hinteger⟩ := List.exists_cons_of_ne_nil hne
    rw [hinteger]
    exact .inr (l.isDigit_of_mem c (by rw [hinteger]; exact List.mem_cons_self))

/-- A literal that fits the buffer of `parse_number` is rounded correctly, and a zero keeps its
    sign. -/
theorem parseNumber_text (hlen : l.text.length ≤ 63) {rest : List UInt8}
    (hrest : NumberEnds rest) :
    parseNumber (l.text ++ rest) = some (.number l.double, rest) :=
  parseNumber_append l.isNumberChar_of_mem_text hlen (l.strtod_text hlen) hrest

/-! ### Every number is a literal -/

private theorem exists_sign (s : List UInt8) :
    ∃ sign : Option Bool, s = signText sign ++ (splitSign s).2 := by
  cases s with
  | nil => exact ⟨none, rfl⟩
  | cons c s =>
    simp only [splitSign]
    split
    · next hminus => exact ⟨some true, by rw [hminus]; rfl⟩
    · split
      · next hplus => exact ⟨some false, by rw [hplus]; rfl⟩
      · exact ⟨none, rfl⟩

/-- A text that is taken up to its end as an exponent is one, or there is none. -/
private theorem exists_exponent_of_splitExponent {s : List UInt8} {e : Int}
    (h : splitExponent s = (e, [])) :
    ∃ part : Option ExponentPart, s = (part.map ExponentPart.text).getD [] := by
  cases s with
  | nil => exact ⟨none, rfl⟩
  | cons c s =>
    simp only [splitExponent] at h
    split at h
    · next hmark =>
      -- no digits behind the mark leave it in the rest, which is empty here
      split at h
      · exact absurd (Prod.mk.inj h).2 (List.cons_ne_nil c s)
      · next hne =>
        obtain ⟨sign, hsign⟩ := exists_sign s
        have hdigits : ∀ c ∈ (splitSign s).2, isDigit c :=
          List.dropWhile_eq_nil_iff.mp (Prod.mk.inj h).2
        rw [List.takeWhile_eq_self_iff.mpr hdigits] at hne
        exact ⟨some ⟨c, sign, (splitSign s).2, hmark, hne, hdigits⟩, congrArg (c :: ·) hsign⟩
    · exact absurd (Prod.mk.inj h).2 (List.cons_ne_nil c s)

/-- The point and the digits behind it, or nothing. -/
private theorem exists_point (s : List UInt8) :
    ∃ point : Bool,
      s = (if point then '.'.toUInt8 :: (splitFraction s).1 else []) ++ (splitFraction s).2 ∧
      ((splitFraction s).1 ≠ [] → point = true) ∧ ∀ c ∈ (splitFraction s).1, isDigit c := by
  cases s with
  | nil => exact ⟨false, rfl, fun hne => absurd rfl hne, List.forall_mem_nil _⟩
  | cons c s =>
    simp only [splitFraction]
    split
    · next hpoint =>
      refine ⟨true, ?_, fun _ => rfl, fun _ => List.mem_takeWhile_imp⟩
      rw [if_pos rfl, hpoint, List.cons_append, List.takeWhile_append_dropWhile]
    · exact ⟨false, rfl, fun hne => absurd rfl hne, List.forall_mem_nil _⟩

/-- What `strtod` takes as a whole, behind a minus or a digit, is a literal. -/
theorem exists_text_of_strtod {number : List UInt8} {d : Double}
    (hat : bufferAtOffset number = '-'.toUInt8 ∨ isDigit (bufferAtOffset number))
    (hlen : number.length ≤ 63) (h : strtod number = some (d, number.length)) :
    ∃ l : NumberLiteral, l.text = number ∧ l.double = d := by
  -- the double follows from the text
  suffices ∃ l : NumberLiteral, l.text = number by
    obtain ⟨l, rfl⟩ := this
    have hsame := h.symm.trans (l.strtod_text hlen)
    exact ⟨l, rfl, (Prod.mk.inj (Option.some.inj hsame)).1.symm⟩
  obtain ⟨negative, digits, hsplit, hnumber, hstarts⟩ : ∃ negative digits,
      splitSign number = (negative, digits) ∧
      number = (if negative then ['-'.toUInt8] else []) ++ digits ∧
      (negative = true ∨ digits.takeWhile isDigit ≠ []) := by
    rcases hat with hminus | hdigit
    · obtain ⟨digits, rfl⟩ := exists_cons_of_bufferAtOffset (by decide) hminus
      exact ⟨true, digits, rfl, rfl, .inl rfl⟩
    · cases number with
      | nil => exact absurd hdigit (by decide)
      | cons c digits =>
        refine ⟨false, c :: digits, splitSign_of_isDigit hdigit, rfl, .inr ?_⟩
        rw [List.takeWhile_cons_of_pos (show isDigit c from hdigit)]
        exact List.cons_ne_nil _ _
  have hpos : 0 < number.length := by
    rw [List.length_pos_iff]
    rintro rfl
    rcases hat with hminus | hdigit
    · exact absurd hminus (by decide)
    · exact absurd hdigit (by decide)
  simp only [strtod, hsplit] at h
  obtain ⟨point, hpoint, hfraction, hdigit⟩ := exists_point (digits.dropWhile isDigit)
  split at h
  · cases h
  · next hsome =>
    -- nothing is left behind the exponent
    have hend : (splitExponent (splitFraction (digits.dropWhile isDigit)).2).2 = [] := by
      have htaken := (Prod.mk.inj (Option.some.inj h)).2
      rw [← List.length_eq_zero_iff]
      omega
    obtain ⟨part, hpart⟩ := exists_exponent_of_splitExponent (Prod.ext rfl hend)
    refine ⟨⟨negative, digits.takeWhile isDigit, point, _, part, hstarts, ?_, hfraction, ?_⟩, ?_⟩
    · exact fun hnil => hsome (List.append_eq_nil_iff.mp hnil)
    · intro c hc
      rcases List.mem_append.mp hc with hc | hc
      · exact List.mem_takeWhile_imp hc
      · exact hdigit c hc
    · rw [hpart] at hpoint
      rw [text, pointText, List.append_assoc, List.append_assoc, ← hpoint,
        List.takeWhile_append_dropWhile]
      exact hnumber.symm

/-- `-0.1e+2` -/
def sample : NumberLiteral :=
  .ofDigits true (ascii "0") (ascii "1")
    (some { mark := 'e'.toUInt8, sign := some false, digits := ascii "2", mark_eq := .inl rfl,
            digits_ne_nil := by decide, isDigit_of_mem := List.all_eq_true.mp rfl })
    (by decide) (List.all_eq_true.mp rfl)

theorem parseNumber_text_sample :
    parseNumber (sample.text ++ ascii ",") =
      some (.number sample.double, ascii ",") :=
  sample.parseNumber_text (by decide) (numberEnds_cons (by decide) _)

end NumberLiteral

/-! ## What `%g` writes -/

/-- `e+05`, with at least two digits. -/
def writtenExponent (exponent : Int) : ExponentPart where
  mark := 'e'.toUInt8
  sign := some (decide (exponent < 0))
  digits :=
    let digits := decimal exponent.natAbs
    if digits.length < 2 then '0'.toUInt8 :: digits else digits
  mark_eq := .inl rfl
  digits_ne_nil := by
    dsimp only
    split
    · exact List.cons_ne_nil _ _
    · exact decimal_ne_nil _
  isDigit_of_mem := by
    intro c hc
    dsimp only at hc
    split at hc
    · rcases List.mem_cons.mp hc with rfl | hc
      · decide
      · exact isDigit_of_mem_decimal hc
    · exact isDigit_of_mem_decimal hc

theorem writtenExponent_text (exponent : Int) :
    (writtenExponent exponent).text = formatExponent exponent := by
  by_cases h : exponent < 0 <;>
    simp [ExponentPart.text, writtenExponent, formatExponent, signText, h, decimal]

theorem writtenExponent_value (exponent : Int) : (writtenExponent exponent).value = exponent := by
  have hdigits : digitsValue (writtenExponent exponent).digits = exponent.natAbs := by
    simp only [writtenExponent]
    -- a leading zero makes no difference
    split
    · have hzero : digitsValue ['0'.toUInt8] = 0 := by decide
      rw [← List.singleton_append, digitsValue_append, hzero, zero_mul, zero_add,
        digitsValue_decimal]
    · exact digitsValue_decimal _
  rw [ExponentPart.value, hdigits]
  by_cases h : exponent < 0
  · simp only [writtenExponent, h, decide_true, Option.getD_some, signFactor, if_true]
    omega
  · simp only [writtenExponent, h, decide_false, Option.getD_some, signFactor,
      Bool.false_eq_true, if_false]
    omega

/-- Dropping the zeros of the fraction does not change what the digits denote. -/
theorem value_dropZeros (a b : List UInt8) (exponent : Int) :
    (digitsValue (a ++ dropZeros b) : ℚ) * 10 ^ (exponent - (dropZeros b).length) =
      digitsValue (a ++ b) * 10 ^ (exponent - b.length) := by
  have hle := dropZeros_length_le b
  rw [← digitsValue_append_dropZeros a b]
  push_cast
  rw [mul_assoc, ← zpow_natCast, ← zpow_add₀ (by norm_num)]
  congr 2
  omega

section

variable {precision : Nat} {q : ℚ}

/-- The digits that `%g` chooses. -/
def chosenDigits (precision : Nat) (q : ℚ) : List UInt8 :=
  decimal (Binary64.significant precision |q|).1

theorem chosenDigits_length (hprecision : 1 < precision) (hq : q ≠ 0) :
    (chosenDigits precision q).length = precision := by
  have hpos : 0 < precision := by omega
  have hdigits : ∀ c ∈ chosenDigits precision q, isDigit c := fun c hc => isDigit_of_mem_decimal hc
  obtain ⟨hlo, hhi⟩ := Binary64.significant_bounds hpos (abs_pos.mpr hq)
  refine le_antisymm (decimal_length_le (by omega) hhi) ?_
  by_contra hlt
  -- with fewer digits the significand would be smaller
  have hshort := digitsValue_lt hdigits
  have hpow := Nat.pow_le_pow_right (show 0 < 10 by norm_num)
    (show (chosenDigits precision q).length ≤ precision - 1 by omega)
  rw [chosenDigits, digitsValue_decimal] at hshort
  exact absurd hshort (not_lt.mpr (hpow.trans hlo))

private theorem isDigit_of_mem_dropZeros {digits : List UInt8} (h : ∀ c ∈ digits, isDigit c) :
    ∀ c ∈ dropZeros digits, isDigit c :=
  fun c hc => h c ((List.rdropWhile_prefix _ _).subset hc)

private theorem dropZeros_chosenDigits_ne_nil (hprecision : 1 < precision) (hq : q ≠ 0) :
    dropZeros (chosenDigits precision q) ≠ [] := by
  intro hnil
  have hprecision' : 0 < precision := by omega
  have hpos : 0 < (Binary64.significant precision |q|).1 :=
    (Nat.pow_pos (by norm_num)).trans_le
      (Binary64.significant_bounds hprecision' (abs_pos.mpr hq)).1
  -- if all were zeros, the significand would be zero
  have hvalue := digitsValue_append_dropZeros [] (chosenDigits precision q)
  rw [hnil, List.nil_append, List.nil_append, chosenDigits, digitsValue_decimal] at hvalue
  rw [← hvalue] at hpos
  exact absurd hpos (by simp [digitsValue])

/-- The value of a literal whose digits, with some zeros dropped, are the chosen ones. -/
private theorem value_chosenDigits {l : NumberLiteral} (a b : List UInt8) (exponent : Int)
    (hnegative : l.negative = decide (q < 0))
    (hmantissa : l.mantissa = digitsValue (a ++ dropZeros b))
    (hdigits : digitsValue (a ++ b) = digitsValue (chosenDigits precision q))
    (hexponent : l.exponent = exponent - (dropZeros b).length)
    (hshift : exponent - b.length = (Binary64.significant precision |q|).2 + 1 - precision) :
    l.value = signFactor (decide (q < 0)) * Binary64.significantValue precision |q| := by
  rw [NumberLiteral.value, hnegative, hmantissa, hexponent, mul_assoc, value_dropZeros, hdigits,
    hshift, chosenDigits, digitsValue_decimal]
  rfl

/-- In `0.00ddd` the zeros count as digits of the fraction. -/
private theorem exists_literal_of_leadingZeros (hprecision : 1 < precision) (hq : q ≠ 0)
    {zeros : Nat} (hzeros : -(zeros : Int) = (Binary64.significant precision |q|).2 + 1) :
    ∃ l : NumberLiteral, (if decide (q < 0) then ['-'.toUInt8] else []) ++ ascii "0." ++
        List.replicate zeros '0'.toUInt8 ++ dropZeros (chosenDigits precision q) = l.text ∧
      l.value = signFactor (decide (q < 0)) * Binary64.significantValue precision |q| := by
  have hfraction : List.replicate zeros '0'.toUInt8 ++ dropZeros (chosenDigits precision q) ≠ [] :=
    fun h => dropZeros_chosenDigits_ne_nil hprecision hq (List.append_eq_nil_iff.mp h).2
  have hdigits : ∀ c ∈ ['0'.toUInt8] ++ (List.replicate zeros '0'.toUInt8 ++
      dropZeros (chosenDigits precision q)), isDigit c := by
    intro c hc
    simp only [List.mem_append, List.mem_singleton, List.mem_replicate] at hc
    rcases hc with rfl | ⟨-, rfl⟩ | hc
    · decide
    · decide
    · exact isDigit_of_mem_dropZeros (fun c hc => isDigit_of_mem_decimal hc) c hc
  refine ⟨.ofDigits (decide (q < 0)) ['0'.toUInt8] _ none (List.cons_ne_nil _ _) hdigits, ?_, ?_⟩
  · rw [NumberLiteral.text_ofDigits]
    simp only [formatFraction, if_neg hfraction, Option.map_none, Option.getD_none,
      List.append_nil, List.append_assoc, List.cons_append, List.nil_append]
    rfl
  · refine value_chosenDigits (['0'.toUInt8] ++ List.replicate zeros '0'.toUInt8)
      (chosenDigits precision q) (-zeros) rfl ?_ ?_ ?_ ?_
    · rw [NumberLiteral.mantissa, NumberLiteral.ofDigits, List.append_assoc]
    · have hzero : digitsValue ['0'.toUInt8] = 0 := by decide
      rw [digitsValue_append, digitsValue_append, digitsValue_zeros, hzero, zero_mul, zero_add,
        zero_mul, zero_add]
    · simp only [NumberLiteral.exponent, NumberLiteral.ofDigits, Option.map_none,
        Option.getD_none, List.length_append, List.length_replicate]
      push_cast
      ring
    · rw [chosenDigits_length hprecision hq, hzeros]

/-- What `%g` writes for a number other than zero is a literal for its significant digits. -/
theorem exists_literal_of_formatG (hprecision : 1 < precision) (hq : q ≠ 0) :
    ∃ l : NumberLiteral, formatG precision q = l.text ∧
      l.value = signFactor (decide (q < 0)) * Binary64.significantValue precision |q| := by
  have hlength := chosenDigits_length hprecision hq
  have hdigit : ∀ c ∈ chosenDigits precision q, isDigit c := fun c hc => isDigit_of_mem_decimal hc
  have hsign : (if q < 0 then ['-'.toUInt8] else []) =
      (if decide (q < 0) then ['-'.toUInt8] else []) := by simp
  -- the digits on both sides of the point
  have hsides : ∀ n, ∀ c ∈ (chosenDigits precision q).take n ++
      dropZeros ((chosenDigits precision q).drop n), isDigit c := by
    intro n c hc
    rcases List.mem_append.mp hc with hc | hc
    · exact hdigit c (List.mem_of_mem_take hc)
    · exact isDigit_of_mem_dropZeros (fun c hc => hdigit c (List.mem_of_mem_drop hc)) c hc
  have hinteger : ∀ n, 0 < n → (chosenDigits precision q).take n ≠ [] := by
    intro n hn
    rw [ne_eq, List.take_eq_nil_iff, not_or]
    exact ⟨hn.ne', decimal_ne_nil _⟩
  rw [formatG, if_neg hq]
  simp only [show ascii (toString (Binary64.significant precision |q|).1) =
    chosenDigits precision q from rfl, hsign]
  -- the style with an exponent, the one with leading zeros, and the plain one
  split
  · refine ⟨.ofDigits (decide (q < 0)) _ _
      (some (writtenExponent (Binary64.significant precision |q|).2))
      (hinteger 1 (by omega)) (hsides 1), ?_, ?_⟩
    · rw [NumberLiteral.text_ofDigits, Option.map_some, Option.getD_some, writtenExponent_text]
    · refine value_chosenDigits ((chosenDigits precision q).take 1)
        ((chosenDigits precision q).drop 1) (Binary64.significant precision |q|).2 rfl rfl
        (by rw [List.take_append_drop]) ?_ ?_
      · simp only [NumberLiteral.exponent, NumberLiteral.ofDigits, Option.map_some,
          Option.getD_some, writtenExponent_value]
      · rw [List.length_drop, hlength]
        omega
  · next hrange =>
    rw [not_or, not_lt, not_le] at hrange
    split
    · next hneg => exact exists_literal_of_leadingZeros hprecision hq (by omega)
    · next hnonneg =>
      have hpoint : 0 < (Binary64.significant precision |q|).2.toNat + 1 := Nat.succ_pos _
      -- `dd.ddd`: the point stands behind the digit that the exponent counts to
      refine ⟨.ofDigits (decide (q < 0)) _ _ none (hinteger _ hpoint) (hsides _), ?_, ?_⟩
      · rw [NumberLiteral.text_ofDigits, Option.map_none, Option.getD_none, List.append_nil]
      · refine value_chosenDigits
          ((chosenDigits precision q).take ((Binary64.significant precision |q|).2.toNat + 1))
          ((chosenDigits precision q).drop ((Binary64.significant precision |q|).2.toNat + 1))
          0 rfl rfl (by rw [List.take_append_drop]) ?_ ?_
        · simp only [NumberLiteral.exponent, NumberLiteral.ofDigits, Option.map_none,
            Option.getD_none]
        · rw [List.length_drop, hlength]
          omega

/-- What `%g` writes takes at most seven characters more than its digits. -/
theorem formatG_length_le (hprecision : 1 < precision) (hq : Representable q) :
    (formatG precision q).length ≤ precision + 7 := by
  by_cases hzero : q = 0
  · rw [formatG, if_pos hzero]
    exact (show 1 ≤ precision + 7 by omega)
  have hlength := chosenDigits_length hprecision hzero
  obtain ⟨hlo, hhi⟩ : -324 ≤ (Binary64.significant precision |q|).2 ∧
      (Binary64.significant precision |q|).2 ≤ 309 :=
    Binary64.significant_exponent_bounds hq hzero
  have hsign : (if q < 0 then ['-'.toUInt8] else []).length ≤ 1 := by split <;> decide
  -- a point and at most the digits that are left
  have hfraction : ∀ n, (formatFraction (dropZeros ((chosenDigits precision q).drop n))).length ≤
      precision - n + 1 := by
    intro n
    have hle := dropZeros_length_le ((chosenDigits precision q).drop n)
    rw [List.length_drop, hlength] at hle
    rw [formatFraction]
    split
    · exact Nat.zero_le _
    · rw [List.length_cons]
      omega
  -- `e`, a sign and three digits
  have hexponent : (formatExponent (Binary64.significant precision |q|).2).length ≤ 5 := by
    have habs : (Binary64.significant precision |q|).2.natAbs < 10 ^ 3 := by omega
    have hdigits := decimal_length_le (by norm_num) habs
    rw [decimal] at hdigits
    simp only [formatExponent, List.length_cons]
    split
    · rw [List.length_cons]
      omega
    · omega
  have hall := dropZeros_length_le (chosenDigits precision q)
  rw [formatG, if_neg hzero]
  simp only [show ascii (toString (Binary64.significant precision |q|).1) =
    chosenDigits precision q from rfl]
  -- again the three styles
  split
  · have := hfraction 1
    simp only [List.length_append, List.length_take]
    omega
  · split
    · have htwo : (ascii "0.").length = 2 := by decide
      simp only [List.length_append, List.length_replicate, htwo]
      omega
    · have := hfraction ((Binary64.significant precision |q|).2.toNat + 1)
      simp only [List.length_append, List.length_take]
      omega

end

/-! ## Printed numbers -/

/-- The text of a number, without a buffer to fit in. -/
def renderNumber (d : Double) : List UInt8 :=
  match d with
  | .infinite _ => ascii "null"
  | .negZero => ascii "-0"
  | .finite q =>
    if (strtod (formatG 15 q)).map Prod.fst = some d then formatG 15 q else formatG 17 q

/-- A double that is one: its value is a binary64 value. -/
def IsBinary64 : Double → Prop
  | .infinite _ => True
  | .negZero => True
  | .finite q => Representable q

private theorem sprintfNumber_eq {text : List UInt8} (h : text.length ≤ 25) :
    sprintfNumber text = .ok text := by
  have hwrite : ∃ block, memcpy (List.replicate 26 0) 0 (text ++ [0]) = .ok block := by
    rw [memcpy, if_pos]
    · exact ⟨_, rfl⟩
    · simp only [List.length_append, List.length_singleton, List.length_replicate]
      omega
  obtain ⟨block, hblock⟩ := hwrite
  rw [sprintfNumber, hblock]
  rfl

theorem renderNumber_length_le {d : Double} (hd : IsBinary64 d) :
    (renderNumber d).length ≤ 24 := by
  cases d with
  | infinite => exact (show 4 ≤ 24 by norm_num)
  | negZero => exact (show 2 ≤ 24 by norm_num)
  -- 17 digits and seven characters more
  | finite q =>
    rw [renderNumber]
    split
    · exact (formatG_length_le (by norm_num) hd).trans (by norm_num)
    · exact formatG_length_le (by norm_num) hd

/-- The text of a number always fits the buffer of `print_number`. -/
theorem numberText_eq {d : Double} (hd : IsBinary64 d) : numberText d = .ok (renderNumber d) := by
  cases d with
  | infinite => exact sprintfNumber_eq (by decide)
  | negZero => exact sprintfNumber_eq (by decide)
  | finite q =>
    have hfits : ∀ precision, 1 < precision → precision ≤ 17 →
        sprintfNumber (formatG precision q) = .ok (formatG precision q) := fun precision h hle =>
      sprintfNumber_eq ((formatG_length_le h hd).trans (by omega))
    simp only [numberText, renderNumber, hfits 15 (by norm_num) (by norm_num),
      hfits 17 (by norm_num) (by norm_num), Except.ok_bind]
    split <;> rfl

/-- A printed number is a literal that is read back as the number it was printed for. -/
theorem exists_literal_of_renderNumber {d : Double} (hd : IsBinary64 d) (hfinite : d.value ≠ none) :
    ∃ l : NumberLiteral, renderNumber d = l.text ∧ l.double = d := by
  have hzero : Binary64.nearest 0 = .finite 0 := by
    simpa using Binary64.nearest_natCast (n := 0) (by norm_num)
  have hmantissa : digitsValue ['0'.toUInt8] = 0 := by decide
  cases d with
  | infinite => exact absurd rfl hfinite
  | negZero =>
    refine ⟨.ofDigits true ['0'.toUInt8] [] none (List.cons_ne_nil _ _) (List.all_eq_true.mp rfl),
      ?_, ?_⟩
    · decide
    · simp [NumberLiteral.double, NumberLiteral.ofDigits, NumberLiteral.value,
        NumberLiteral.mantissa, hmantissa, hzero, Double.withSign,
        show (0 : Double) = .finite 0 from rfl]
  | finite q =>
    by_cases hq : q = 0
    · subst hq
      refine ⟨.ofDigits false ['0'.toUInt8] [] none (List.cons_ne_nil _ _)
        (List.all_eq_true.mp rfl), ?_, ?_⟩
      · simp only [renderNumber, formatG, if_true, ite_self]
        decide
      · simpa [NumberLiteral.double, NumberLiteral.ofDigits, NumberLiteral.value,
          NumberLiteral.mantissa, hmantissa] using hzero
    · have hread : ∀ precision, 1 < precision → precision ≤ 17 → ∃ l : NumberLiteral,
          formatG precision q = l.text ∧ strtod (formatG precision q) =
            some (l.double, l.text.length) := by
        intro precision hprecision hle
        obtain ⟨l, htext, -⟩ := exists_literal_of_formatG hprecision hq
        have hlen := formatG_length_le hprecision hd
        rw [htext] at hlen ⊢
        exact ⟨l, rfl, l.strtod_text (by omega)⟩
      rw [renderNumber]
      split
      · next htest =>
        -- the test of `print_number` is that the fifteen digits are enough
        obtain ⟨l, htext, hstrtod⟩ := hread 15 (by norm_num) (by norm_num)
        rw [hstrtod] at htest
        exact ⟨l, htext, Option.some.inj htest⟩
      -- 17 digits always determine the double
      · obtain ⟨l, htext, hvalue⟩ := exists_literal_of_formatG (show 1 < 17 by norm_num) hq
        refine ⟨l, htext, ?_⟩
        have hnearest := Binary64.nearest_significant hd hq
        have hsame : Binary64.nearest l.value = .finite q := by
          rw [hvalue, ← hnearest]
          by_cases hneg : q < 0 <;> simp [signFactor, hneg]
        -- it is no zero, so the sign makes no difference
        rw [NumberLiteral.double, hsame, Double.withSign_of_ne _ fun h => hq (Double.finite.inj h)]

/-- Reading is the inverse of printing. -/
theorem strtod_renderNumber {d : Double} (hd : IsBinary64 d) (hfinite : d.value ≠ none) :
    strtod (renderNumber d) = some (d, (renderNumber d).length) := by
  obtain ⟨l, htext, hvalue⟩ := exists_literal_of_renderNumber hd hfinite
  have hlen := renderNumber_length_le hd
  rw [htext] at hlen ⊢
  rw [l.strtod_text (by omega), hvalue]

end ArkInC.Native
