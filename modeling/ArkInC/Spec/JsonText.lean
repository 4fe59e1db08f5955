import ArkInC.Spec.ParseStable

/-!
# JSON texts and their trees

The texts of numbers and objects as a node writes them, and what the parser of cJSON
makes of them. A text is given by its parts, so that it can hold an arbitrary number.

## Key results

- `readsAs_decimal`: a whole number up to `2 ^ 53` is read exactly
- `cJSONParse_objectText`: an object is read member by member
-/

namespace ArkInC.Native

open Binary64 (Double)

/-! ## Digits -/

/-- The decimal digits of a number. -/
def decimal (n : Nat) : List UInt8 := ascii (toString n)

theorem decimal_eq (n : Nat) : decimal n = (Nat.toDigits 10 n).map Char.toUInt8 := by
  rw [decimal, ascii, Nat.toString_eq_ofList_toDigits, String.toList_ofList]

/-- The code of an ASCII digit. -/
private theorem toUInt8_toNat_of_isDigit {c : Char} (h : c.isDigit) :
    c.toUInt8.toNat = c.toNat ∧ 48 ≤ c.toNat ∧ c.toNat ≤ 57 := by
  have hrange : 48 ≤ c.toNat ∧ c.toNat ≤ 57 := Char.isDigit_iff_toNat.mp h
  refine ⟨?_, hrange⟩
  simp only [Char.toUInt8, UInt32.toNat_toUInt8, Char.toNat_val]
  omega

theorem isDigit_of_mem_decimal {n : Nat} {d : UInt8} (h : d ∈ decimal n) : isDigit d := by
  rw [decimal_eq] at h
  obtain ⟨c, hc, rfl⟩ := List.mem_map.mp h
  have ⟨htoNat, hlo, hhi⟩ :=
    toUInt8_toNat_of_isDigit (Nat.isDigit_of_mem_toDigits (by omega) (by omega) hc)
  simp only [isDigit, UInt8.le_iff_toNat_le, htoNat, decide_eq_true_eq]
  exact ⟨hlo, hhi⟩

theorem noNul_decimal (n : Nat) : 0 ∉ decimal n :=
  fun h => absurd (isDigit_of_mem_decimal h) (by decide)

theorem decimal_ne_nil (n : Nat) : decimal n ≠ [] := by
  rw [decimal_eq, ne_eq, List.map_eq_nil_iff]
  exact Nat.toDigits_ne_nil

theorem decimal_length_le {n k : Nat} (hk : 0 < k) (hn : n < 10 ^ k) :
    (decimal n).length ≤ k := by
  rw [decimal_eq, List.length_map]
  exact (Nat.length_toDigits_le_iff (by omega) hk).mpr hn

theorem takeWhile_isDigit_decimal (n : Nat) : (decimal n).takeWhile isDigit = decimal n :=
  List.takeWhile_eq_self_iff.mpr fun _ => isDigit_of_mem_decimal

/-- Reading digits is the inverse of writing them. -/
theorem digitsValue_decimal (n : Nat) : digitsValue (decimal n) = n := by
  suffices ∀ (cs : List Char) (value : Nat), (∀ c ∈ cs, c.isDigit) →
      (cs.map Char.toUInt8).foldl (fun value d => value * 10 + (d - '0'.toUInt8).toNat) value =
        Nat.ofDigitChars 10 cs value by
    have hdigits : ∀ c ∈ Nat.toDigits 10 n, c.isDigit := fun c =>
      Nat.isDigit_of_mem_toDigits (by omega) (by omega)
    rw [decimal_eq, digitsValue, this _ _ hdigits, Nat.ofDigitChars_ten_toDigits]
  -- the two folds agree digit by digit, from any accumulator
  intro cs
  induction cs with
  | nil => exact fun value _ => rfl
  | cons c cs ih =>
    intro value hdigits
    have ⟨htoNat, hlo, hhi⟩ := toUInt8_toNat_of_isDigit (hdigits c List.mem_cons_self)
    have hsub : (c.toUInt8 - '0'.toUInt8).toNat = c.toNat - '0'.toNat := by
      rw [UInt8.toNat_sub_of_le _ _ (UInt8.le_iff_toNat_le.mpr (htoNat ▸ hlo)), htoNat]
      rfl
    have htail : ∀ d ∈ cs, d.isDigit := fun d hd => hdigits d (List.mem_cons_of_mem _ hd)
    rw [List.map_cons, List.foldl_cons, hsub, ih _ htail, Nat.ofDigitChars_cons, Nat.mul_comm]

/-! ## Numbers -/

theorem isNumberChar_of_isDigit {c : UInt8} (h : isDigit c) : isNumberChar c := by
  simp [isNumberChar, h]

theorem splitSign_of_isDigit {c : UInt8} {s : List UInt8} (h : isDigit c) :
    splitSign (c :: s) = (false, c :: s) := by
  have hminus : c ≠ '-'.toUInt8 := by rintro rfl; exact absurd h (by decide)
  have hplus : c ≠ '+'.toUInt8 := by rintro rfl; exact absurd h (by decide)
  rw [splitSign, if_neg hminus, if_neg hplus]

theorem decimalToDouble_natCast {n : Nat} (hn : n ≤ 2 ^ 53) :
    decimalToDouble false n 0 = (n : Double) := by
  rw [decimalToDouble, Double.withSign_false]
  split
  · next hzero =>
    obtain rfl : n = 0 := by omega
    rw [Binary64.natCast_def, Nat.cast_zero]
    rfl
  · rw [if_neg (by omega), if_neg Bool.false_ne_true, one_mul, zpow_zero, mul_one,
      Binary64.nearest_natCast hn, Binary64.natCast_def]

/-- `strtod` takes all the digits of a number. -/
theorem strtod_decimal {n : Nat} (hn : n ≤ 2 ^ 53) :
    strtod (decimal n) = some ((n : Double), (decimal n).length) := by
  have hdigits : ∀ d ∈ decimal n, isDigit d := fun d => isDigit_of_mem_decimal
  have hdrop : (decimal n).dropWhile isDigit = [] := List.dropWhile_eq_nil_iff.mpr hdigits
  have hsign : splitSign (decimal n) = (false, decimal n) := by
    obtain ⟨d, s, hs⟩ := List.exists_cons_of_ne_nil (decimal_ne_nil n)
    rw [hs, splitSign_of_isDigit (hdigits d (hs ▸ List.mem_cons_self))]
  -- without a point and an exponent the digits are all there is
  simp only [strtod, hsign, takeWhile_isDigit_decimal, hdrop, splitFraction, splitExponent,
    decimal_ne_nil, false_and, if_false, List.append_nil, List.length_nil, digitsValue_decimal,
    Nat.cast_zero, sub_zero, decimalToDouble_natCast hn, Nat.sub_zero]

/-- A whole number is read up to the character that ends it. -/
theorem parseNumber_decimal {n : Nat} (hn : n ≤ 2 ^ 53) {c : UInt8} (hc : EndsNumber c)
    (rest : List UInt8) :
    parseNumber (decimal n ++ c :: rest) = some (.number (n : Double), c :: rest) := by
  -- the sixteen digits fit into the buffer
  have hlen : (decimal n).length ≤ 63 :=
    (decimal_length_le (by omega) (lt_of_le_of_lt hn (by norm_num : 2 ^ 53 < 10 ^ 16))).trans
      (by omega)
  rw [parseNumber, numberChars_append (fun d hd => isNumberChar_of_isDigit
    (isDigit_of_mem_decimal hd)) hlen hc, strtod_decimal hn]
  simp

/-! ## Values -/

/-- `text` is read as `v` in front of any character that ends a number. -/
def ReadsAs (levels : Nat) (text : List UInt8) (v : CJSON) : Prop :=
  ∀ c rest, EndsNumber c → parseValue levels (text ++ c :: rest) = some (v, c :: rest)

/-- A value does not start with a blank. -/
theorem bufferSkipWhitespace_of_parseValue {levels : Nat} {s rest : List UInt8} {v : CJSON}
    (h : parseValue levels s = some (v, rest)) : bufferSkipWhitespace s = s := by
  have hat : isWhitespace (bufferAtOffset s) = false := by
    -- the first character decides what is read, and none of them is a blank
    cases parsesValue_of_parseValue h with
    | null hstart => rw [bufferAtOffset_of_startsWith hstart (by decide)]; decide
    | false hstart => rw [bufferAtOffset_of_startsWith hstart (by decide)]; decide
    | true hstart => rw [bufferAtOffset_of_startsWith hstart (by decide)]; decide
    | string hread => rw [bufferAtOffset_of_parseString hread]; decide
    | number hat =>
      rcases hat with hminus | hdigit
      · rw [hminus]; decide
      · refine Bool.eq_false_iff.mpr fun hblank => ?_
        have hnumber := isNumberChar_of_isDigit hdigit
        exact Bool.false_ne_true ((endsNumber_of_isWhitespace hblank).symm.trans hnumber)
    | array _ hread => rw [bufferAtOffset_of_parseList hread]; decide
    | object _ hread => rw [bufferAtOffset_of_parseList hread]; decide
  cases s with
  | nil => rfl
  | cons c s => exact List.dropWhile_cons_of_neg (Bool.eq_false_iff.mp hat)

theorem readsAs_true (levels : Nat) : ReadsAs levels (ascii "true") .true := by
  intro c rest _
  exact parseValue_of_parsesValue (.true (s := ascii "true" ++ c :: rest) rfl)

/-- A whole number up to `2 ^ 53` is read exactly. -/
theorem readsAs_decimal (levels : Nat) {n : Nat} (hn : n ≤ 2 ^ 53) :
    ReadsAs levels (decimal n) (.number (n : Double)) := by
  intro c rest hc
  obtain ⟨d, s, hs⟩ := List.exists_cons_of_ne_nil (decimal_ne_nil n)
  have hdigit : isDigit d := isDigit_of_mem_decimal (hs ▸ List.mem_cons_self)
  refine parseValue_of_parsesValue (.number (.inr ?_) (parseNumber_decimal hn hc rest))
  rw [hs]
  exact hdigit

/-! ## Objects -/

/-- `"name"` -/
def quoted (name : String) : List UInt8 := '"'.toUInt8 :: ascii name ++ ['"'.toUInt8]

/-- Between quotes the name is read as itself. -/
abbrev PlainName (name : String) : Prop :=
  parseString (quoted name) = some (.lit name, []) ∧ 0 ∉ quoted name

/-- A member of an object: its name, and a text that is read as its value. -/
structure WrittenMember (levels : Nat) where
  name : String
  text : List UInt8
  value : CJSON
  name_plain : PlainName name
  text_read : ReadsAs levels text value ∧ 0 ∉ text

namespace WrittenMember

variable {levels : Nat}

/-- `"name":value` -/
def written (m : WrittenMember levels) : List UInt8 := quoted m.name ++ ':'.toUInt8 :: m.text

/-- What the parser makes of it. -/
def tree (m : WrittenMember levels) : CString × CJSON := (.lit m.name, m.value)

/-- A member is read up to a comma or a closing bracket. -/
theorem parseMember_written (m : WrittenMember levels) {c : UInt8} (hc : EndsNumber c)
    (hblank : isWhitespace c = false) (rest : List UInt8) :
    parseMember (parseValue levels) (m.written ++ c :: rest) = some (m.tree, c :: rest) := by
  -- the four places of `parse_member`: name, colon, value, end
  have hname : parseString (bufferSkipWhitespace (m.written ++ c :: rest)) =
      some (.lit m.name, ':'.toUInt8 :: (m.text ++ c :: rest)) := by
    have hskip : bufferSkipWhitespace (m.written ++ c :: rest) = m.written ++ c :: rest :=
      List.dropWhile_cons_of_neg (by decide)
    have hread := parseString_stable _ _ _ m.name_plain.1 (':'.toUInt8 :: (m.text ++ c :: rest))
    rwa [hskip, written, List.append_assoc]
  have hvalue := m.text_read.1 c rest hc
  have hcolon : bufferSkipWhitespace (':'.toUInt8 :: (m.text ++ c :: rest)) =
      ':'.toUInt8 :: (m.text ++ c :: rest) := List.dropWhile_cons_of_neg (by decide)
  have hend : bufferSkipWhitespace (c :: rest) = c :: rest :=
    List.dropWhile_cons_of_neg (Bool.eq_false_iff.mp hblank)
  simp only [parseMember, hname, hcolon, bufferAtOffset_cons, ne_eq, not_true, if_false,
    parseElement, List.drop_one, List.tail_cons, bufferSkipWhitespace_of_parseValue hvalue,
    hvalue, hend, Option.map_some, tree]

end WrittenMember

variable {levels : Nat}

/-- The members of an object with commas between them. -/
def membersText (m : WrittenMember levels) : List (WrittenMember levels) → List UInt8
  | [] => m.written
  | next :: members => m.written ++ ','.toUInt8 :: membersText next members

/-- `{"name":value,...}`, with at least one member. -/
def objectText (m : WrittenMember levels) (members : List (WrittenMember levels)) : List UInt8 :=
  '{'.toUInt8 :: membersText m members ++ ['}'.toUInt8]

/-- The loop of `parse_object` reads the members one after the other. -/
theorem sepBy_membersText (m : WrittenMember levels) (members : List (WrittenMember levels))
    (rest : List UInt8) :
    Reader.sepBy (parseMember (parseValue levels)) (· = ','.toUInt8)
        (membersText m members ++ '}'.toUInt8 :: rest) =
      some ((m :: members).map WrittenMember.tree, '}'.toUInt8 :: rest) := by
  -- one turn of the loop for each member, up to the comma or the bracket
  induction members generalizing m with
  | nil =>
    rw [parseMember_loop, Reader.sepByTurn, membersText,
      m.parseMember_written (by decide) (by decide)]
    rfl
  | cons next members ih =>
    rw [parseMember_loop, Reader.sepByTurn, membersText, List.append_assoc, List.cons_append,
      m.parseMember_written (by decide) (by decide)]
    simp only [ih, decide_true, if_true, Option.map_some, List.map_cons]

/-- An object is read member by member, whatever follows it. -/
theorem parseValue_objectText (m : WrittenMember levels) (members : List (WrittenMember levels))
    (rest : List UInt8) :
    parseValue (levels + 1) (objectText m members ++ rest) =
      some (.object ((m :: members).map WrittenMember.tree), rest) := by
  have hquote : bufferSkipWhitespace (membersText m members ++ '}'.toUInt8 :: rest) =
      membersText m members ++ '}'.toUInt8 :: rest := by
    cases members <;> exact List.dropWhile_cons_of_neg (by decide)
  -- a name comes first, so the object is not empty
  have hopen : bufferAtOffset (membersText m members ++ '}'.toUInt8 :: rest) ≠ '}'.toUInt8 := by
    cases members <;> exact (show '"'.toUInt8 ≠ '}'.toUInt8 by decide)
  refine parseValue_of_parsesValue (.object rfl ?_)
  simp only [objectText, List.cons_append, List.append_assoc, List.nil_append]
  simp only [parseList, bufferAtOffset_cons, ne_eq, not_true, if_false, List.drop_one,
    List.tail_cons, hquote, hopen, sepBy_membersText]

theorem noNul_membersText (m : WrittenMember levels) (members : List (WrittenMember levels)) :
    0 ∉ membersText m members := by
  have hwritten : ∀ m : WrittenMember levels, 0 ∉ m.written := fun m => by
    simp only [WrittenMember.written, List.mem_append, List.mem_cons, not_or]
    exact ⟨m.name_plain.2, by decide, m.text_read.2⟩
  induction members generalizing m with
  | nil => exact hwritten m
  | cons next members ih =>
    simp only [membersText, List.mem_append, List.mem_cons, not_or]
    exact ⟨hwritten m, by decide, ih next⟩

theorem noNul_objectText (m : WrittenMember levels) (members : List (WrittenMember levels)) :
    0 ∉ objectText m members := by
  simp only [objectText, List.mem_append, List.mem_cons, List.not_mem_nil, or_false, not_or]
  exact ⟨⟨by decide, noNul_membersText m members⟩, by decide⟩

namespace WrittenMember

/-- `"name":true` -/
def true (name : String) (hname : PlainName name) : WrittenMember levels where
  name := name
  text := ascii "true"
  value := .true
  name_plain := hname
  text_read := ⟨readsAs_true levels, by decide⟩

/-- `"name":n` -/
def number (name : String) (hname : PlainName name) (n : Nat) (hn : n ≤ 2 ^ 53) :
    WrittenMember levels where
  name := name
  text := decimal n
  value := .number n
  name_plain := hname
  text_read := ⟨readsAs_decimal levels hn, noNul_decimal n⟩

/-- `"name":{...}` -/
def object (name : String) (hname : PlainName name) (m : WrittenMember levels)
    (members : List (WrittenMember levels)) : WrittenMember (levels + 1) where
  name := name
  text := objectText m members
  value := .object ((m :: members).map tree)
  name_plain := hname
  text_read := ⟨fun c rest _ => parseValue_objectText m members (c :: rest),
    noNul_objectText m members⟩

end WrittenMember

/-- The members of an object text are those of the root. -/
theorem cJSONParse_objectText (m : WrittenMember 999) (members : List (WrittenMember 999)) :
    cJSONParse (some ⟨objectText m members, noNul_objectText m members⟩) =
      some (.object ((m :: members).map WrittenMember.tree)) := by
  have hroot := parseValue_objectText m members []
  rw [List.append_nil] at hroot
  simp only [cJSONParse, bufferSkipWhitespace_of_parseValue hroot]
  exact congrArg (Option.map Prod.fst) hroot

end ArkInC.Native
