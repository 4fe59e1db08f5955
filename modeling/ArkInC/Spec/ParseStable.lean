import ArkInC.Native.JsonParse

/-!
# Parsing the beginning of a text

A JSON text that is cut off: what the parser of cJSON says about the part that
arrived, compared with what it says about the whole. A string, an array and an object
carry their own end, so their functions are `Reader.Stable`; a number does not, so
`parseValue` is only stable in front of a character that cannot belong to a number.
Inside an object every value is followed by such a character, and so an object that
parses at all parses to the same members whatever follows it.

## Key results

- `parseValue_stableBefore`: a value is the same on every continuation once a
  character that ends a number follows it
- `parseValue_append`, `cJSONParse_append`: any other value is the same on every
  continuation
- `parseValue_nonIncreasing`: the parser moves forward, so that its loops never run out
  of fuel
-/

namespace ArkInC.Native

open Reader (Stable StableBefore NonIncreasing)

/-! ## The cursor -/

@[simp] theorem bufferAtOffset_nil : bufferAtOffset [] = 0 := rfl

@[simp] theorem bufferAtOffset_cons (c : UInt8) (s : List UInt8) : bufferAtOffset (c :: s) = c :=
  rfl

theorem bufferAtOffset_append {s : List UInt8} (h : s ≠ []) (t : List UInt8) :
    bufferAtOffset (s ++ t) = bufferAtOffset s := by
  obtain ⟨c, s, rfl⟩ := List.exists_cons_of_ne_nil h
  rfl

theorem drop_one_append {s : List UInt8} (h : s ≠ []) (t : List UInt8) :
    (s ++ t).drop 1 = s.drop 1 ++ t := by
  obtain ⟨c, s, rfl⟩ := List.exists_cons_of_ne_nil h
  rfl

/-- The cursor is at a character other than NUL only inside the text. -/
theorem ne_nil_of_bufferAtOffset {s : List UInt8} (h : bufferAtOffset s ≠ 0) : s ≠ [] := by
  rintro rfl
  exact h rfl

/-- Whitespace that ends inside the text ends there whatever follows the text. -/
theorem bufferSkipWhitespace_append {s : List UInt8} (h : bufferSkipWhitespace s ≠ [])
    (t : List UInt8) : bufferSkipWhitespace (s ++ t) = bufferSkipWhitespace s ++ t :=
  -- the first character that is no blank is there already
  List.dropWhile_append_of_ne_nil h t

theorem bufferSkipWhitespace_length_le (s : List UInt8) :
    (bufferSkipWhitespace s).length ≤ s.length :=
  (List.dropWhile_sublist _).length_le

/-! ## Numbers -/

/-- A character that cannot continue a number. -/
def EndsNumber (c : UInt8) : Prop := isNumberChar c = false

instance : DecidablePred EndsNumber := fun c => inferInstanceAs (Decidable (isNumberChar c = false))

private theorem splitSign_length (s : List UInt8) : (splitSign s).2.length ≤ s.length := by
  unfold splitSign
  split
  · split
    · simp
    · split <;> simp
  · simp

private theorem splitFraction_length (s : List UInt8) :
    (splitFraction s).1.length + (splitFraction s).2.length ≤ s.length := by
  unfold splitFraction
  split
  · next c rest =>
    split
    · have hsplit := congrArg List.length (rest.takeWhile_append_dropWhile (p := isDigit))
      simp only [List.length_append] at hsplit
      simp only [List.length_cons]
      omega
    · simp
  · simp

private theorem splitExponent_length (s : List UInt8) : (splitExponent s).2.length ≤ s.length := by
  unfold splitExponent
  split
  · next c rest =>
    split
    · have hsign := splitSign_length rest
      have hdrop := (List.dropWhile_sublist isDigit (l := (splitSign rest).2)).length_le
      dsimp only
      -- without digits behind the mark nothing is taken
      split
      · exact Nat.le_refl _
      · simp only [List.length_cons]
        omega
    · simp
  · simp

/-- A number has at least one character, and `strtod` does not take more than it is given. -/
theorem strtod_taken {s : List UInt8} {d : Binary64.Double} {n : Nat}
    (h : strtod s = some (d, n)) : 0 < n ∧ n ≤ s.length := by
  simp only [strtod] at h
  split at h
  · exact nomatch h
  · next hdigits =>
    obtain ⟨-, rfl⟩ := Prod.mk.inj (Option.some.inj h)
    have hsign := splitSign_length s
    have hfraction := splitFraction_length ((splitSign s).2.dropWhile isDigit)
    have hexponent := splitExponent_length (splitFraction ((splitSign s).2.dropWhile isDigit)).2
    have hsplit := congrArg List.length
      ((splitSign s).2.takeWhile_append_dropWhile (p := isDigit))
    simp only [List.length_append] at hsplit
    -- the digits of the literal are not counted in what is left
    have hpos : 0 < ((splitSign s).2.takeWhile isDigit).length +
        (splitFraction ((splitSign s).2.dropWhile isDigit)).1.length := by
      by_contra hzero
      exact hdigits ⟨List.eq_nil_of_length_eq_zero (by omega),
        List.eq_nil_of_length_eq_zero (by omega)⟩
    omega

/-- The number characters in front of a character that ends a number do not depend on
    what follows that character. -/
theorem numberChars_append {number : List UInt8} {c : UInt8} {rest : List UInt8}
    (hnumber : ∀ d ∈ number, isNumberChar d) (hlen : number.length ≤ 63) (hc : EndsNumber c) :
    ((number ++ c :: rest).take 63).takeWhile isNumberChar = number := by
  rw [List.take_append, List.take_of_length_le hlen, List.takeWhile_append_of_pos hnumber]
  -- either the buffer is full, or the next character is `c`
  cases 63 - number.length with
  | zero => simp
  | succ n => simp [show isNumberChar c = false from hc]

theorem parseNumber_stableBefore : StableBefore EndsNumber parseNumber := by
  intro s v c rest h hc t
  simp only [parseNumber] at h
  split at h
  · exact nomatch h
  · next d taken hstrtod =>
    obtain ⟨rfl, hrest⟩ := Prod.mk.inj (Option.some.inj h)
    have ⟨_, hle⟩ := strtod_taken hstrtod
    have hnumber : ∀ d ∈ (s.take 63).takeWhile isNumberChar, isNumberChar d :=
      fun d hd => List.mem_takeWhile_imp hd
    have hlen : ((s.take 63).takeWhile isNumberChar).length ≤ 63 :=
      (List.takeWhile_sublist _).length_le.trans (List.length_take_le _ _)
    have hstart : (s.take 63).takeWhile isNumberChar <+: s :=
      (List.takeWhile_prefix _).trans (List.take_prefix _ _)
    generalize (s.take 63).takeWhile isNumberChar = number at *
    obtain ⟨left, rfl⟩ := hstart
    -- `strtod` took all of it: the character after the number is no number character
    have htaken : taken = number.length := by
      by_contra hne
      have hlt : taken < number.length := by omega
      rw [List.drop_append_of_le_length hle, List.drop_eq_getElem_cons hlt] at hrest
      have hmem : c ∈ number := (List.cons.inj hrest).1 ▸ List.getElem_mem hlt
      exact Bool.false_ne_true (hc.symm.trans (hnumber c hmem))
    -- the same characters go to `strtod` when more text follows
    subst htaken
    rw [List.drop_left] at hrest
    rw [hrest, parseNumber, List.append_assoc, List.cons_append,
      numberChars_append hnumber hlen hc, hstrtod]
    simp

theorem exists_number_of_parseNumber {s rest : List UInt8} {v : CJSON}
    (h : parseNumber s = some (v, rest)) : ∃ d, v = .number d := by
  simp only [parseNumber] at h
  split at h
  · exact nomatch h
  · next d taken hstrtod => exact ⟨d, (Prod.mk.inj (Option.some.inj h)).1.symm⟩

theorem parseNumber_shrinks {s rest : List UInt8} {v : CJSON}
    (h : parseNumber s = some (v, rest)) : rest.length < s.length := by
  simp only [parseNumber] at h
  split at h
  · exact nomatch h
  · next d taken hstrtod =>
    obtain ⟨-, rfl⟩ := Prod.mk.inj (Option.some.inj h)
    have ⟨hpos, hle⟩ := strtod_taken hstrtod
    -- what `strtod` is given is a part of the text
    have hlen := ((List.takeWhile_sublist isNumberChar).trans (List.take_sublist 63 s)).length_le
    simp only [List.length_drop]
    omega

/-! ## Strings -/

/-- The closing quote is inside the text, and is found there whatever follows. -/
private theorem stringEnd_append {s : List UInt8} {n : Nat} (h : stringEnd s = some n) :
    n < s.length ∧ ∀ t, stringEnd (s ++ t) = some n := by
  -- the search passes over two characters at a backslash, else over one
  induction s using stringEnd.induct generalizing n with
  | case1 => simp [stringEnd] at h
  | case2 =>
    have hn : n = 0 := by simpa [stringEnd] using h.symm
    subst hn
    refine ⟨by simp, fun t => ?_⟩
    cases t <;> simp [stringEnd]
  | case3 c hc => simp [stringEnd, hc] at h
  | case4 d rest =>
    have hn : n = 0 := by simpa [stringEnd] using h.symm
    subst hn
    exact ⟨by simp, fun t => by simp [stringEnd]⟩
  | case5 d rest hc ih =>
    simp only [stringEnd, hc, if_true, if_false] at h
    obtain ⟨m, hm, rfl⟩ := Option.map_eq_some_iff.mp h
    have ⟨hlt, happend⟩ := ih hm
    refine ⟨by simp only [List.length_cons]; omega, fun t => ?_⟩
    simp [stringEnd, hc, happend t]
  | case6 c d rest hquote hslash ih =>
    simp only [stringEnd, hquote, hslash, if_false] at h
    obtain ⟨m, hm, rfl⟩ := Option.map_eq_some_iff.mp h
    have ⟨hlt, happend⟩ := ih hm
    refine ⟨by simp only [List.length_cons] at hlt ⊢; omega, fun t => ?_⟩
    have hrest := happend t
    rw [List.cons_append] at hrest
    simp [stringEnd, hquote, hslash, hrest]

theorem parseString_nil : parseString [] = none := rfl

/-- A string ends at its own quote. -/
theorem parseString_stable : Stable parseString := by
  intro s v rest h t
  simp only [parseString] at h ⊢
  split at h
  · exact nomatch h
  · next hquote =>
    have hne : s ≠ [] := ne_nil_of_bufferAtOffset (by rw [not_not.mp hquote]; decide)
    rw [bufferAtOffset_append hne, if_neg hquote, drop_one_append hne]
    split at h
    · exact nomatch h
    · next n hend =>
      have ⟨hlt, happend⟩ := stringEnd_append hend
      split at h
      · exact nomatch h
      · next output houtput =>
        obtain ⟨rfl, rfl⟩ := Prod.mk.inj (Option.some.inj h)
        simp only [happend t]
        -- the body and its closing quote are inside `s`, so what is decoded is the same
        rw [List.take_append_of_le_length (by omega), List.drop_append_of_le_length (by omega),
          houtput]

theorem parseString_shrinks {s rest : List UInt8} {v : CString}
    (h : parseString s = some (v, rest)) : rest.length < s.length := by
  cases s with
  | nil => simp [parseString_nil] at h
  | cons c input =>
    simp only [parseString, List.drop_one, List.tail_cons] at h
    split at h
    · exact nomatch h
    · split at h
      · exact nomatch h
      · split at h
        · exact nomatch h
        · obtain ⟨-, rfl⟩ := Prod.mk.inj (Option.some.inj h)
          simp only [List.length_drop, List.length_cons]
          omega

/-! ## Arrays and objects -/

section Lists

variable {value : Reader UInt8 CJSON}

/-- Whitespace, the comma and the closing brackets end a number. -/
theorem endsNumber_of_isWhitespace {c : UInt8} (hc : isWhitespace c) : EndsNumber c := by
  have hle : c.toNat ≤ 32 := by simpa [isWhitespace, UInt8.le_iff_toNat_le] using hc
  -- the characters of numbers are all above the space
  have hgt : isNumberChar c → 32 < c.toNat := by
    simp only [isNumberChar, isDigit, decide_eq_true_eq]
    rintro (⟨h0, -⟩ | rfl | rfl | rfl | rfl | rfl)
    · exact lt_of_lt_of_le (by decide) (show (48 : Nat) ≤ c.toNat from h0)
    all_goals decide
  exact Bool.eq_false_iff.mpr fun h => absurd (hgt h) (by omega)

theorem parseElement_stableBefore (hnil : value [] = none)
    (hvalue : StableBefore EndsNumber value) : StableBefore EndsNumber (parseElement value) := by
  refine StableBefore.skipBefore ?_ (hvalue.skipAfter fun _ => endsNumber_of_isWhitespace)
  rw [hnil, Option.map_none]

theorem parseMember_stableBefore (hnil : value [] = none)
    (hvalue : StableBefore EndsNumber value) : StableBefore EndsNumber (parseMember value) := by
  intro s v c rest h hc t
  simp only [parseMember] at h ⊢
  split at h
  · exact nomatch h
  · next name left hleft =>
    -- the name ends at its quote, the blanks behind it at the colon
    have hname : parseString (bufferSkipWhitespace (s ++ t)) = some (name, left ++ t) :=
      Stable.skipBefore parseString_nil parseString_stable _ _ _ hleft t
    rw [hname]
    split at h
    · exact nomatch h
    · next hcolon =>
      have hne : bufferSkipWhitespace left ≠ [] :=
        ne_nil_of_bufferAtOffset (by rw [not_not.mp hcolon]; decide)
      obtain ⟨⟨item, left'⟩, hitem, heq⟩ := Option.map_eq_some_iff.mp h
      obtain ⟨rfl, rfl⟩ := Prod.mk.inj heq
      have hitem' := parseElement_stableBefore hnil hvalue _ _ _ _ hitem hc t
      simp only [bufferSkipWhitespace_append hne, bufferAtOffset_append hne, drop_one_append hne,
        if_neg hcolon, hitem', Option.map_some]

theorem parseElement_nil (hnil : value [] = none) : parseElement value [] = none := by
  simp [parseElement, bufferSkipWhitespace, hnil]

theorem parseMember_nil : parseMember value [] = none := by
  simp [parseMember, bufferSkipWhitespace, parseString_nil]

/-- A bracketed list ends at its own closing bracket, if its items are complete in front
    of a comma and of that bracket. -/
theorem parseList_stable {item : Reader UInt8 β} {opening closing : UInt8} (hopening : opening ≠ 0)
    (hclosing : closing ≠ 0) (hnil : item [] = none)
    (hitem : StableBefore (fun c => decide (c = ','.toUInt8) ∨ c = closing) item) :
    Stable (parseList item opening closing) := by
  intro s v rest h t
  have hloop : StableBefore (· = closing) (Reader.sepBy item (· = ','.toUInt8)) := hitem.sepBy
  simp only [parseList] at h ⊢
  split at h
  · exact nomatch h
  · next hopen =>
    have hne : s ≠ [] := ne_nil_of_bufferAtOffset (by rwa [not_not.mp hopen])
    rw [bufferAtOffset_append hne, if_neg hopen, drop_one_append hne]
    generalize s.drop 1 = input at h ⊢
    -- at the end of the text there is neither a bracket nor an item
    have hinput : bufferSkipWhitespace input ≠ [] := by
      intro h0
      simp [h0, hclosing.symm, Reader.sepBy_nil hnil] at h
    rw [bufferSkipWhitespace_append hinput, bufferAtOffset_append hinput, drop_one_append hinput]
    generalize bufferSkipWhitespace input = input at h ⊢
    split at h
    · next hempty =>
      obtain ⟨rfl, rfl⟩ := Prod.mk.inj (Option.some.inj h)
      rw [if_pos hempty]
    · next hempty =>
      rw [if_neg hempty]
      split at h
      · exact nomatch h
      · next items left hread =>
        split at h
        · exact nomatch h
        · next hclose =>
          have hleft : left ≠ [] := ne_nil_of_bufferAtOffset (by rwa [not_not.mp hclose])
          obtain ⟨rfl, rfl⟩ := Prod.mk.inj (Option.some.inj h)
          obtain ⟨e, left, rfl⟩ := List.exists_cons_of_ne_nil hleft
          -- the closing bracket follows, so the items are the same whatever comes behind it
          have hread' := hloop _ _ _ _ hread (not_not.mp hclose) t
          simp only [hread', bufferAtOffset_append hleft, if_neg hclose, drop_one_append hleft]

private theorem endsNumber_comma_or {closing : UInt8} (hclosing : EndsNumber closing) :
    ∀ c, (decide (c = ','.toUInt8) = true ∨ c = closing) → EndsNumber c := by
  rintro c (hc | rfl)
  · rw [of_decide_eq_true hc]; decide
  · exact hclosing

theorem parseElements_stable (hnil : value [] = none) (hvalue : StableBefore EndsNumber value) :
    Stable (parseList (parseElement value) '['.toUInt8 ']'.toUInt8) :=
  parseList_stable (by decide) (by decide) (parseElement_nil hnil)
    ((parseElement_stableBefore hnil hvalue).mono (endsNumber_comma_or (by decide)))

theorem parseMembers_stable (hnil : value [] = none) (hvalue : StableBefore EndsNumber value) :
    Stable (parseList (parseMember value) '{'.toUInt8 '}'.toUInt8) :=
  parseList_stable (by decide) (by decide) parseMember_nil
    ((parseMember_stableBefore hnil hvalue).mono (endsNumber_comma_or (by decide)))

end Lists

theorem bufferAtOffset_of_parseString {s rest : List UInt8} {v : CString}
    (h : parseString s = some (v, rest)) : bufferAtOffset s = '"'.toUInt8 := by
  by_contra hquote
  simp only [parseString, if_pos hquote] at h
  exact nomatch h

theorem bufferAtOffset_of_parseList {item : Reader UInt8 β} {opening closing : UInt8}
    {s rest : List UInt8} {v : List β} (h : parseList item opening closing s = some (v, rest)) :
    bufferAtOffset s = opening := by
  by_contra hopen
  simp only [parseList, if_pos hopen] at h
  exact nomatch h

/-! ## Values -/

/-- A literal that is at the start of a text is at the start of its continuations, and
    taking it off commutes with continuing. -/
private theorem startsWith_append {literal : String} {s : List UInt8}
    (h : startsWith literal s) (t : List UInt8) :
    startsWith literal (s ++ t) ∧
      (s ++ t).drop (ascii literal).length = s.drop (ascii literal).length ++ t := by
  have hstart : ascii literal <+: s := List.isPrefixOf_iff_prefix.mp h
  exact ⟨List.isPrefixOf_iff_prefix.mpr (hstart.trans (List.prefix_append _ _)),
    List.drop_append_of_le_length hstart.length_le⟩

/-- A text does not start with a literal that has another first character. -/
private theorem not_startsWith {literal : String} {s : List UInt8}
    (hliteral : ascii literal ≠ []) (h : bufferAtOffset s ≠ bufferAtOffset (ascii literal)) :
    ¬ startsWith literal s := by
  intro hstart
  obtain ⟨t, rfl⟩ : ascii literal <+: s := List.isPrefixOf_iff_prefix.mp hstart
  exact h (bufferAtOffset_append hliteral t)

theorem bufferAtOffset_of_startsWith {literal : String} {s : List UInt8}
    (h : startsWith literal s) (hliteral : ascii literal ≠ []) :
    bufferAtOffset s = bufferAtOffset (ascii literal) := by
  by_contra hne
  exact not_startsWith hliteral hne h

/-- The ways in which `parseValue` succeeds. -/
inductive ParsesValue (levels : Nat) (s : List UInt8) : CJSON → List UInt8 → Prop where
  | null (h : startsWith "null" s) : ParsesValue levels s .null (s.drop 4)
  | false (h : startsWith "false" s) : ParsesValue levels s .false (s.drop 5)
  | true (h : startsWith "true" s) : ParsesValue levels s .true (s.drop 4)
  | string {v rest} (h : parseString s = some (v, rest)) : ParsesValue levels s (.string v) rest
  | number {v rest} (hat : bufferAtOffset s = '-'.toUInt8 ∨ isDigit (bufferAtOffset s))
      (h : parseNumber s = some (v, rest)) : ParsesValue levels s v rest
  | array {below items rest} (hlevels : levels = below + 1)
      (h : parseList (parseElement (parseValue below)) '['.toUInt8 ']'.toUInt8 s =
        some (items, rest)) : ParsesValue levels s (.array items) rest
  | object {below members rest} (hlevels : levels = below + 1)
      (h : parseList (parseMember (parseValue below)) '{'.toUInt8 '}'.toUInt8 s =
        some (members, rest)) : ParsesValue levels s (.object members) rest

theorem parsesValue_of_parseValue {levels : Nat} {s rest : List UInt8} {v : CJSON}
    (h : parseValue levels s = some (v, rest)) : ParsesValue levels s v rest := by
  unfold parseValue at h
  -- the tests of `parse_value`, one after the other
  split at h
  · next hnull => obtain ⟨rfl, rfl⟩ := Prod.mk.inj (Option.some.inj h); exact .null hnull
  split at h
  · next hfalse => obtain ⟨rfl, rfl⟩ := Prod.mk.inj (Option.some.inj h); exact .false hfalse
  split at h
  · next htrue => obtain ⟨rfl, rfl⟩ := Prod.mk.inj (Option.some.inj h); exact .true htrue
  split at h
  · obtain ⟨⟨v', left⟩, hread, heq⟩ := Option.map_eq_some_iff.mp h
    obtain ⟨rfl, rfl⟩ := Prod.mk.inj heq
    exact .string hread
  split at h
  · next hat => exact .number hat h
  split at h
  · cases levels with
    -- the nesting limit is reached
    | zero => exact nomatch h
    | succ below =>
      obtain ⟨⟨items, left⟩, hread, heq⟩ := Option.map_eq_some_iff.mp h
      obtain ⟨rfl, rfl⟩ := Prod.mk.inj heq
      exact .array rfl hread
  split at h
  · cases levels with
    | zero => exact nomatch h
    | succ below =>
      obtain ⟨⟨members, left⟩, hread, heq⟩ := Option.map_eq_some_iff.mp h
      obtain ⟨rfl, rfl⟩ := Prod.mk.inj heq
      exact .object rfl hread
  · exact nomatch h

/-- What `parseValue` does with a text that starts with none of the three literals. -/
private theorem parseValue_of_not_literal {levels : Nat} {s : List UInt8}
    (hn : bufferAtOffset s ≠ 'n'.toUInt8) (hf : bufferAtOffset s ≠ 'f'.toUInt8)
    (ht : bufferAtOffset s ≠ 't'.toUInt8) :
    parseValue levels s =
      if bufferAtOffset s = '"'.toUInt8 then (parseString s).map fun x => (.string x.1, x.2)
      else if bufferAtOffset s = '-'.toUInt8 ∨ isDigit (bufferAtOffset s) then parseNumber s
      else if bufferAtOffset s = '['.toUInt8 then
        match levels with
        | 0 => none
        | levels + 1 => parseArray (parseValue levels) s
      else if bufferAtOffset s = '{'.toUInt8 then
        match levels with
        | 0 => none
        | levels + 1 => parseObject (parseValue levels) s
      else none := by
  conv => lhs; unfold parseValue
  refine (if_neg (not_startsWith (by decide) hn)).trans ?_
  refine (if_neg (not_startsWith (by decide) hf)).trans ?_
  refine (if_neg (not_startsWith (by decide) ht)).trans ?_
  cases levels <;> rfl

theorem parseValue_of_parsesValue {levels : Nat} {s rest : List UInt8} {v : CJSON}
    (h : ParsesValue levels s v rest) : parseValue levels s = some (v, rest) := by
  cases h with
  | null h => unfold parseValue; rw [if_pos h]
  | false h =>
    have hat := bufferAtOffset_of_startsWith h (by decide)
    unfold parseValue
    rw [if_neg (not_startsWith (by decide) (by rw [hat]; decide)), if_pos h]
  | true h =>
    have hat := bufferAtOffset_of_startsWith h (by decide)
    unfold parseValue
    rw [if_neg (not_startsWith (by decide) (by rw [hat]; decide)),
      if_neg (not_startsWith (by decide) (by rw [hat]; decide)), if_pos h]
  | string h =>
    have hat := bufferAtOffset_of_parseString h
    rw [parseValue_of_not_literal (by rw [hat]; decide) (by rw [hat]; decide)
      (by rw [hat]; decide), if_pos hat, h]
    rfl
  | number hat h =>
    -- a minus or a digit is none of the other first characters
    have hne : ∀ c : UInt8, c ≠ '-'.toUInt8 → isDigit c = false → bufferAtOffset s ≠ c := by
      rintro _ hminus hdigit rfl
      rcases hat with hat | hat
      · exact hminus hat
      · exact Bool.false_ne_true (hdigit.symm.trans hat)
    rw [parseValue_of_not_literal (hne _ (by decide) (by decide)) (hne _ (by decide) (by decide))
      (hne _ (by decide) (by decide)), if_neg (hne _ (by decide) (by decide)), if_pos hat, h]
  | array hlevels h =>
    subst hlevels
    have hat := bufferAtOffset_of_parseList h
    rw [parseValue_of_not_literal (by rw [hat]; decide) (by rw [hat]; decide)
      (by rw [hat]; decide), if_neg (by rw [hat]; decide), if_neg (by rw [hat]; decide),
      if_pos hat]
    simp only [parseArray, h, Option.map_some]
  | object hlevels h =>
    subst hlevels
    have hat := bufferAtOffset_of_parseList h
    rw [parseValue_of_not_literal (by rw [hat]; decide) (by rw [hat]; decide)
      (by rw [hat]; decide), if_neg (by rw [hat]; decide), if_neg (by rw [hat]; decide),
      if_neg (by rw [hat]; decide), if_pos hat]
    simp only [parseObject, h, Option.map_some]

theorem parseValue_nil (levels : Nat) : parseValue levels [] = none := by
  cases levels <;> rfl

/-- One level of nesting: a value other than a number, or one that a character ending a
    number follows, is read from every continuation. -/
private theorem ParsesValue.append {levels : Nat} {s rest : List UInt8} {v : CJSON}
    (hbelow : ∀ below, levels = below + 1 → StableBefore EndsNumber (parseValue below))
    (h : ParsesValue levels s v rest)
    (hend : (∀ d, v ≠ .number d) ∨ ∃ c left, rest = c :: left ∧ EndsNumber c) (t : List UInt8) :
    ParsesValue levels (s ++ t) v (rest ++ t) := by
  cases h with
  | null h =>
    have ⟨hstart, hdrop⟩ := startsWith_append h t
    exact (show s.drop 4 ++ t = _ from hdrop.symm) ▸ .null hstart
  | false h =>
    have ⟨hstart, hdrop⟩ := startsWith_append h t
    exact (show s.drop 5 ++ t = _ from hdrop.symm) ▸ .false hstart
  | true h =>
    have ⟨hstart, hdrop⟩ := startsWith_append h t
    exact (show s.drop 4 ++ t = _ from hdrop.symm) ▸ .true hstart
  | string h => exact .string (parseString_stable _ _ _ h t)
  | number hat h =>
    have hs : s ≠ [] := by
      rintro rfl
      exact absurd hat (by decide)
    -- a number is not complete by itself, but the next character ends it
    rcases hend with hend | ⟨c, left, rfl, hc⟩
    · obtain ⟨d, rfl⟩ := exists_number_of_parseNumber h
      exact absurd rfl (hend d)
    · exact .number (by rwa [bufferAtOffset_append hs]) (parseNumber_stableBefore _ _ _ _ h hc t)
  | array hlevels h =>
    exact .array hlevels (parseElements_stable (parseValue_nil _) (hbelow _ hlevels) _ _ _ h t)
  | object hlevels h =>
    exact .object hlevels (parseMembers_stable (parseValue_nil _) (hbelow _ hlevels) _ _ _ h t)

/-- A value is the same on every continuation once a character that ends a number
    follows it. -/
theorem parseValue_stableBefore (levels : Nat) : StableBefore EndsNumber (parseValue levels) := by
  -- induction on the levels that are left: the lists are read one level below
  induction levels with
  | zero =>
    intro s v c rest h hc t
    exact parseValue_of_parsesValue ((parsesValue_of_parseValue h).append
      (fun _ h => absurd h (Nat.zero_ne_add_one _)) (.inr ⟨c, rest, rfl, hc⟩) t)
  | succ levels ih =>
    intro s v c rest h hc t
    exact parseValue_of_parsesValue ((parsesValue_of_parseValue h).append
      (fun _ h => Nat.succ.inj h ▸ ih) (.inr ⟨c, rest, rfl, hc⟩) t)

/-- Any value but a number is the same on every continuation. -/
theorem parseValue_append {levels : Nat} {s rest : List UInt8} {v : CJSON}
    (h : parseValue levels s = some (v, rest)) (hv : ∀ d, v ≠ .number d) (t : List UInt8) :
    parseValue levels (s ++ t) = some (v, rest ++ t) :=
  parseValue_of_parsesValue ((parsesValue_of_parseValue h).append
    (fun below _ => parseValue_stableBefore below) (.inl hv) t)

/-- A text that parses to anything but a number parses to the same tree with more text
    behind it. -/
theorem cJSONParse_append {a b : CString} {rest : List UInt8} (hb : b.bytes = a.bytes ++ rest)
    {root : CJSON} (h : cJSONParse (some a) = some root) (hroot : ∀ d, root ≠ .number d) :
    cJSONParse (some b) = some root := by
  obtain ⟨⟨v, left⟩, hv, rfl⟩ := Option.map_eq_some_iff.mp h
  -- a text of blanks has no value
  have hne : bufferSkipWhitespace a.bytes ≠ [] := by
    intro hnil
    rw [hnil, parseValue_nil] at hv
    exact nomatch hv
  rw [cJSONParse, hb, bufferSkipWhitespace_append hne, parseValue_append hv hroot, Option.map_some]

/-! ## Progress

Every value takes at least one character, so the loops of the parser make at most as
many turns as there are characters, and the fuel they are given is enough. -/

theorem parseElement_nonIncreasing {value : Reader UInt8 CJSON} (hvalue : NonIncreasing value) :
    NonIncreasing (parseElement value) := by
  intro s v rest h
  obtain ⟨⟨item, left⟩, hitem, heq⟩ := Option.map_eq_some_iff.mp h
  obtain ⟨rfl, rfl⟩ := Prod.mk.inj heq
  calc (bufferSkipWhitespace left).length ≤ left.length := bufferSkipWhitespace_length_le left
    _ ≤ (bufferSkipWhitespace s).length := hvalue _ _ _ hitem
    _ ≤ s.length := bufferSkipWhitespace_length_le s

theorem parseMember_nonIncreasing {value : Reader UInt8 CJSON} (hvalue : NonIncreasing value) :
    NonIncreasing (parseMember value) := by
  intro s v rest h
  simp only [parseMember] at h
  split at h
  · exact nomatch h
  · next name left hname =>
    split at h
    · exact nomatch h
    · obtain ⟨⟨item, left'⟩, hitem, heq⟩ := Option.map_eq_some_iff.mp h
      obtain ⟨rfl, rfl⟩ := Prod.mk.inj heq
      -- each part of the member is behind the one before
      calc left'.length ≤ ((bufferSkipWhitespace left).drop 1).length :=
            parseElement_nonIncreasing hvalue _ _ _ hitem
        _ ≤ (bufferSkipWhitespace left).length := (List.drop_sublist _ _).length_le
        _ ≤ left.length := bufferSkipWhitespace_length_le left
        _ ≤ (bufferSkipWhitespace s).length := (parseString_shrinks hname).le
        _ ≤ s.length := bufferSkipWhitespace_length_le s

private theorem parseList_shrinks {item : Reader UInt8 β} {opening closing : UInt8}
    (hopening : opening ≠ 0) (hitem : NonIncreasing item) {s rest : List UInt8} {v : List β}
    (h : parseList item opening closing s = some (v, rest)) : rest.length < s.length := by
  have hs : s ≠ [] := ne_nil_of_bufferAtOffset (by rwa [bufferAtOffset_of_parseList h])
  -- the opening bracket is taken at least
  have hinput : (bufferSkipWhitespace (s.drop 1)).length < s.length := by
    have hpos := List.length_pos_iff.mpr hs
    have hskip := bufferSkipWhitespace_length_le (s.drop 1)
    rw [List.length_drop] at hskip
    omega
  simp only [parseList] at h
  split at h
  · exact nomatch h
  generalize bufferSkipWhitespace (s.drop 1) = input at h hinput
  split at h
  · obtain ⟨rfl, rfl⟩ := Prod.mk.inj (Option.some.inj h)
    exact (List.drop_sublist _ _).length_le.trans_lt hinput
  split at h
  · exact nomatch h
  · next items left hread =>
    split at h
    · exact nomatch h
    · obtain ⟨rfl, rfl⟩ := Prod.mk.inj (Option.some.inj h)
      calc (left.drop 1).length ≤ left.length := (List.drop_sublist _ _).length_le
        _ ≤ input.length := hitem.sepBy _ _ _ hread
        _ < s.length := hinput

private theorem drop_length_lt {literal : String} (hliteral : ascii literal ≠ []) {s : List UInt8}
    (h : startsWith literal s) : (s.drop (ascii literal).length).length < s.length := by
  have hle : (ascii literal).length ≤ s.length := (List.isPrefixOf_iff_prefix.mp h).length_le
  have hpos := List.length_pos_iff.mpr hliteral
  rw [List.length_drop]
  omega

private theorem ParsesValue.shrinks {levels : Nat} {s rest : List UInt8} {v : CJSON}
    (hbelow : ∀ below, levels = below + 1 → NonIncreasing (parseValue below))
    (h : ParsesValue levels s v rest) : rest.length < s.length := by
  cases h with
  | null h => exact drop_length_lt (by decide) h
  | false h => exact drop_length_lt (by decide) h
  | true h => exact drop_length_lt (by decide) h
  | string h => exact parseString_shrinks h
  | number _ h => exact parseNumber_shrinks h
  | array hlevels h =>
    exact parseList_shrinks (by decide) (parseElement_nonIncreasing (hbelow _ hlevels)) h
  | object hlevels h =>
    exact parseList_shrinks (by decide) (parseMember_nonIncreasing (hbelow _ hlevels)) h

/-- A value takes at least one character. -/
theorem parseValue_shrinks {levels : Nat} {s rest : List UInt8} {v : CJSON}
    (h : parseValue levels s = some (v, rest)) : rest.length < s.length := by
  -- again one level below, where it is enough not to move back
  induction levels generalizing s rest v with
  | zero =>
    exact (parsesValue_of_parseValue h).shrinks fun _ h => absurd h (Nat.zero_ne_add_one _)
  | succ levels ih =>
    refine (parsesValue_of_parseValue h).shrinks fun below hbelow => ?_
    obtain rfl : levels = below := Nat.succ.inj hbelow
    exact fun _ _ _ h => (ih h).le

theorem parseValue_nonIncreasing (levels : Nat) : NonIncreasing (parseValue levels) :=
  fun _ _ _ h => (parseValue_shrinks h).le

/-- The loop of `parse_object` turns until no comma follows; it does not run out of fuel. -/
theorem parseMember_loop (levels : Nat) :
    Reader.sepBy (parseMember (parseValue levels)) (· = ','.toUInt8) =
      Reader.sepByTurn (parseMember (parseValue levels)) (· = ','.toUInt8)
        (Reader.sepBy (parseMember (parseValue levels)) (· = ','.toUInt8)) :=
  Reader.sepBy_eq (parseMember_nonIncreasing (parseValue_nonIncreasing levels))

end ArkInC.Native
