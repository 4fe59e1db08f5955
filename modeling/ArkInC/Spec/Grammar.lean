import ArkInC.Spec.ParseStable
import Mathlib.Data.List.DropRight

/-!
# Derivations of the parser

What `parse_value` does on a text, as derivations: one rule for each kind of value, and
for the lists inside brackets one rule for the last item and one for an item that a comma
follows. Strings, numbers and blanks are taken from the text by the functions of the parser.
The parser and the derivations agree, so that a property of what is parsed is proved by
induction on a derivation.

## Key results

- `parseValue_eq_some_iff`: the parser succeeds exactly where there is a derivation
- `parseString_eq_some_iff`: a string is a body between quotes
-/

namespace ArkInC.Native

open Reader (SepBy)

/-- A part of a text: a value, a value or a member with blanks around it, and the items
    between brackets from one of them on. -/
inductive Phrase where
  | value (v : CJSON)
  | element (v : CJSON)
  | member (m : CString × CJSON)
  | elements (items : List CJSON)
  | members (members : List (CString × CJSON))

/-- `Derives levels phrase s rest`: the text `s` starts with the phrase, and `rest` is behind
    it. Inside the phrase at most `levels` arrays and objects are nested. -/
inductive Derives : Nat → Phrase → List UInt8 → List UInt8 → Prop where
  | null {levels rest} : Derives levels (.value .null) (ascii "null" ++ rest) rest
  | false {levels rest} : Derives levels (.value .false) (ascii "false" ++ rest) rest
  | true {levels rest} : Derives levels (.value .true) (ascii "true" ++ rest) rest
  | string {levels v s rest} (h : parseString s = some (v, rest)) :
    Derives levels (.value (.string v)) s rest
  | number {levels v s rest} (hat : bufferAtOffset s = '-'.toUInt8 ∨ isDigit (bufferAtOffset s))
      (h : parseNumber s = some (v, rest)) : Derives levels (.value v) s rest
  | emptyArray {levels s rest} (h : bufferSkipWhitespace s = ']'.toUInt8 :: rest) :
    Derives (levels + 1) (.value (.array [])) ('['.toUInt8 :: s) rest
  | array {levels items s rest} (h : Derives levels (.elements items) s (']'.toUInt8 :: rest)) :
    Derives (levels + 1) (.value (.array items)) ('['.toUInt8 :: s) rest
  | emptyObject {levels s rest} (h : bufferSkipWhitespace s = '}'.toUInt8 :: rest) :
    Derives (levels + 1) (.value (.object [])) ('{'.toUInt8 :: s) rest
  | object {levels members s rest}
      (h : Derives levels (.members members) s ('}'.toUInt8 :: rest)) :
    Derives (levels + 1) (.value (.object members)) ('{'.toUInt8 :: s) rest
  | element {levels v s left rest} (h : Derives levels (.value v) (bufferSkipWhitespace s) left)
      (hrest : bufferSkipWhitespace left = rest) : Derives levels (.element v) s rest
  | member {levels name v s left next rest}
      (hname : parseString (bufferSkipWhitespace s) = some (name, left))
      (hcolon : bufferSkipWhitespace left = ':'.toUInt8 :: next)
      (h : Derives levels (.element v) next rest) : Derives levels (.member (name, v)) s rest
  | lastElement {levels v s rest} (h : Derives levels (.element v) s rest)
      (hstop : rest.head? ≠ some ','.toUInt8) : Derives levels (.elements [v]) s rest
  | elements {levels v items s next rest}
      (h : Derives levels (.element v) s (','.toUInt8 :: next))
      (htail : Derives levels (.elements items) next rest) :
    Derives levels (.elements (v :: items)) s rest
  | lastMember {levels m s rest} (h : Derives levels (.member m) s rest)
      (hstop : rest.head? ≠ some ','.toUInt8) : Derives levels (.members [m]) s rest
  | members {levels m members s next rest} (h : Derives levels (.member m) s (','.toUInt8 :: next))
      (htail : Derives levels (.members members) next rest) :
    Derives levels (.members (m :: members)) s rest

/-! ## First characters -/

/-- The characters a value starts with. -/
def startsValue (c : UInt8) : Bool :=
  c = 'n'.toUInt8 ∨ c = 'f'.toUInt8 ∨ c = 't'.toUInt8 ∨ c = '"'.toUInt8 ∨ c = '-'.toUInt8 ∨
    isDigit c ∨ c = '['.toUInt8 ∨ c = '{'.toUInt8

theorem startsValue_of_parseValue {levels : Nat} {s rest : List UInt8} {v : CJSON}
    (h : parseValue levels s = some (v, rest)) : startsValue (bufferAtOffset s) = true := by
  cases parsesValue_of_parseValue h with
  | null hstart => rw [bufferAtOffset_of_startsWith hstart (by decide)]; decide
  | false hstart => rw [bufferAtOffset_of_startsWith hstart (by decide)]; decide
  | true hstart => rw [bufferAtOffset_of_startsWith hstart (by decide)]; decide
  | string hread => rw [bufferAtOffset_of_parseString hread]; decide
  | number hat =>
    -- a number starts with a minus or a digit
    rcases hat with hminus | hdigit
    · rw [hminus]; decide
    · simp [startsValue, hdigit]
  | array _ hread => rw [bufferAtOffset_of_parseList hread]; decide
  | object _ hread => rw [bufferAtOffset_of_parseList hread]; decide

/-- A value does not start with a blank. -/
theorem not_isWhitespace_of_startsValue {c : UInt8} (h : startsValue c = true) :
    isWhitespace c = false := by
  simp only [startsValue, isDigit, decide_eq_true_eq] at h
  -- all these characters are above the space
  have hlt : 32 < c.toNat := by
    rcases h with rfl | rfl | rfl | rfl | rfl | ⟨hzero, -⟩ | rfl | rfl
    case inr.inr.inr.inr.inr.inl =>
      exact lt_of_lt_of_le (by decide) (UInt8.le_iff_toNat_le.mp hzero)
    all_goals decide
  refine decide_eq_false fun hle => ?_
  exact absurd (UInt8.le_iff_toNat_le.mp hle) (not_le.mpr hlt)

theorem skip_of_startsValue {s : List UInt8} (h : startsValue (bufferAtOffset s) = true) :
    bufferSkipWhitespace s = s := by
  cases s with
  | nil => rfl
  | cons c s =>
    exact List.dropWhile_cons_of_neg (Bool.eq_false_iff.mp (not_isWhitespace_of_startsValue h))

theorem bufferAtOffset_ne_of_startsValue {c : UInt8} {s : List UInt8}
    (h : startsValue (bufferAtOffset s) = true) (hc : startsValue c = false) :
    bufferAtOffset s ≠ c := by
  rintro rfl
  exact Bool.false_ne_true (hc.symm.trans h)

/-- A cursor that is at a character other than NUL. -/
theorem exists_cons_of_bufferAtOffset {s : List UInt8} {c : UInt8} (hc : c ≠ 0)
    (h : bufferAtOffset s = c) : ∃ next, s = c :: next := by
  obtain ⟨d, next, rfl⟩ := List.exists_cons_of_ne_nil (ne_nil_of_bufferAtOffset (h ▸ hc))
  exact ⟨next, by rw [show d = c from h]⟩

/-! ## Blanks -/

/-- Blanks are spaces and control characters. -/
def Blanks (blanks : List UInt8) : Prop := ∀ c ∈ blanks, c ≤ 32

theorem blanks_nil : Blanks [] := nofun

theorem blanks_singleton {c : UInt8} (h : c ≤ 32) : Blanks [c] := List.forall_mem_singleton.mpr h

theorem isWhitespace_iff {c : UInt8} : isWhitespace c = true ↔ c ≤ 32 := decide_eq_true_iff

/-- The parser skips them. -/
theorem bufferSkipWhitespace_blanks {blanks s : List UInt8} (hblanks : Blanks blanks)
    (hs : isWhitespace (bufferAtOffset s) = false) : bufferSkipWhitespace (blanks ++ s) = s := by
  rw [bufferSkipWhitespace,
    List.dropWhile_append_of_pos fun c hc => isWhitespace_iff.mpr (hblanks c hc)]
  cases s with
  | nil => rfl
  | cons c s => exact List.dropWhile_cons_of_neg (Bool.eq_false_iff.mp hs)

/-- What is skipped are blanks. -/
theorem exists_blanks (s : List UInt8) :
    ∃ blanks, Blanks blanks ∧ s = blanks ++ bufferSkipWhitespace s :=
  ⟨s.takeWhile isWhitespace, fun _ hc => isWhitespace_iff.mp (List.mem_takeWhile_imp hc),
    (List.takeWhile_append_dropWhile).symm⟩

/-! ## Strings -/

/-- The characters between the quotes of a string: a quote is escaped, and so is the
    character behind a backslash. -/
inductive StringBody : List UInt8 → Prop where
  | nil : StringBody []
  | plain {c rest} (hquote : c ≠ '"'.toUInt8) (hslash : c ≠ '\\'.toUInt8) (h : StringBody rest) :
    StringBody (c :: rest)
  | escaped {c rest} (h : StringBody rest) : StringBody ('\\'.toUInt8 :: c :: rest)

theorem StringBody.append {a b : List UInt8} (ha : StringBody a) (hb : StringBody b) :
    StringBody (a ++ b) := by
  induction ha with
  | nil => exact hb
  | plain hquote hslash _ ih => exact .plain hquote hslash ih
  | escaped _ ih => exact .escaped ih

private theorem stringEnd_cons_cons {c d : UInt8} {rest : List UInt8} :
    stringEnd (c :: d :: rest) =
      if c = '"'.toUInt8 then some 0
      else if c = '\\'.toUInt8 then (stringEnd rest).map (· + 2)
      else (stringEnd (d :: rest)).map (· + 1) := by
  rw [stringEnd]

/-- The closing quote is the first one that is not escaped. -/
theorem stringEnd_body {body : List UInt8} (h : StringBody body) (rest : List UInt8) :
    stringEnd (body ++ '"'.toUInt8 :: rest) = some body.length := by
  -- induction on the body; at the end the search is at the quote
  induction h with
  | nil => cases rest <;> rfl
  | @plain c body hquote hslash h ih =>
    obtain ⟨d, tail, htail⟩ : ∃ d tail, body ++ '"'.toUInt8 :: rest = d :: tail :=
      List.exists_cons_of_ne_nil (by simp)
    rw [htail] at ih
    rw [List.cons_append, htail, stringEnd_cons_cons, if_neg hquote, if_neg hslash, ih]
    rfl
  | escaped h ih =>
    rw [List.cons_append, List.cons_append, stringEnd_cons_cons, if_neg (by decide), if_pos rfl, ih]
    rfl

theorem exists_body_of_stringEnd {s : List UInt8} {n : Nat} (h : stringEnd s = some n) :
    ∃ body rest, StringBody body ∧ s = body ++ '"'.toUInt8 :: rest ∧ body.length = n := by
  -- the cases of `stringEnd`: the end of the text, the quote, an escape, any other character
  induction s using stringEnd.induct generalizing n with
  | case1 => cases h
  | case2 =>
    cases h
    exact ⟨[], [], .nil, rfl, rfl⟩
  | case3 c hc =>
    rw [stringEnd, if_neg hc] at h
    cases h
  | case4 d rest =>
    rw [stringEnd_cons_cons, if_pos rfl] at h
    cases h
    exact ⟨[], d :: rest, .nil, rfl, rfl⟩
  | case5 d rest hc ih =>
    rw [stringEnd_cons_cons, if_neg hc, if_pos rfl] at h
    obtain ⟨m, hm, rfl⟩ := Option.map_eq_some_iff.mp h
    obtain ⟨body, left, hbody, rfl, rfl⟩ := ih hm
    exact ⟨_, left, .escaped hbody, rfl, rfl⟩
  | case6 c d rest hquote hslash ih =>
    rw [stringEnd_cons_cons, if_neg hquote, if_neg hslash] at h
    obtain ⟨m, hm, rfl⟩ := Option.map_eq_some_iff.mp h
    obtain ⟨body, left, hbody, hrest, rfl⟩ := ih hm
    exact ⟨c :: body, left, .plain hquote hslash hbody, by rw [hrest]; rfl, rfl⟩

/-- A string is a body between quotes whose escape sequences can be decoded. -/
theorem parseString_eq_some_iff {s rest : List UInt8} {v : CString} :
    parseString s = some (v, rest) ↔
      ∃ body output, StringBody body ∧ s = '"'.toUInt8 :: (body ++ '"'.toUInt8 :: rest) ∧
        unescape 0 (body ++ ['"'.toUInt8]) = some output ∧ CString.ofBytes output = v := by
  -- behind the opening quote the body and its closing quote are taken off
  have htake : ∀ body rest : List UInt8,
      (body ++ '"'.toUInt8 :: rest).take (body.length + 1) = body ++ ['"'.toUInt8] ∧
        (body ++ '"'.toUInt8 :: rest).drop (body.length + 1) = rest := by
    intro body rest
    rw [List.append_cons]
    exact ⟨List.take_left' (by simp), List.drop_left' (by simp)⟩
  constructor
  -- what is accepted begins with a quote, and the search finds the other one
  · intro h
    obtain ⟨input, rfl⟩ :=
      exists_cons_of_bufferAtOffset (by decide) (bufferAtOffset_of_parseString h)
    simp only [parseString, bufferAtOffset_cons, ne_eq, not_true, if_false, List.drop_one,
      List.tail_cons] at h
    split at h
    · cases h
    · next n hend =>
      obtain ⟨body, left, hbody, rfl, rfl⟩ := exists_body_of_stringEnd hend
      rw [(htake body left).1, (htake body left).2] at h
      split at h
      · cases h
      · next output houtput =>
        cases h
        exact ⟨body, output, hbody, rfl, houtput, rfl⟩
  · rintro ⟨body, output, hbody, rfl, houtput, rfl⟩
    simp only [parseString, bufferAtOffset_cons, ne_eq, not_true, if_false, List.drop_one,
      List.tail_cons, stringEnd_body hbody, (htake body rest).1, (htake body rest).2, houtput]

/-! ## Numbers -/

/-- Nothing that could continue a number follows. -/
def NumberEnds (rest : List UInt8) : Prop := ∀ c ∈ rest.head?, EndsNumber c

theorem numberEnds_cons {c : UInt8} (h : EndsNumber c) (rest : List UInt8) :
    NumberEnds (c :: rest) := by
  intro d hd
  cases hd
  exact h

theorem numberEnds_nil : NumberEnds [] := nofun

theorem numberEnds_append {blanks rest : List UInt8} (hblanks : Blanks blanks)
    (hrest : NumberEnds rest) : NumberEnds (blanks ++ rest) := by
  cases blanks with
  | nil => exact hrest
  | cons b blanks =>
    exact numberEnds_cons
      (endsNumber_of_isWhitespace (isWhitespace_iff.mpr (hblanks b List.mem_cons_self))) _

theorem numberChars_of_ends {number rest : List UInt8} (hnumber : ∀ d ∈ number, isNumberChar d)
    (hlen : number.length ≤ 63) (hrest : NumberEnds rest) :
    ((number ++ rest).take 63).takeWhile isNumberChar = number := by
  cases rest with
  | nil =>
    rw [List.append_nil, List.take_of_length_le hlen]
    exact List.takeWhile_eq_self_iff.mpr hnumber
  | cons c rest => exact numberChars_append hnumber hlen (hrest c rfl)

/-- A literal that `strtod` takes as a whole is read as a number. -/
theorem parseNumber_append {number rest : List UInt8} {d : Binary64.Double}
    (hnumber : ∀ d ∈ number, isNumberChar d) (hlen : number.length ≤ 63)
    (hstrtod : strtod number = some (d, number.length)) (hrest : NumberEnds rest) :
    parseNumber (number ++ rest) = some (.number d, rest) := by
  rw [parseNumber, numberChars_of_ends hnumber hlen hrest, hstrtod]
  simp

/-- A number that ends where it is separated from the rest is such a literal. -/
theorem exists_literal_of_parseNumber {s rest : List UInt8} {v : CJSON}
    (h : parseNumber s = some (v, rest)) (hrest : NumberEnds rest) :
    ∃ number d, s = number ++ rest ∧ (∀ c ∈ number, isNumberChar c) ∧ number.length ≤ 63 ∧
      strtod number = some (d, number.length) ∧ v = .number d := by
  simp only [parseNumber] at h
  split at h
  · cases h
  · next d taken hstrtod =>
    cases h
    have hle := (strtod_taken hstrtod).2
    have hnumber : ∀ c ∈ (s.take 63).takeWhile isNumberChar, isNumberChar c :=
      fun c hc => List.mem_takeWhile_imp hc
    have hlen : ((s.take 63).takeWhile isNumberChar).length ≤ 63 :=
      (List.takeWhile_sublist _).length_le.trans (List.length_take_le _ _)
    have hstart : (s.take 63).takeWhile isNumberChar <+: s :=
      (List.takeWhile_prefix _).trans (List.take_prefix _ _)
    generalize (s.take 63).takeWhile isNumberChar = number at *
    obtain ⟨left, rfl⟩ := hstart
    -- what `strtod` left would continue the number
    have htaken : taken = number.length := by
      by_contra hne
      have hlt : taken < number.length := by omega
      rw [List.drop_append_of_le_length hle, List.drop_eq_getElem_cons hlt] at hrest
      exact Bool.false_ne_true ((hrest _ rfl).symm.trans (hnumber _ (List.getElem_mem hlt)))
    subst htaken
    exact ⟨number, d, by rw [List.drop_left], hnumber, hlen, hstrtod, rfl⟩

/-! ## Lists -/

theorem bufferSkipWhitespace_idem (s : List UInt8) :
    bufferSkipWhitespace (bufferSkipWhitespace s) = bufferSkipWhitespace s :=
  List.dropWhile_idempotent _ _

theorem parseElement_skip (value : Reader UInt8 CJSON) (s : List UInt8) :
    parseElement value (bufferSkipWhitespace s) = parseElement value s := by
  rw [parseElement, bufferSkipWhitespace_idem]
  rfl

theorem parseMember_skip (value : Reader UInt8 CJSON) (s : List UInt8) :
    parseMember value (bufferSkipWhitespace s) = parseMember value s := by
  rw [parseMember, bufferSkipWhitespace_idem]
  rfl

theorem parseElement_eq_some_iff {value : Reader UInt8 CJSON} {s rest : List UInt8} {v : CJSON} :
    parseElement value s = some (v, rest) ↔
      ∃ left, value (bufferSkipWhitespace s) = some (v, left) ∧
        bufferSkipWhitespace left = rest := by
  simp only [parseElement, Option.map_eq_some_iff, Prod.exists, Prod.mk.injEq]
  constructor
  · rintro ⟨v', left, h, rfl, hrest⟩
    exact ⟨left, h, hrest⟩
  · rintro ⟨left, h, hrest⟩
    exact ⟨v, left, h, rfl, hrest⟩

theorem parseMember_eq_some_iff {value : Reader UInt8 CJSON} {s rest : List UInt8}
    {m : CString × CJSON} :
    parseMember value s = some (m, rest) ↔
      ∃ left next, parseString (bufferSkipWhitespace s) = some (m.1, left) ∧
        bufferSkipWhitespace left = ':'.toUInt8 :: next ∧
        parseElement value next = some (m.2, rest) := by
  simp only [parseMember]
  constructor
  · intro h
    split at h
    · cases h
    · next name left hname =>
      split at h
      · cases h
      · next hcolon =>
        -- the source moves over the colon it has seen
        obtain ⟨next, hnext⟩ := exists_cons_of_bufferAtOffset (by decide) (not_not.mp hcolon)
        obtain ⟨⟨v, rest'⟩, hvalue, heq⟩ := Option.map_eq_some_iff.mp h
        cases heq
        rw [hnext] at hvalue
        exact ⟨left, next, hname, hnext, hvalue⟩
  · rintro ⟨left, next, hname, hcolon, hvalue⟩
    simp only [hname, hcolon, bufferAtOffset_cons, ne_eq, not_true, if_false, List.drop_one,
      List.tail_cons, hvalue, Option.map_some]

/-- A bracketed list is empty, or holds a separated list. -/
theorem parseList_eq_some_iff {item : Reader UInt8 β} {opening closing : UInt8}
    (hopening : opening ≠ 0) (hclosing : closing ≠ 0) {s rest : List UInt8} {items : List β} :
    parseList item opening closing s = some (items, rest) ↔
      ∃ inside, s = opening :: inside ∧
        (items = [] ∧ bufferSkipWhitespace inside = closing :: rest ∨
          bufferAtOffset (bufferSkipWhitespace inside) ≠ closing ∧
            Reader.sepBy item (· = ','.toUInt8) (bufferSkipWhitespace inside) =
              some (items, closing :: rest)) := by
  constructor
  · intro h
    obtain ⟨inside, rfl⟩ := exists_cons_of_bufferAtOffset hopening (bufferAtOffset_of_parseList h)
    refine ⟨inside, rfl, ?_⟩
    simp only [parseList, bufferAtOffset_cons, ne_eq, not_true, if_false, List.drop_one,
      List.tail_cons] at h
    split at h
    -- the bracket closes at once
    · next hempty =>
      obtain ⟨next, hnext⟩ := exists_cons_of_bufferAtOffset hclosing hempty
      rw [hnext] at h ⊢
      cases h
      exact .inl ⟨rfl, rfl⟩
    -- or the loop runs, and stops in front of the bracket
    · next hempty =>
      refine .inr ⟨hempty, ?_⟩
      split at h
      · cases h
      · next items' left hread =>
        split at h
        · cases h
        · next hclose =>
          obtain ⟨next, rfl⟩ := exists_cons_of_bufferAtOffset hclosing (not_not.mp hclose)
          cases h
          exact hread
  · rintro ⟨inside, rfl, ⟨rfl, hempty⟩ | ⟨hne, hread⟩⟩
    · simp [parseList, hempty]
    · simp only [parseList, bufferAtOffset_cons, ne_eq, not_true, if_false, List.drop_one,
        List.tail_cons, hne, hread]

/-! ## The parser and the grammar -/

section

variable {levels : Nat} {s rest : List UInt8}

private theorem literal_of_startsWith {literal : String} {s : List UInt8}
    (h : startsWith literal s) : ∃ rest, s = ascii literal ++ rest := by
  obtain ⟨rest, rfl⟩ := List.isPrefixOf_iff_prefix.mp h
  exact ⟨rest, rfl⟩

private theorem startsWith_append_self (literal : String) (rest : List UInt8) :
    startsWith literal (ascii literal ++ rest) :=
  List.isPrefixOf_iff_prefix.mpr (List.prefix_append _ _)

/-- The blanks in front of the first item may be skipped before the loop. -/
private theorem sepBy_skip {item : Reader UInt8 β} (hitem : Reader.NonIncreasing item)
    (hskip : ∀ s, item (bufferSkipWhitespace s) = item s) (s : List UInt8) :
    Reader.sepBy item (· = ','.toUInt8) (bufferSkipWhitespace s) =
      Reader.sepBy item (· = ','.toUInt8) s := by
  rw [Reader.sepBy_eq hitem, Reader.sepByTurn, Reader.sepByTurn, hskip]

/-- A separated list is derived item by item. -/
private theorem derives_of_sepBy {item : Reader UInt8 β} {one : β → Phrase} {many : List β → Phrase}
    (hone : ∀ v s rest, item s = some (v, rest) → Derives levels (one v) s rest)
    (hlast : ∀ {v s rest}, Derives levels (one v) s rest → rest.head? ≠ some ','.toUInt8 →
      Derives levels (many [v]) s rest)
    (hmore : ∀ {v items s next rest}, Derives levels (one v) s (','.toUInt8 :: next) →
      Derives levels (many items) next rest → Derives levels (many (v :: items)) s rest)
    {items : List β} (h : SepBy item (· = ','.toUInt8) s items rest) :
    Derives levels (many items) s rest := by
  -- induction on the separated list, the parser's own order
  induction h with
  | last hv hstop =>
    refine hlast (hone _ _ _ hv) fun hcomma => ?_
    exact Bool.false_ne_true ((hstop _ hcomma).symm.trans (decide_eq_true rfl))
  | more hv hsep _ ih =>
    rw [of_decide_eq_true hsep] at hv
    exact hmore (hone _ _ _ hv) ih

/-- What the parser accepts is derived, if that holds one level below. -/
private theorem derives_of_parsesValue {v : CJSON}
    (hbelow : ∀ below, levels = below + 1 → ∀ v s rest,
      parseValue below s = some (v, rest) → Derives below (.value v) s rest)
    (h : ParsesValue levels s v rest) : Derives levels (.value v) s rest := by
  -- the blanks around an element are no level of their own
  have helement : ∀ below, levels = below + 1 → ∀ v s rest,
      parseElement (parseValue below) s = some (v, rest) → Derives below (.element v) s rest := by
    intro below hlevels v s rest hread
    obtain ⟨left, hvalue, hrest⟩ := parseElement_eq_some_iff.mp hread
    exact .element (hbelow below hlevels _ _ _ hvalue) hrest
  cases h with
  | null h => obtain ⟨rest, rfl⟩ := literal_of_startsWith h; exact .null
  | false h => obtain ⟨rest, rfl⟩ := literal_of_startsWith h; exact .false
  | true h => obtain ⟨rest, rfl⟩ := literal_of_startsWith h; exact .true
  | string h => exact .string h
  | number hat h => exact .number hat h
  | @array below items rest hlevels h =>
    subst hlevels
    have hitem := parseElement_nonIncreasing (parseValue_nonIncreasing below)
    obtain ⟨inside, rfl, ⟨rfl, hempty⟩ | ⟨-, hread⟩⟩ :=
      (parseList_eq_some_iff (by decide) (by decide)).mp h
    · exact .emptyArray hempty
    -- the loop skips the blanks once more, which changes nothing
    · rw [sepBy_skip hitem (parseElement_skip _), Reader.sepBy_eq_some_iff hitem] at hread
      exact .array (derives_of_sepBy (helement below rfl) .lastElement .elements hread)
  | @object below members rest hlevels h =>
    subst hlevels
    have hitem := parseMember_nonIncreasing (parseValue_nonIncreasing below)
    obtain ⟨inside, rfl, ⟨rfl, hempty⟩ | ⟨-, hread⟩⟩ :=
      (parseList_eq_some_iff (by decide) (by decide)).mp h
    · exact .emptyObject hempty
    · rw [sepBy_skip hitem (parseMember_skip _), Reader.sepBy_eq_some_iff hitem] at hread
      refine .object (derives_of_sepBy (fun m s rest hm => ?_) .lastMember .members hread)
      obtain ⟨left, next, hname, hcolon, hvalue⟩ := parseMember_eq_some_iff.mp hm
      exact .member hname hcolon (helement below rfl _ _ _ hvalue)

private theorem derives_of_parseValue {v : CJSON} (h : parseValue levels s = some (v, rest)) :
    Derives levels (.value v) s rest := by
  -- induction on the levels: only the lists go one down
  induction levels generalizing s rest v with
  | zero =>
    exact derives_of_parsesValue (fun _ h => absurd h (Nat.zero_ne_add_one _))
      (parsesValue_of_parseValue h)
  | succ levels ih =>
    refine derives_of_parsesValue (fun below hbelow v s rest h => ?_) (parsesValue_of_parseValue h)
    obtain rfl : levels = below := Nat.succ.inj hbelow
    exact ih h

/-- What the functions of the parser do with a phrase. -/
private def Accepts (levels : Nat) (s rest : List UInt8) : Phrase → Prop
  | .value v => parseValue levels s = some (v, rest)
  | .element v => parseElement (parseValue levels) s = some (v, rest)
  | .member m => parseMember (parseValue levels) s = some (m, rest)
  | .elements items => SepBy (parseElement (parseValue levels)) (· = ','.toUInt8) s items rest ∧
      startsValue (bufferAtOffset (bufferSkipWhitespace s)) = true
  | .members members => SepBy (parseMember (parseValue levels)) (· = ','.toUInt8) s members rest ∧
      startsValue (bufferAtOffset (bufferSkipWhitespace s)) = true

private theorem sep_false_of_head? (h : rest.head? ≠ some ','.toUInt8) :
    ∀ c ∈ rest.head?, decide (c = ','.toUInt8) = false := by
  rintro c hc
  refine decide_eq_false fun hcomma => h ?_
  rw [← hcomma]
  exact hc

private theorem startsValue_of_parseElement {v : CJSON}
    (h : parseElement (parseValue levels) s = some (v, rest)) :
    startsValue (bufferAtOffset (bufferSkipWhitespace s)) = true := by
  obtain ⟨left, hvalue, -⟩ := parseElement_eq_some_iff.mp h
  exact startsValue_of_parseValue hvalue

private theorem startsValue_of_parseMember {m : CString × CJSON}
    (h : parseMember (parseValue levels) s = some (m, rest)) :
    startsValue (bufferAtOffset (bufferSkipWhitespace s)) = true := by
  obtain ⟨left, next, hname, -⟩ := parseMember_eq_some_iff.mp h
  rw [bufferAtOffset_of_parseString hname]
  decide

private theorem accepts_of_derives {phrase : Phrase} (h : Derives levels phrase s rest) :
    Accepts levels s rest phrase := by
  -- induction on the derivation, for all kinds of phrases at once
  induction h with
  | null => exact parseValue_of_parsesValue (.null (startsWith_append_self _ _))
  | false => exact parseValue_of_parsesValue (.false (startsWith_append_self _ _))
  | true => exact parseValue_of_parsesValue (.true (startsWith_append_self _ _))
  | string h => exact parseValue_of_parsesValue (.string h)
  | number hat h => exact parseValue_of_parsesValue (.number hat h)
  | emptyArray h =>
    refine parseValue_of_parsesValue (.array rfl ?_)
    exact (parseList_eq_some_iff (by decide) (by decide)).mpr ⟨_, rfl, .inl ⟨rfl, h⟩⟩
  | @array levels items s rest _ ih =>
    have hitem := parseElement_nonIncreasing (parseValue_nonIncreasing levels)
    refine parseValue_of_parsesValue (.array rfl ?_)
    refine (parseList_eq_some_iff (by decide) (by decide)).mpr ⟨_, rfl, .inr ⟨?_, ?_⟩⟩
    -- the first item is no closing bracket, so the list is not taken for empty
    · exact bufferAtOffset_ne_of_startsValue ih.2 (by decide)
    · rw [sepBy_skip hitem (parseElement_skip _)]
      exact (Reader.sepBy_eq_some_iff hitem).mpr ih.1
  | emptyObject h =>
    refine parseValue_of_parsesValue (.object rfl ?_)
    exact (parseList_eq_some_iff (by decide) (by decide)).mpr ⟨_, rfl, .inl ⟨rfl, h⟩⟩
  | @object levels members s rest _ ih =>
    have hitem := parseMember_nonIncreasing (parseValue_nonIncreasing levels)
    refine parseValue_of_parsesValue (.object rfl ?_)
    refine (parseList_eq_some_iff (by decide) (by decide)).mpr ⟨_, rfl, .inr ⟨?_, ?_⟩⟩
    · exact bufferAtOffset_ne_of_startsValue ih.2 (by decide)
    · rw [sepBy_skip hitem (parseMember_skip _)]
      exact (Reader.sepBy_eq_some_iff hitem).mpr ih.1
  | element _ hrest ih => exact parseElement_eq_some_iff.mpr ⟨_, ih, hrest⟩
  | member hname hcolon _ ih => exact parseMember_eq_some_iff.mpr ⟨_, _, hname, hcolon, ih⟩
  | lastElement _ hstop ih =>
    exact ⟨.last ih (sep_false_of_head? hstop), startsValue_of_parseElement ih⟩
  | elements _ _ ih ihtail =>
    exact ⟨.more ih (decide_eq_true rfl) ihtail.1, startsValue_of_parseElement ih⟩
  | lastMember _ hstop ih =>
    exact ⟨.last ih (sep_false_of_head? hstop), startsValue_of_parseMember ih⟩
  | members _ _ ih ihtail =>
    exact ⟨.more ih (decide_eq_true rfl) ihtail.1, startsValue_of_parseMember ih⟩

/-- The parser succeeds exactly where there is a derivation. -/
theorem parseValue_eq_some_iff {v : CJSON} :
    parseValue levels s = some (v, rest) ↔ Derives levels (.value v) s rest :=
  ⟨derives_of_parseValue, fun h => accepts_of_derives h⟩

/-- An element is a value with the blanks around it. -/
theorem derives_element_iff {v : CJSON} :
    Derives levels (.element v) s rest ↔
      ∃ left, parseValue levels (bufferSkipWhitespace s) = some (v, left) ∧
        bufferSkipWhitespace left = rest := by
  constructor
  · intro h
    cases h with
    | element h hrest => exact ⟨_, parseValue_eq_some_iff.mpr h, hrest⟩
  · rintro ⟨left, h, hrest⟩
    exact .element (parseValue_eq_some_iff.mp h) hrest

end

/-- Behind the blanks there is no blank. -/
theorem not_isWhitespace_of_skip {s next : List UInt8} {c : UInt8}
    (h : bufferSkipWhitespace s = c :: next) : isWhitespace c = false := by
  have hhead := List.head?_dropWhile_not isWhitespace s
  rw [show s.dropWhile isWhitespace = c :: next from h] at hhead
  simpa using hhead

/-- Behind the blanks the cursor is at a NUL only at the end. -/
theorem bufferAtOffset_bufferSkipWhitespace (s : List UInt8) :
    bufferAtOffset (bufferSkipWhitespace s) = 0 ↔ bufferSkipWhitespace s = [] := by
  cases h : bufferSkipWhitespace s with
  | nil => exact iff_of_true rfl rfl
  | cons c next =>
    refine iff_of_false ?_ (List.cons_ne_nil _ _)
    rintro rfl
    exact Bool.noConfusion (not_isWhitespace_of_skip h)

/-- With `require_null_terminated`, a text is accepted exactly if it holds one value with
    nothing but blanks around it. -/
theorem cJSONParseWithOpts_true_iff_derives {value : CString} {v : CJSON} {rest : List UInt8} :
    cJSONParseWithOpts (some value) true = some (v, rest) ↔
      rest = [] ∧ Derives CJSON_NESTING_LIMIT (.element v) value.bytes [] := by
  rw [derives_element_iff]
  simp only [cJSONParseWithOpts, if_true]
  constructor
  · intro h
    split at h
    · exact nomatch h
    · next item left hvalue =>
      split at h
      · exact nomatch h
      -- the cursor is at the terminator behind the last blanks
      · next hend =>
        cases h
        rw [not_not, bufferAtOffset_bufferSkipWhitespace] at hend
        exact ⟨hend, left, hvalue, hend⟩
  · rintro ⟨rfl, left, hvalue, hend⟩
    simp [hvalue, hend]

/-- Without it, whatever follows the value is ignored. -/
theorem cJSONParse_eq_map (value : Option CString) :
    cJSONParse value = (cJSONParseWithOpts value false).map Prod.fst := by
  cases value with
  | none => rfl
  | some value =>
    simp only [cJSONParse, cJSONParseWithOpts, Bool.false_eq_true, if_false]
    cases parseValue CJSON_NESTING_LIMIT (bufferSkipWhitespace value.bytes) <;> rfl

end ArkInC.Native
