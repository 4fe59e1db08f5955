import ArkInC.Spec.NumberText
import ArkInC.Spec.StringText

/-!
# Rendered trees

The text of a tree, without buffers, and what the parser makes of it: the tree again, as
long as it is not nested too deep. Infinite numbers are the exception, they have no literal
and are printed as `null`.

## Key results

- `cJSONParseWithOpts_render`: reading the text of a tree gives the tree back
- `cJSONParse_render_eq_none`: a tree that is nested too deep is printed but not read back
- `fits_of_derives`: every parsed tree can be printed and read back
-/

namespace ArkInC.Native

open Binary64 (Double Representable)

/-! ## The text -/

/-- A character of a string, escaped where it has to be. -/
def escapeChar (c : UInt8) : List UInt8 :=
  match escapeLetter c with
  | some letter => ['\\'.toUInt8, letter]
  | none => if c < 32 then '\\'.toUInt8 :: formatU04x c else [c]

/-- A string between quotes. -/
def quote (s : CString) : List UInt8 :=
  '"'.toUInt8 :: (s.bytes.flatMap escapeChar ++ ['"'.toUInt8])

def commaText (format : Bool) : List UInt8 := if format then ascii ", " else ascii ","

def openText (format : Bool) : List UInt8 := if format then ascii "\x7b\n" else ascii "\x7b"

def indentText (format : Bool) (depth : Nat) : List UInt8 :=
  if format then List.replicate depth '\t'.toUInt8 else []

def colonText (format : Bool) : List UInt8 := if format then ascii ":\t" else ascii ":"

def memberEndText (format last : Bool) : List UInt8 :=
  (if last then [] else ascii ",") ++ (if format then ascii "\n" else [])

mutual

/-- The text of a tree inside `depth` arrays and objects. -/
def render (format : Bool) (depth : Nat) : CJSON → List UInt8
  | .null => ascii "null"
  | .false => ascii "false"
  | .true => ascii "true"
  | .number d => renderNumber d
  | .string s => quote s
  | .array items => '['.toUInt8 :: (renderElements format (depth + 1) items ++ [']'.toUInt8])
  | .object members =>
    openText format ++ renderMembers format (depth + 1) members ++ indentText format depth ++
      ['}'.toUInt8]

def renderElements (format : Bool) (depth : Nat) : List CJSON → List UInt8
  | [] => []
  | item :: items =>
    render format depth item ++ (if items.isEmpty then [] else commaText format) ++
      renderElements format depth items

def renderMembers (format : Bool) (depth : Nat) : List (CString × CJSON) → List UInt8
  | [] => []
  | (name, item) :: members =>
    indentText format depth ++ quote name ++ colonText format ++ render format depth item ++
      memberEndText format members.isEmpty ++ renderMembers format depth members

end

/-! ## Trees -/

/-- An induction over the items of a tree. -/
theorem CJSON.items_induction {motive : CJSON → Prop} (null : motive .null)
    (false : motive .false) (true : motive .true) (number : ∀ d, motive (.number d))
    (string : ∀ s, motive (.string s))
    (array : ∀ items, (∀ v ∈ items, motive v) → motive (.array items))
    (object : ∀ members, (∀ m ∈ members, motive (Prod.snd m)) → motive (.object members)) :
    ∀ v, motive v
  | .null => null
  | .false => false
  | .true => true
  | .number d => number d
  | .string s => string s
  | .array items => array items fun v _ =>
    CJSON.items_induction null false true number string array object v
  | .object members => object members fun m _ =>
    CJSON.items_induction null false true number string array object m.2
decreasing_by
  · have := List.sizeOf_lt_of_mem ‹v ∈ items›
    simp only [CJSON.array.sizeOf_spec]
    omega
  · have := List.sizeOf_lt_of_mem ‹m ∈ members›
    have : sizeOf m.2 < sizeOf m := by
      cases m
      simp only [Prod.mk.sizeOf_spec]
      omega
    simp only [CJSON.object.sizeOf_spec]
    omega

/-- Every number of the tree is a double, and at most `levels` arrays and objects are nested. -/
inductive Fits : Nat → CJSON → Prop where
  | null {levels} : Fits levels .null
  | false {levels} : Fits levels .false
  | true {levels} : Fits levels .true
  | number {levels d} (h : IsBinary64 d) : Fits levels (.number d)
  | string {levels s} : Fits levels (.string s)
  | array {levels items} (h : ∀ v ∈ items, Fits levels v) : Fits (levels + 1) (.array items)
  | object {levels members} (h : ∀ m ∈ members, Fits levels (Prod.snd m)) :
    Fits (levels + 1) (.object members)

mutual

/-- The strings and the names in a tree. -/
def CJSON.strings : CJSON → List CString
  | .string s => [s]
  | .array items => stringsOfElements items
  | .object members => stringsOfMembers members
  | _ => []

def stringsOfElements : List CJSON → List CString
  | [] => []
  | item :: items => item.strings ++ stringsOfElements items

def stringsOfMembers : List (CString × CJSON) → List CString
  | [] => []
  | (name, item) :: members => name :: (item.strings ++ stringsOfMembers members)

end

theorem mem_stringsOfElements {items : List CJSON} {s : CString} :
    s ∈ stringsOfElements items ↔ ∃ v ∈ items, s ∈ v.strings := by
  induction items with
  | nil => simp [stringsOfElements]
  | cons v items ih => simp [stringsOfElements, ih]

theorem mem_stringsOfMembers {members : List (CString × CJSON)} {s : CString} :
    s ∈ stringsOfMembers members ↔ ∃ m ∈ members, s = m.1 ∨ s ∈ m.2.strings := by
  induction members with
  | nil => simp [stringsOfMembers]
  | cons m members ih => simp [stringsOfMembers, ih, or_assoc]

/-- No string of the tree is so long that its length between quotes, with escapes and a NUL,
    passes a `size_t`. -/
def StringsFit (sizeBits : Nat) (v : CJSON) : Prop :=
  ∀ s ∈ v.strings, (quote s).length + 1 < 2 ^ sizeBits

theorem stringsFit_elements {sizeBits : Nat} {items : List CJSON} :
    StringsFit sizeBits (.array items) ↔ ∀ v ∈ items, StringsFit sizeBits v := by
  simp only [StringsFit, CJSON.strings, mem_stringsOfElements]
  exact ⟨fun h v hv s hs => h s ⟨v, hv, hs⟩, fun h s ⟨v, hv, hs⟩ => h v hv s hs⟩

theorem stringsFit_members {sizeBits : Nat} {members : List (CString × CJSON)} :
    StringsFit sizeBits (.object members) ↔
      ∀ m ∈ members, (quote m.1).length + 1 < 2 ^ sizeBits ∧ StringsFit sizeBits m.2 := by
  simp only [StringsFit, CJSON.strings, mem_stringsOfMembers]
  refine ⟨fun h m hm => ⟨h m.1 ⟨m, hm, .inl rfl⟩, fun s hs => h s ⟨m, hm, .inr hs⟩⟩, ?_⟩
  rintro h s ⟨m, hm, rfl | hs⟩
  · exact (h m hm).1
  · exact (h m hm).2 s hs

/-- What the text of a tree tells about it: an infinite number is printed as `null`. -/
def printedNumber : Double → CJSON
  | .infinite _ => .null
  | .negZero => .number .negZero
  | .finite q => .number (.finite q)

mutual

def printedTree : CJSON → CJSON
  | .null => .null
  | .false => .false
  | .true => .true
  | .number d => printedNumber d
  | .string s => .string s
  | .array items => .array (printedElements items)
  | .object members => .object (printedMembers members)

def printedElements : List CJSON → List CJSON
  | [] => []
  | item :: items => printedTree item :: printedElements items

def printedMembers : List (CString × CJSON) → List (CString × CJSON)
  | [] => []
  | (name, item) :: members => (name, printedTree item) :: printedMembers members

end

theorem printedElements_eq_map (items : List CJSON) :
    printedElements items = items.map printedTree := by
  induction items with
  | nil => rfl
  | cons item items ih => rw [printedElements, ih, List.map_cons]

theorem printedMembers_eq_map (members : List (CString × CJSON)) :
    printedMembers members = members.map fun m => (m.1, printedTree m.2) := by
  induction members with
  | nil => rfl
  | cons m members ih => rw [printedMembers, ih, List.map_cons]

/-! ## Strings -/

/-- The short escape sequences. -/
private theorem escapeSequence_letter {c letter : UInt8} (h : escapeLetter c = some letter)
    (rest : List UInt8) :
    escapeSequence ('\\'.toUInt8 :: letter :: rest) = some ([c], 2) := by
  rw [escapeLetter] at h
  -- one case for each letter; the sequence is decoded by evaluation
  split_ifs at h with h1 h2 h3 h4 h5 h6 h7 <;> cases h <;> subst_vars <;> rfl

private theorem parseHex4_hexChar {n : Nat} (h : n < 256) (rest : List UInt8) :
    parseHex4 ('0'.toUInt8 :: '0'.toUInt8 :: hexChar (n / 16) :: hexChar (n % 16) :: rest) = n := by
  -- `decide` runs over the two digits that are written
  have hall : ∀ n < 256,
      parseHex4 ['0'.toUInt8, '0'.toUInt8, hexChar (n / 16), hexChar (n % 16)] = n := by
    decide +kernel
  exact hall n h

/-- A control character is written by its code. -/
private theorem escapeSequence_control {c : UInt8} (hc : c < 32) {rest : List UInt8}
    (hrest : rest ≠ []) :
    escapeSequence ('\\'.toUInt8 :: (formatU04x c ++ rest)) = some ([c], 6) := by
  obtain ⟨d, rest, rfl⟩ := List.exists_cons_of_ne_nil hrest
  have hlt : c.toNat < 32 := UInt8.lt_iff_toNat_lt.mp hc
  have hcode := parseHex4_hexChar (show c.toNat < 256 by omega) (d :: rest)
  have hencode : ∀ n < 32, utf8Encode 1 0 n = [n.toUInt8] := by decide
  change utf16LiteralToUtf8 ('\\'.toUInt8 :: 'u'.toUInt8 :: '0'.toUInt8 :: '0'.toUInt8 ::
    hexChar (c.toNat / 16) :: hexChar (c.toNat % 16) :: d :: rest) = _
  have hlen : ¬ (rest.length + 1 + 1 + 1 + 1 + 1 + 1 + 1 - 1 < 6) := by omega
  -- the code is below 32, so it is no surrogate and takes one byte
  have hnotlow : ¬ (0xDC00 ≤ c.toNat ∧ c.toNat ≤ 0xDFFF) := by omega
  have hnothigh : ¬ (0xD800 ≤ c.toNat ∧ c.toNat ≤ 0xDBFF) := by omega
  simp only [utf16LiteralToUtf8, List.length_cons, if_neg hlen, List.drop_succ_cons,
    List.drop_zero, hcode, if_neg hnotlow, if_neg hnothigh, if_pos (show c.toNat < 0x80 by omega),
    hencode c.toNat hlt, UInt8.ofNat_toNat, Nat.toUInt8_eq]

private theorem escapeLetter_eq_none {c : UInt8} (h : escapeLetter c = none) :
    c ≠ '"'.toUInt8 ∧ c ≠ '\\'.toUInt8 := by
  constructor <;> rintro rfl <;> exact nomatch h

/-- Every escaped character is decoded to itself. -/
theorem unescape_escapeChar (c : UInt8) {rest : List UInt8} (hrest : rest ≠ []) :
    unescape 0 (escapeChar c ++ rest) = (unescape 0 rest).map (c :: ·) := by
  rw [escapeChar]
  cases hletter : escapeLetter c with
  -- the short sequence, the code, or the character as it is
  | some letter =>
    change unescape 0 ('\\'.toUInt8 :: letter :: rest) = _
    rw [unescape_escaped (List.cons_ne_nil _ _) (escapeSequence_letter hletter rest)]
    exact congrArg _ (unescape_skip [letter] hrest)
  | none =>
    dsimp only
    split
    · next hcontrol =>
      have hsequence := unescape_escaped (List.append_ne_nil_of_right_ne_nil (formatU04x c) hrest)
        (escapeSequence_control hcontrol hrest)
      exact hsequence.trans (congrArg _ (unescape_skip (formatU04x c) hrest))
    · exact unescape_plain (escapeLetter_eq_none hletter).2 hrest

theorem unescape_quote (s : List UInt8) :
    unescape 0 (s.flatMap escapeChar ++ ['"'.toUInt8]) = some s := by
  induction s with
  | nil => rfl
  | cons c s ih =>
    have hne : s.flatMap escapeChar ++ ['"'.toUInt8] ≠ [] := by simp
    rw [List.flatMap_cons, List.append_assoc, unescape_escapeChar c hne, ih]
    rfl

/-- No quote in an escaped character ends the string. -/
theorem stringBody_escapeChar (c : UInt8) : StringBody (escapeChar c) := by
  rw [escapeChar]
  cases hletter : escapeLetter c with
  | some letter => exact .escaped .nil
  | none =>
    have ⟨hquote, hslash⟩ := escapeLetter_eq_none hletter
    dsimp only
    split
    · next hcontrol =>
      have hlt : c.toNat < 32 := UInt8.lt_iff_toNat_lt.mp hcontrol
      -- a backslash, and five characters that are no quotes
      have hhigh := hexChar_ne (show c.toNat / 16 < 16 by omega)
      have hlow := hexChar_ne (show c.toNat % 16 < 16 by omega)
      refine .escaped (.plain (by decide) (by decide) (.plain (by decide) (by decide) ?_))
      exact .plain hhigh.1 hhigh.2.1 (.plain hlow.1 hlow.2.1 .nil)
    · exact .plain hquote hslash .nil

theorem stringBody_escape (s : List UInt8) : StringBody (s.flatMap escapeChar) := by
  induction s with
  | nil => exact .nil
  | cons c s ih =>
    rw [List.flatMap_cons]
    exact (stringBody_escapeChar c).append ih

/-- A quoted string is read back. -/
theorem parseString_quote (s : CString) (rest : List UInt8) :
    parseString (quote s ++ rest) = some (s, rest) := by
  refine parseString_eq_some_iff.mpr ⟨_, s.bytes, stringBody_escape s.bytes, ?_,
    unescape_quote s.bytes, s.ofBytes_bytes⟩
  rw [quote, List.cons_append, List.append_assoc, List.singleton_append]

theorem noNul_quote (s : CString) : 0 ∉ quote s := by
  have hchar : ∀ c ≠ 0, 0 ∉ escapeChar c := by
    intro c hc
    rw [escapeChar]
    cases hletter : escapeLetter c with
    | some letter =>
      -- none of the letters is a NUL
      have hne : letter ≠ 0 := by
        rw [escapeLetter] at hletter
        split_ifs at hletter <;> cases hletter <;> decide
      simp only [List.mem_cons, List.not_mem_nil, or_false, not_or]
      exact ⟨by decide, hne.symm⟩
    | none =>
      dsimp only
      split
      · next hcontrol =>
        have hlt : c.toNat < 32 := UInt8.lt_iff_toNat_lt.mp hcontrol
        have hhigh := hexChar_ne (show c.toNat / 16 < 16 by omega)
        have hlow := hexChar_ne (show c.toNat % 16 < 16 by omega)
        simp only [formatU04x, List.mem_cons, List.not_mem_nil, or_false, not_or]
        exact ⟨by decide, by decide, by decide, by decide, hhigh.2.2.symm, hlow.2.2.symm⟩
      · simpa using hc.symm
  simp only [quote, List.mem_cons, List.mem_append, List.mem_flatMap, List.not_mem_nil, or_false,
    not_or]
  refine ⟨by decide, ?_, by decide⟩
  rintro ⟨c, hc, hzero⟩
  exact hchar c (fun h => s.noNul (h ▸ hc)) hzero

/-! ## Reading the text back -/

theorem blanks_indentText (format : Bool) (depth : Nat) : Blanks (indentText format depth) := by
  intro c hc
  rw [indentText] at hc
  split at hc
  · rw [(List.mem_replicate.mp hc).2]
    decide
  · exact nomatch hc

/-- A number is read up to what separates it from the rest; an infinite one is a `null`. -/
theorem derives_renderNumber {levels : Nat} {d : Double} (hd : IsBinary64 d) {rest : List UInt8}
    (hrest : NumberEnds rest) :
    Derives levels (.value (printedNumber d)) (renderNumber d ++ rest) rest := by
  -- every finite number is printed as a literal
  have hliteral : ∀ d' : Double, IsBinary64 d' → d'.value ≠ none →
      Derives levels (.value (.number d')) (renderNumber d' ++ rest) rest := by
    intro d' hd' hfinite
    obtain ⟨l, htext, -⟩ := exists_literal_of_renderNumber hd' hfinite
    have hstrtod := strtod_renderNumber hd' hfinite
    have hlen := renderNumber_length_le hd'
    rw [htext] at hstrtod hlen ⊢
    exact .number (l.bufferAtOffset_text rest) (parseNumber_append l.isNumberChar_of_mem_text
      (by omega) hstrtod hrest)
  cases d with
  | infinite => exact .null
  | negZero => exact hliteral _ hd nofun
  | finite q => exact hliteral _ hd nofun

theorem startsValue_render (format : Bool) (depth : Nat) {levels : Nat} {v : CJSON}
    (hv : Fits levels v) (rest : List UInt8) :
    startsValue (bufferAtOffset (render format depth v ++ rest)) := by
  cases hv with
  | null | false | true | string | array => rw [render]; rfl
  | @number _ d hd =>
    rw [render]
    cases d with
    | infinite => rfl
    | negZero => rfl
    | finite q =>
      -- a literal starts with a minus or a digit
      obtain ⟨l, htext, -⟩ := exists_literal_of_renderNumber hd nofun
      rw [htext]
      rcases l.bufferAtOffset_text rest with hminus | hdigit
      · rw [hminus]; decide
      · simp [startsValue, hdigit]
  | object => rw [render]; cases format <;> rfl

section

variable {format : Bool} {levels : Nat}

/-- The text of the tree is read up to what separates it from the rest. -/
def ReadsBack (format : Bool) (levels : Nat) (v : CJSON) : Prop :=
  ∀ depth rest, NumberEnds rest →
    Derives levels (.value (printedTree v)) (render format depth v ++ rest) rest

/-- An element is read with the blanks around it. -/
theorem derives_element {v : CJSON} (depth : Nat) (hv : Fits levels v)
    (hread : ReadsBack format levels v) {before behind : List UInt8} (hbefore : Blanks before)
    (hbehind : Blanks behind) {c : UInt8} (hc : EndsNumber c) (hblank : isWhitespace c = false)
    (rest : List UInt8) :
    Derives levels (.element (printedTree v))
      (before ++ (render format depth v ++ (behind ++ c :: rest))) (c :: rest) := by
  -- the value ends where the blanks behind it begin
  refine .element ?_ (bufferSkipWhitespace_blanks hbehind hblank)
  rw [bufferSkipWhitespace_blanks hbefore
    (not_isWhitespace_of_startsValue (startsValue_render format depth hv _))]
  exact hread depth _ (numberEnds_append hbehind (numberEnds_cons hc rest))

/-- So is a member, with its name in front of it. -/
theorem derives_member {v : CJSON} (depth : Nat) (name : CString) (hv : Fits levels v)
    (hread : ReadsBack format levels v) {before behind : List UInt8} (hbefore : Blanks before)
    (hbehind : Blanks behind) (c : UInt8) (hc : EndsNumber c) (hblank : isWhitespace c = false)
    (rest : List UInt8) :
    Derives levels (.member (name, printedTree v))
      (before ++ (quote name ++ (colonText format ++
        (render format depth v ++ (behind ++ c :: rest))))) (c :: rest) := by
  -- the tab behind the colon is a blank in front of the value
  obtain ⟨blanks, hblanks, hcolon⟩ : ∃ blanks, Blanks blanks ∧
      colonText format = ':'.toUInt8 :: blanks := by
    cases format
    · exact ⟨[], blanks_nil, rfl⟩
    · exact ⟨['\t'.toUInt8], blanks_singleton (by decide), rfl⟩
  rw [hcolon]
  have hname : parseString (bufferSkipWhitespace (before ++ (quote name ++ (':'.toUInt8 ::
      blanks ++ (render format depth v ++ (behind ++ c :: rest)))))) =
        some (name,
          ':'.toUInt8 :: (blanks ++ (render format depth v ++ (behind ++ c :: rest)))) := by
    rw [bufferSkipWhitespace_blanks hbefore rfl, parseString_quote, List.cons_append]
  exact .member hname rfl (derives_element depth hv hread hblanks hbehind hc hblank rest)

/-- The elements of an array are read one after the other, up to the bracket. -/
theorem derives_renderElements {items : List CJSON} (depth : Nat) (hne : items ≠ [])
    (hitems : ∀ v ∈ items, Fits levels v) (hread : ∀ v ∈ items, ReadsBack format levels v)
    {before : List UInt8} (hbefore : Blanks before) (rest : List UInt8) :
    Derives levels (.elements (printedElements items))
      (before ++ (renderElements format depth items ++ ']'.toUInt8 :: rest))
      (']'.toUInt8 :: rest) := by
  -- induction on the items; the blanks in front of the first come from what stands before
  induction items generalizing before with
  | nil => exact absurd rfl hne
  | cons v items ih =>
    have hv := hitems v List.mem_cons_self
    have hreadv := hread v List.mem_cons_self
    rw [printedElements, renderElements]
    cases items with
    | nil =>
      refine .lastElement ?_ (show some ']'.toUInt8 ≠ some ','.toUInt8 by decide)
      simp only [List.isEmpty_nil, if_true, List.append_nil, renderElements]
      exact derives_element depth hv hreadv hbefore blanks_nil (by decide) (by decide) rest
    | cons w items =>
      -- the blank of the comma belongs to the next element
      obtain ⟨blanks, hblanks, hcomma⟩ : ∃ blanks, Blanks blanks ∧
          commaText format = ','.toUInt8 :: blanks := by
        cases format
        · exact ⟨[], blanks_nil, rfl⟩
        · exact ⟨[' '.toUInt8], blanks_singleton (by decide), rfl⟩
      have htail := ih (List.cons_ne_nil _ _) (fun u hu => hitems u (List.mem_cons_of_mem _ hu))
        (fun u hu => hread u (List.mem_cons_of_mem _ hu)) hblanks
      refine .elements ?_ htail
      simp only [List.isEmpty_cons, Bool.false_eq_true, if_false, hcomma, List.append_assoc,
        List.cons_append]
      exact derives_element depth hv hreadv hbefore blanks_nil (by decide) (by decide) _

/-- The members of an object are read one after the other, up to the bracket. -/
theorem derives_renderMembers {members : List (CString × CJSON)} (depth : Nat)
    (hne : members ≠ [])
    (hmembers : ∀ m ∈ members, Fits levels m.2)
    (hread : ∀ m ∈ members, ReadsBack format levels m.2) {before behind : List UInt8}
    (hbefore : Blanks before) (hbehind : Blanks behind) (rest : List UInt8) :
    Derives levels (.members (printedMembers members))
      (before ++ (renderMembers format depth members ++ (behind ++ '}'.toUInt8 :: rest)))
      ('}'.toUInt8 :: rest) := by
  have hline : Blanks (if format then ascii "\n" else []) := by
    cases format
    · exact blanks_nil
    · exact blanks_singleton (by decide)
  induction members generalizing before with
  | nil => exact absurd rfl hne
  | cons m members ih =>
    have hm := hmembers m List.mem_cons_self
    have hreadm := hread m List.mem_cons_self
    -- the end of the last line and the indentation are blanks in front of the name
    have hindent : Blanks (before ++ indentText format depth) := fun c hc =>
      (List.mem_append.mp hc).elim (hbefore c) (blanks_indentText format depth c)
    rw [printedMembers, renderMembers, memberEndText]
    cases members with
    | nil =>
      refine .lastMember ?_ (show some '}'.toUInt8 ≠ some ','.toUInt8 by decide)
      -- behind the last member, the end of its line and the indentation of the brace
      have hend : Blanks ((if format then ascii "\n" else []) ++ behind) := fun c hc =>
        (List.mem_append.mp hc).elim (hline c) (hbehind c)
      have hmember := derives_member depth m.1 hm hreadm hindent hend '}'.toUInt8 (by decide)
        (by decide) rest
      simp only [List.isEmpty_nil, if_true, List.nil_append, renderMembers, List.append_nil,
        List.append_assoc] at hmember ⊢
      exact hmember
    | cons next members =>
      have htail := ih (List.cons_ne_nil _ _) (fun u hu => hmembers u (List.mem_cons_of_mem _ hu))
        (fun u hu => hread u (List.mem_cons_of_mem _ hu)) hline
      refine .members ?_ htail
      have hmember := derives_member depth m.1 hm hreadm hindent blanks_nil ','.toUInt8
        (by decide) (by decide) ((if format then ascii "\n" else []) ++
          (renderMembers format depth (next :: members) ++ (behind ++ '}'.toUInt8 :: rest)))
      have hcomma : ascii "," = [','.toUInt8] := rfl
      simp only [List.isEmpty_cons, Bool.false_eq_true, if_false, hcomma, List.append_assoc,
        List.cons_append, List.nil_append] at hmember ⊢
      exact hmember

/-- The text of a tree is a text the parser accepts, and what it makes of it is the tree. -/
theorem readsBack_of_fits (format : Bool) {v : CJSON} (hv : Fits levels v) :
    ReadsBack format levels v := by
  -- one case for each branch of `print_value`, and of `parse_value`
  induction hv with
  | null => exact fun depth rest _ => .null
  | false => exact fun depth rest _ => .false
  | true => exact fun depth rest _ => .true
  | number hd => exact fun depth rest hrest => derives_renderNumber hd hrest
  | string => exact fun depth rest _ => .string (parseString_quote _ rest)
  | @array levels items hitems ih =>
    intro depth rest _
    rw [printedTree, render, List.cons_append, List.append_assoc]
    by_cases hne : items = []
    · subst hne
      exact .emptyArray rfl
    · exact .array (derives_renderElements (depth + 1) hne hitems ih blanks_nil rest)
  | @object levels members hmembers ih =>
    intro depth rest _
    obtain ⟨blanks, hblanks, hopen⟩ : ∃ blanks, Blanks blanks ∧
        openText format = '{'.toUInt8 :: blanks := by
      cases format
      · exact ⟨[], blanks_nil, rfl⟩
      · exact ⟨['\n'.toUInt8], blanks_singleton (by decide), rfl⟩
    rw [printedTree, render, hopen]
    simp only [List.cons_append, List.append_assoc, List.nil_append]
    -- an empty object may have blanks between its braces
    by_cases hne : members = []
    · subst hne
      refine .emptyObject ?_
      have hall : Blanks (blanks ++ indentText format depth) := fun c hc =>
        (List.mem_append.mp hc).elim (hblanks c) (blanks_indentText format depth c)
      rw [renderMembers, List.nil_append, ← List.append_assoc]
      exact bufferSkipWhitespace_blanks hall rfl
    · exact .object (derives_renderMembers (depth + 1) hne hmembers ih hblanks
        (blanks_indentText format depth) rest)

end

/-! ## Trees that were parsed -/

theorem Derives.mono {levels levels' : Nat} {phrase : Phrase} {s rest : List UInt8}
    (h : Derives levels phrase s rest) (hle : levels ≤ levels') :
    Derives levels' phrase s rest := by
  induction h generalizing levels' with
  | null => exact .null
  | false => exact .false
  | true => exact .true
  | string h => exact .string h
  | number hat h => exact .number hat h
  | emptyArray h =>
    -- one level is used by the brackets
    cases levels' with
    | zero => omega
    | succ levels' => exact .emptyArray h
  | array _ ih =>
    cases levels' with
    | zero => omega
    | succ levels' => exact .array (ih (by omega))
  | emptyObject h =>
    cases levels' with
    | zero => omega
    | succ levels' => exact .emptyObject h
  | object _ ih =>
    cases levels' with
    | zero => omega
    | succ levels' => exact .object (ih (by omega))
  | element _ hrest ih => exact .element (ih hle) hrest
  | member hname hcolon _ ih => exact .member hname hcolon (ih hle)
  | lastElement _ hstop ih => exact .lastElement (ih hle) hstop
  | elements _ _ ih ihtail => exact .elements (ih hle) (ihtail hle)
  | lastMember _ hstop ih => exact .lastMember (ih hle) hstop
  | members _ _ ih ihtail => exact .members (ih hle) (ihtail hle)

theorem isBinary64_withSign (negative : Bool) {d : Double} (h : IsBinary64 d) :
    IsBinary64 (d.withSign negative) := by
  unfold Double.withSign
  split
  · trivial
  · exact h

theorem isBinary64_decimalToDouble (negative : Bool) (mantissa : Nat) (exponent : Int) :
    IsBinary64 (decimalToDouble negative mantissa exponent) := by
  rw [decimalToDouble]
  refine isBinary64_withSign negative ?_
  split
  · exact Binary64.representable_of_nearest (Binary64.nearest_natCast (n := 0) (by norm_num))
  · split
    · trivial
    -- a finite value is one because it was rounded
    · generalize (if negative then -1 else 1) * (mantissa : ℚ) * 10 ^ exponent = x
      cases h : Binary64.nearest x with
      | infinite => trivial
      | negZero => trivial
      | finite q => exact Binary64.representable_of_nearest h

theorem isBinary64_of_strtod {s : List UInt8} {d : Double} {n : Nat}
    (h : strtod s = some (d, n)) : IsBinary64 d := by
  simp only [strtod] at h
  split at h
  · cases h
  · cases h
    exact isBinary64_decimalToDouble _ _ _

/-- The trees in a phrase fit. -/
def FitsPhrase (levels : Nat) : Phrase → Prop
  | .value v => Fits levels v
  | .element v => Fits levels v
  | .member m => Fits levels m.2
  | .elements items => ∀ v ∈ items, Fits levels v
  | .members members => ∀ m ∈ members, Fits levels m.2

/-- Every number that was parsed is a double, and the parser counts the nesting. -/
theorem fits_of_derives {levels : Nat} {phrase : Phrase} {s rest : List UInt8}
    (h : Derives levels phrase s rest) : FitsPhrase levels phrase := by
  -- induction on the derivation: a bracket costs one level on both sides
  induction h with
  | null => exact .null
  | false => exact .false
  | true => exact .true
  | string => exact .string
  | number hat h =>
    simp only [parseNumber] at h
    split at h
    · cases h
    · next hstrtod =>
      cases h
      exact .number (isBinary64_of_strtod hstrtod)
  | emptyArray => exact .array (List.forall_mem_nil _)
  | array _ ih => exact .array ih
  | emptyObject => exact .object (List.forall_mem_nil _)
  | object _ ih => exact .object ih
  | element _ _ ih => exact ih
  | member _ _ _ ih => exact ih
  | lastElement _ _ ih => exact List.forall_mem_singleton.mpr ih
  | elements _ _ ih ihtail => exact List.forall_mem_cons.mpr ⟨ih, ihtail⟩
  | lastMember _ _ ih => exact List.forall_mem_singleton.mpr ih
  | members _ _ ih ihtail => exact List.forall_mem_cons.mpr ⟨ih, ihtail⟩

theorem fits_of_cJSONParse {value : Option CString} {v : CJSON} (h : cJSONParse value = some v) :
    Fits CJSON_NESTING_LIMIT v := by
  cases value with
  | none => exact nomatch h
  | some value =>
    obtain ⟨⟨w, rest⟩, hparse, rfl⟩ := Option.map_eq_some_iff.mp h
    exact fits_of_derives (parseValue_eq_some_iff.mp hparse)

/-! ## Printing and parsing -/

theorem noNul_formatG {precision : Nat} (hprecision : 1 < precision) (q : ℚ) :
    0 ∉ formatG precision q := by
  by_cases hq : q = 0
  · rw [formatG, if_pos hq]
    decide
  · obtain ⟨l, htext, -⟩ := exists_literal_of_formatG hprecision hq
    rw [htext]
    -- no character of a literal is a NUL
    exact fun hzero => absurd (l.isNumberChar_of_mem_text 0 hzero) (by decide)

theorem noNul_renderNumber (d : Double) : 0 ∉ renderNumber d := by
  cases d with
  | infinite => exact (show 0 ∉ ascii "null" by decide)
  | negZero => exact (show 0 ∉ ascii "-0" by decide)
  | finite q =>
    rw [renderNumber]
    split
    · exact noNul_formatG (by norm_num) q
    · exact noNul_formatG (by norm_num) q

theorem noNul_indentText (format : Bool) (depth : Nat) : 0 ∉ indentText format depth := by
  rw [indentText]
  split
  · exact fun hzero => absurd (List.mem_replicate.mp hzero).2 (by decide)
  · exact List.not_mem_nil

private theorem noNul_renderElements {format : Bool} {depth : Nat} {items : List CJSON}
    (h : ∀ v ∈ items, 0 ∉ render format depth v) : 0 ∉ renderElements format depth items := by
  induction items with
  | nil => exact List.not_mem_nil
  | cons v items ih =>
    obtain ⟨hv, hitems⟩ := List.forall_mem_cons.mp h
    have hcomma : 0 ∉ if items.isEmpty then [] else commaText format := by
      cases items.isEmpty <;> cases format <;> decide
    simp only [renderElements, List.mem_append, not_or]
    exact ⟨⟨hv, hcomma⟩, ih hitems⟩

private theorem noNul_renderMembers {format : Bool} {depth : Nat}
    {members : List (CString × CJSON)} (h : ∀ m ∈ members, 0 ∉ render format depth (Prod.snd m)) :
    0 ∉ renderMembers format depth members := by
  induction members with
  | nil => exact List.not_mem_nil
  | cons m members ih =>
    obtain ⟨hm, hmembers⟩ := List.forall_mem_cons.mp h
    have hcolon : 0 ∉ colonText format := by cases format <;> decide
    have hend : 0 ∉ memberEndText format members.isEmpty := by
      cases members.isEmpty <;> cases format <;> decide
    simp only [renderMembers, List.mem_append, not_or]
    exact ⟨⟨⟨⟨⟨noNul_indentText _ _, noNul_quote _⟩, hcolon⟩, hm⟩, hend⟩, ih hmembers⟩

theorem noNul_render (format : Bool) (depth : Nat) (v : CJSON) : 0 ∉ render format depth v := by
  -- the depth is of no account, it only adds tabs
  induction v using CJSON.items_induction generalizing depth with
  | null | false | true => rw [render]; decide
  | number d => rw [render]; exact noNul_renderNumber d
  | string s => rw [render]; exact noNul_quote s
  | array items ih =>
    have hitems := noNul_renderElements fun v hv => ih v hv (depth + 1)
    simp only [render, List.mem_cons, List.mem_append, List.not_mem_nil, or_false, not_or]
    exact ⟨by decide, hitems, by decide⟩
  | object members ih =>
    have hmembers := noNul_renderMembers fun m hm => ih m hm (depth + 1)
    have hopen : 0 ∉ openText format := by cases format <;> decide
    simp only [render, List.mem_append, List.mem_singleton, not_or]
    exact ⟨⟨⟨hopen, hmembers⟩, noNul_indentText _ _⟩, by decide⟩

/-- The text of a tree, as a C string. -/
def renderText (format : Bool) (v : CJSON) : CString := ⟨render format 0 v, noNul_render format 0 v⟩

/-- The text of a tree is one value and nothing else, and the value is the tree. -/
theorem cJSONParseWithOpts_render (format requireNullTerminated : Bool) {v : CJSON}
    (hv : Fits CJSON_NESTING_LIMIT v) :
    cJSONParseWithOpts (some (renderText format v)) requireNullTerminated =
      some (printedTree v, []) := by
  have hread := readsBack_of_fits format hv 0 [] numberEnds_nil
  have hskip : bufferSkipWhitespace (render format 0 v ++ []) = render format 0 v ++ [] :=
    skip_of_startsValue (startsValue_render format 0 hv [])
  rw [List.append_nil] at hread hskip
  have hparse := parseValue_eq_some_iff.mpr hread
  simp only [cJSONParseWithOpts, renderText, hskip, hparse]
  -- nothing is left behind the value, so both tests pass
  cases requireNullTerminated <;> rfl

/-- The text tells how deep a tree is nested. -/
theorem fits_of_fits_printedTree {levels levels' : Nat} {v : CJSON} (hv : Fits levels' v)
    (h : Fits levels (printedTree v)) : Fits levels v := by
  induction hv generalizing levels with
  | null => exact .null
  | false => exact .false
  | true => exact .true
  | number hd => exact .number hd
  | string => exact .string
  | array _ ih =>
    rw [printedTree, printedElements_eq_map] at h
    cases h with
    | array h => exact .array fun v hv => ih v hv (h _ (List.mem_map_of_mem hv))
  | @object _ members _ ih =>
    rw [printedTree, printedMembers_eq_map] at h
    cases h with
    | object h =>
      refine .object fun m hm => ih m hm ?_
      exact h _ (List.mem_map_of_mem (f := fun m => (m.1, printedTree m.2)) hm)

/-- A tree that is nested too deep has a text, but the parser refuses it. -/
theorem cJSONParse_render_eq_none (format : Bool) {levels : Nat} {v : CJSON} (hv : Fits levels v)
    (hdeep : ¬ Fits CJSON_NESTING_LIMIT v) : cJSONParse (some (renderText format v)) = none := by
  have hread := readsBack_of_fits format hv 0 [] numberEnds_nil
  have hskip : bufferSkipWhitespace (render format 0 v ++ []) = render format 0 v ++ [] :=
    skip_of_startsValue (startsValue_render format 0 hv [])
  rw [List.append_nil] at hread hskip
  simp only [cJSONParse, renderText, hskip, Option.map_eq_none_iff]
  -- if it were read, it would be read as something that fits
  by_contra hsome
  obtain ⟨⟨w, rest⟩, hparse⟩ := Option.ne_none_iff_exists'.mp hsome
  -- with more levels the parser reads the same, which is the tree
  have hlimit := parseValue_eq_some_iff.mp hparse
  have hmore := parseValue_eq_some_iff.mpr (hlimit.mono (le_max_left CJSON_NESTING_LIMIT levels))
  have hall := parseValue_eq_some_iff.mpr (hread.mono (le_max_right CJSON_NESTING_LIMIT levels))
  obtain ⟨rfl, rfl⟩ := Prod.mk.inj (Option.some.inj (hmore.symm.trans hall))
  exact hdeep (fits_of_fits_printedTree hv (fits_of_derives hlimit))

/-- Printing what was parsed and parsing it again changes infinite numbers only. -/
theorem cJSONParse_render_of_parsed (format : Bool) {value : Option CString} {v : CJSON}
    (h : cJSONParse value = some v) :
    cJSONParse (some (renderText format v)) = some (printedTree v) := by
  rw [cJSONParse_eq_map, cJSONParseWithOpts_render format false (fits_of_cJSONParse h)]
  rfl

/-- Printing keeps the strings. -/
theorem strings_printedTree (v : CJSON) : (printedTree v).strings = v.strings := by
  induction v using CJSON.items_induction with
  | null | false | true | string => rw [printedTree]
  | number d => cases d <;> rfl
  | array items ih =>
    rw [printedTree, CJSON.strings, CJSON.strings]
    induction items with
    | nil => rfl
    | cons v items ihitems =>
      obtain ⟨hv, hitems⟩ := List.forall_mem_cons.mp ih
      rw [printedElements, stringsOfElements, stringsOfElements, hv, ihitems hitems]
  | object members ih =>
    rw [printedTree, CJSON.strings, CJSON.strings]
    induction members with
    | nil => rfl
    | cons m members ihmembers =>
      obtain ⟨hm, hmembers⟩ := List.forall_mem_cons.mp ih
      rw [printedMembers, stringsOfMembers, stringsOfMembers, hm, ihmembers hmembers]

theorem stringsFit_printedTree {sizeBits : Nat} (v : CJSON) :
    StringsFit sizeBits (printedTree v) ↔ StringsFit sizeBits v := by
  rw [StringsFit, strings_printedTree, StringsFit]

private theorem isEmpty_printedElements (items : List CJSON) :
    (printedElements items).isEmpty = items.isEmpty := by
  cases items <;> rfl

private theorem isEmpty_printedMembers (members : List (CString × CJSON)) :
    (printedMembers members).isEmpty = members.isEmpty := by
  cases members <;> rfl

/-- The text is a normal form: parsing and printing it gives the same text. -/
theorem render_printedTree (format : Bool) (depth : Nat) (v : CJSON) :
    render format depth (printedTree v) = render format depth v := by
  induction v using CJSON.items_induction generalizing depth with
  | null | false | true | string => rw [printedTree]
  | number d =>
    cases d <;> rw [printedTree, printedNumber]
    rw [render, render]
    rfl
  | array items ih =>
    have hitems : renderElements format (depth + 1) (printedElements items) =
        renderElements format (depth + 1) items := by
      induction items with
      | nil => rfl
      | cons v items ihitems =>
        obtain ⟨hv, hitems⟩ := List.forall_mem_cons.mp ih
        rw [printedElements, renderElements, renderElements, hv, ihitems hitems,
          isEmpty_printedElements]
    rw [printedTree, render, render, hitems]
  | object members ih =>
    have hmembers : renderMembers format (depth + 1) (printedMembers members) =
        renderMembers format (depth + 1) members := by
      induction members with
      | nil => rfl
      | cons m members ihmembers =>
        obtain ⟨hm, hmembers⟩ := List.forall_mem_cons.mp ih
        rw [printedMembers, renderMembers, renderMembers, hm, ihmembers hmembers,
          isEmpty_printedMembers]
    rw [printedTree, render, render, hmembers]

end ArkInC.Native
