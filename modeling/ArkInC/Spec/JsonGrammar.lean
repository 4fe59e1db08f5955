import ArkInC.Spec.NumberText
import ArkInC.Spec.StringText

/-!
# The grammar of the texts

The texts that `cJSON_Parse` reads, without the parser: how a text is put together from
literals, strings, numbers, brackets and blanks, and the tree it stands for. It is the
grammar of JSON with more blanks, more numbers (`1.`, `-.5`, `01`) and more strings (control
characters, any bytes, invalid digits behind `\u`), and with less nesting and shorter numbers.

## Key results

- `derives_iff`: the parser takes a phrase from a text exactly if the text starts with one
- `cJSONParseWithOpts_true_iff`: the texts that hold one value and nothing else
-/

namespace ArkInC.Native

/-- Between quotes. -/
def inQuotes (body : List UInt8) : List UInt8 := '"'.toUInt8 :: (body ++ ['"'.toUInt8])

/-- `JsonText levels phrase text`: the text is that of the phrase. Inside it at most `levels`
    arrays and objects are nested. -/
inductive JsonText : Nat → Phrase → List UInt8 → Prop where
  | null {levels} : JsonText levels (.value .null) (ascii "null")
  | false {levels} : JsonText levels (.value .false) (ascii "false")
  | true {levels} : JsonText levels (.value .true) (ascii "true")
  | string {levels body output} (hbody : StringBody body) (houtput : Decodes body output) :
    JsonText levels (.value (.string (.ofBytes output))) (inQuotes body)
  | number {levels} (l : NumberLiteral) (hlen : l.text.length ≤ 63) :
    JsonText levels (.value (.number l.double)) l.text
  | emptyArray {levels blanks} (h : Blanks blanks) :
    JsonText (levels + 1) (.value (.array [])) ('['.toUInt8 :: (blanks ++ [']'.toUInt8]))
  | array {levels items text} (h : JsonText levels (.elements items) text) :
    JsonText (levels + 1) (.value (.array items)) ('['.toUInt8 :: (text ++ [']'.toUInt8]))
  | emptyObject {levels blanks} (h : Blanks blanks) :
    JsonText (levels + 1) (.value (.object [])) ('{'.toUInt8 :: (blanks ++ ['}'.toUInt8]))
  | object {levels members text} (h : JsonText levels (.members members) text) :
    JsonText (levels + 1) (.value (.object members)) ('{'.toUInt8 :: (text ++ ['}'.toUInt8]))
  | element {levels v before text behind} (hbefore : Blanks before)
      (h : JsonText levels (.value v) text) (hbehind : Blanks behind) :
    JsonText levels (.element v) (before ++ (text ++ behind))
  | member {levels body output v before behind text} (hbefore : Blanks before)
      (hbody : StringBody body) (houtput : Decodes body output) (hbehind : Blanks behind)
      (h : JsonText levels (.element v) text) :
    JsonText levels (.member (.ofBytes output, v))
      (before ++ (inQuotes body ++ (behind ++ ':'.toUInt8 :: text)))
  | lastElement {levels v text} (h : JsonText levels (.element v) text) :
    JsonText levels (.elements [v]) text
  | elements {levels v items text next} (h : JsonText levels (.element v) text)
      (htail : JsonText levels (.elements items) next) :
    JsonText levels (.elements (v :: items)) (text ++ ','.toUInt8 :: next)
  | lastMember {levels m text} (h : JsonText levels (.member m) text) :
    JsonText levels (.members [m]) text
  | members {levels m members text next} (h : JsonText levels (.member m) text)
      (htail : JsonText levels (.members members) next) :
    JsonText levels (.members (m :: members)) (text ++ ','.toUInt8 :: next)

/-! ## What may follow -/

/-- No blank comes next. -/
def BlanksEnd (rest : List UInt8) : Prop := isWhitespace (bufferAtOffset rest) = false ∨ rest = []

/-- What ends a phrase: behind a value nothing that would continue a number, behind the blanks
    of an element no blank, and behind the last item no comma. -/
def Ends (phrase : Phrase) (rest : List UInt8) : Prop :=
  match phrase with
  | .value _ => NumberEnds rest
  | .element _ | .member _ => NumberEnds rest ∧ BlanksEnd rest
  | .elements _ | .members _ => NumberEnds rest ∧ BlanksEnd rest ∧ rest.head? ≠ some ','.toUInt8

theorem blanksEnd_cons {c : UInt8} (h : isWhitespace c = false) (rest : List UInt8) :
    BlanksEnd (c :: rest) := .inl h

theorem skip_of_blanksEnd {blanks rest : List UInt8} (hblanks : Blanks blanks)
    (hrest : BlanksEnd rest) : bufferSkipWhitespace (blanks ++ rest) = rest := by
  rcases hrest with hrest | rfl
  · exact bufferSkipWhitespace_blanks hblanks hrest
  -- at the end of the text all of it is skipped
  · rw [List.append_nil]
    exact List.dropWhile_eq_nil_iff.mpr fun c hc => isWhitespace_iff.mpr (hblanks c hc)

/-- A closing bracket ends every phrase. -/
theorem ends_closing (phrase : Phrase) {c : UInt8} (hc : c = ']'.toUInt8 ∨ c = '}'.toUInt8)
    (rest : List UInt8) : Ends phrase (c :: rest) := by
  have hnumber : NumberEnds (c :: rest) :=
    numberEnds_cons (by rcases hc with rfl | rfl <;> decide) rest
  have hblanks : BlanksEnd (c :: rest) :=
    blanksEnd_cons (by rcases hc with rfl | rfl <;> decide) rest
  have hcomma : (c :: rest).head? ≠ some ','.toUInt8 := by
    rcases hc with rfl | rfl <;> simp <;> decide
  cases phrase with
  | value => exact hnumber
  | element | member => exact ⟨hnumber, hblanks⟩
  | elements | members => exact ⟨hnumber, hblanks, hcomma⟩

/-- A comma ends what is followed by another element or member. -/
theorem ends_comma (rest : List UInt8) :
    NumberEnds (','.toUInt8 :: rest) ∧ BlanksEnd (','.toUInt8 :: rest) :=
  ⟨numberEnds_cons (by decide) rest, blanksEnd_cons (by decide) rest⟩

/-- The text of a value starts with no blank. -/
theorem startsValue_of_jsonText {levels : Nat} {v : CJSON} {text : List UInt8}
    (h : JsonText levels (.value v) text) (rest : List UInt8) :
    startsValue (bufferAtOffset (text ++ rest)) = true := by
  cases h with
  | null | false | true | string | emptyArray | array | emptyObject | object => rfl
  | number l =>
    rcases l.bufferAtOffset_text rest with hminus | hdigit
    · rw [hminus]; decide
    · simp [startsValue, hdigit]

/-! ## The parser and the grammar -/

section

variable {levels : Nat} {phrase : Phrase} {text rest : List UInt8}

/-- The parser takes what the grammar allows. -/
theorem derives_of_jsonText (h : JsonText levels phrase text) (hrest : Ends phrase rest) :
    Derives levels phrase (text ++ rest) rest := by
  induction h generalizing rest with
  | null => exact .null
  | false => exact .false
  | true => exact .true
  | string hbody houtput =>
    -- the parser of strings is exact on its own
    refine .string (parseString_eq_some_iff_decodes.mpr ⟨_, _, hbody, houtput, ?_, rfl⟩)
    simp [inQuotes]
  | number l hlen =>
    exact .number (l.bufferAtOffset_text rest) (l.parseNumber_text hlen hrest)
  | emptyArray h =>
    rw [List.cons_append, List.append_assoc]
    exact .emptyArray (bufferSkipWhitespace_blanks h rfl)
  | array _ ih =>
    rw [List.cons_append, List.append_assoc]
    -- the closing bracket ends the last item
    exact .array (ih (ends_closing _ (.inl rfl) _))
  | emptyObject h =>
    rw [List.cons_append, List.append_assoc]
    exact .emptyObject (bufferSkipWhitespace_blanks h rfl)
  | object _ ih =>
    rw [List.cons_append, List.append_assoc]
    exact .object (ih (ends_closing _ (.inr rfl) _))
  | @element levels v before text behind hbefore hv hbehind ih =>
    obtain ⟨hends, hblanks⟩ := hrest
    have hvalue := ih (numberEnds_append hbehind hends)
    -- behind the blanks the value starts
    have hstart := not_isWhitespace_of_startsValue (startsValue_of_jsonText hv (behind ++ rest))
    rw [List.append_assoc, List.append_assoc]
    refine .element ?_ (skip_of_blanksEnd hbehind hblanks)
    rwa [bufferSkipWhitespace_blanks hbefore hstart]
  | @member levels body output v before behind text hbefore hbody houtput hbehind _ ih =>
    have hname : parseString (inQuotes body ++ (behind ++ ':'.toUInt8 :: text ++ rest)) =
        some (.ofBytes output, behind ++ ':'.toUInt8 :: (text ++ rest)) :=
      parseString_eq_some_iff_decodes.mpr ⟨_, _, hbody, houtput, by simp [inQuotes], rfl⟩
    have hcolon : bufferSkipWhitespace (behind ++ ':'.toUInt8 :: (text ++ rest)) =
        ':'.toUInt8 :: (text ++ rest) := bufferSkipWhitespace_blanks hbehind rfl
    rw [List.append_assoc, List.append_assoc]
    refine .member ?_ hcolon (ih hrest)
    rwa [bufferSkipWhitespace_blanks hbefore rfl]
  | lastElement _ ih => exact .lastElement (ih ⟨hrest.1, hrest.2.1⟩) hrest.2.2
  | elements _ _ ih ihtail =>
    rw [List.append_assoc, List.cons_append]
    exact .elements (ih (ends_comma _)) (ihtail hrest)
  | lastMember _ ih => exact .lastMember (ih ⟨hrest.1, hrest.2.1⟩) hrest.2.2
  | members _ _ ih ihtail =>
    rw [List.append_assoc, List.cons_append]
    exact .members (ih (ends_comma _)) (ihtail hrest)

/-- What the parser takes is a text of the grammar. -/
theorem exists_jsonText_of_derives {s : List UInt8} (h : Derives levels phrase s rest)
    (hrest : Ends phrase rest) : ∃ text, s = text ++ rest ∧ JsonText levels phrase text := by
  induction h with
  | null => exact ⟨_, rfl, .null⟩
  | false => exact ⟨_, rfl, .false⟩
  | true => exact ⟨_, rfl, .true⟩
  | string h =>
    obtain ⟨body, output, hbody, houtput, rfl, rfl⟩ := parseString_eq_some_iff_decodes.mp h
    exact ⟨inQuotes body, by simp [inQuotes], .string hbody houtput⟩
  | @number levels v s rest hat h =>
    obtain ⟨number, d, rfl, -, hlen, hstrtod, rfl⟩ := exists_literal_of_parseNumber h hrest
    -- `strtod` reads at least one character
    have hne : number ≠ [] := by
      rintro rfl
      exact nomatch hstrtod
    rw [bufferAtOffset_append hne] at hat
    obtain ⟨l, rfl, rfl⟩ := NumberLiteral.exists_text_of_strtod hat hlen hstrtod
    exact ⟨_, rfl, .number l hlen⟩
  | @emptyArray levels s rest h =>
    obtain ⟨blanks, hblanks, hs⟩ := exists_blanks s
    rw [h] at hs
    exact ⟨_, by rw [hs]; simp, .emptyArray hblanks⟩
  | array _ ih =>
    obtain ⟨text, rfl, htext⟩ := ih (ends_closing _ (.inl rfl) _)
    exact ⟨_, by simp, .array htext⟩
  | @emptyObject levels s rest h =>
    obtain ⟨blanks, hblanks, hs⟩ := exists_blanks s
    rw [h] at hs
    exact ⟨_, by rw [hs]; simp, .emptyObject hblanks⟩
  | object _ ih =>
    obtain ⟨text, rfl, htext⟩ := ih (ends_closing _ (.inr rfl) _)
    exact ⟨_, by simp, .object htext⟩
  | @element levels v s left rest _ hleft ih =>
    obtain ⟨before, hbefore, hs⟩ := exists_blanks s
    obtain ⟨behind, hbehind, hsplit⟩ := exists_blanks left
    rw [hleft] at hsplit
    -- the value ends at a blank or where the element ends
    obtain ⟨text, htext, hvalue⟩ := ih (hsplit ▸ numberEnds_append hbehind hrest.1)
    refine ⟨_, ?_, .element hbefore hvalue hbehind⟩
    rw [hs, htext, hsplit]
    simp
  | @member levels name v s left next rest hname hcolon _ ih =>
    -- the name stands between two runs of blanks
    obtain ⟨before, hbefore, hs⟩ := exists_blanks s
    obtain ⟨behind, hbehind, hsplit⟩ := exists_blanks left
    obtain ⟨body, output, hbody, houtput, hquoted, rfl⟩ :=
      parseString_eq_some_iff_decodes.mp hname
    obtain ⟨text, rfl, htext⟩ := ih hrest
    refine ⟨_, ?_, .member hbefore hbody houtput hbehind htext⟩
    rw [hs, hquoted, hsplit, hcolon]
    simp [inQuotes]
  | lastElement _ _ ih =>
    obtain ⟨text, rfl, htext⟩ := ih ⟨hrest.1, hrest.2.1⟩
    exact ⟨text, rfl, .lastElement htext⟩
  | elements _ _ ih ihtail =>
    obtain ⟨next, rfl, hnext⟩ := ihtail hrest
    obtain ⟨text, rfl, htext⟩ := ih (ends_comma _)
    exact ⟨_, by simp, .elements htext hnext⟩
  | lastMember _ _ ih =>
    obtain ⟨text, rfl, htext⟩ := ih ⟨hrest.1, hrest.2.1⟩
    exact ⟨text, rfl, .lastMember htext⟩
  | members _ _ ih ihtail =>
    obtain ⟨next, rfl, hnext⟩ := ihtail hrest
    obtain ⟨text, rfl, htext⟩ := ih (ends_comma _)
    exact ⟨_, by simp, .members htext hnext⟩

/-- The parser takes a phrase from a text exactly if the text starts with one. -/
theorem derives_iff {s : List UInt8} (hrest : Ends phrase rest) :
    Derives levels phrase s rest ↔ ∃ text, s = text ++ rest ∧ JsonText levels phrase text := by
  constructor
  · exact fun h => exists_jsonText_of_derives h hrest
  · rintro ⟨text, rfl, h⟩
    exact derives_of_jsonText h hrest

end

/-- With `require_null_terminated`, a text is accepted exactly if it is that of one value with
    nothing but blanks around it. -/
theorem cJSONParseWithOpts_true_iff {value : CString} {v : CJSON} {rest : List UInt8} :
    cJSONParseWithOpts (some value) true = some (v, rest) ↔
      rest = [] ∧ JsonText CJSON_NESTING_LIMIT (.element v) value.bytes := by
  have hends : Ends (.element v) [] := ⟨numberEnds_nil, .inr rfl⟩
  rw [cJSONParseWithOpts_true_iff_derives, derives_iff hends]
  simp only [List.append_nil, exists_eq_left']

end ArkInC.Native
