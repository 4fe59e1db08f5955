import ArkInC.Spec.PrintCorrect

/-!
# Printing and parsing

What the printing functions write is what `cJSON_Parse` reads. A printed number is the
double again, a printed tree is the tree again, and a text that was printed once does not
change any more.

## Key results

- `cJSONPrint_spec`: the functions that allocate a block all write the same text
- `parseNumber_numberText`: a printed number is read as the same double
- `cJSONParse_cJSONPrint`: a printed tree is read as the same tree, unless it is too deep
- `cJSONPrint_cJSONParse`: what was parsed can be printed, and printing is then stable
-/

namespace ArkInC.Native

open Binary64 (Double Representable)

/-- The functions that print to a new block all print the same text; they return NULL only if
    a request is refused or the text is too large for an `int`. -/
theorem cJSONPrint_spec (hooks : Hooks) {levels : Nat} {v : CJSON} (hv : Fits levels v)
    (hstrings : StringsFit hooks.sizeBits v) :
    ReturnsText hooks true v (cJSONPrint hooks v) ∧
      ReturnsText hooks false v (cJSONPrintUnformatted hooks v) ∧
      ∀ prebuffer : Int, 0 < prebuffer → prebuffer ≤ INT_MAX → ∀ format,
        ReturnsText hooks format v (cJSONPrintBuffered hooks v prebuffer format) :=
  ⟨print_returnsText hooks true hv hstrings, print_returnsText hooks false hv hstrings,
    fun _ hpos hmax format =>
      cJSONPrintBuffered_returnsText hooks format hv hstrings ⟨hpos.le, hmax⟩ (.inl hpos)⟩

theorem cJSONPrint_sampleTree :
    ReturnsText .generous true sampleTree (cJSONPrint .generous sampleTree) ∧
      ReturnsText .generous false sampleTree (cJSONPrintUnformatted .generous sampleTree) ∧
      ∀ prebuffer : Int, 0 < prebuffer → prebuffer ≤ INT_MAX → ∀ format,
        ReturnsText .generous format sampleTree
          (cJSONPrintBuffered .generous sampleTree prebuffer format) :=
  cJSONPrint_spec .generous (fits_sampleTree 0) stringsFit_sampleTree

example : renderText true sampleTree =
    .lit ("[-0, \x7b\n\t\t\"a\\nb\":\t\"\\u0001\\\"\",\n" ++
      "\t\t\"sum\":\t0.30000000000000004,\n\t\t\"huge\":\tnull\n\t\x7d]") := by
  decide +kernel

/-- Fifteen digits or seventeen: a printed number is read as the same double, and there is
    always room for it in `number_buffer`. -/
theorem parseNumber_numberText {d : Double} (hd : IsBinary64 d) (hfinite : d.value ≠ none)
    {rest : List UInt8} (hrest : NumberEnds rest) :
    ∃ text, numberText d = .ok text ∧ text.length ≤ 24 ∧
      parseNumber (text ++ rest) = some (.number d, rest) := by
  -- the printed text is a literal of the grammar
  obtain ⟨l, htext, -⟩ := exists_literal_of_renderNumber hd hfinite
  have hstrtod := strtod_renderNumber hd hfinite
  have hlen := renderNumber_length_le hd
  refine ⟨renderNumber d, numberText_eq hd, hlen, ?_⟩
  rw [htext] at hstrtod hlen ⊢
  exact parseNumber_append l.isNumberChar_of_mem_text (by omega) hstrtod hrest

/-- A sum that fifteen digits do not recover, in front of a comma. -/
theorem parseNumber_numberText_sum :
    ∃ text, numberText (.finite (1351079888211149 / 4503599627370496)) = .ok text ∧
      text.length ≤ 24 ∧ parseNumber (text ++ ascii ",") =
        some (.number (.finite (1351079888211149 / 4503599627370496)), ascii ",") :=
  parseNumber_numberText (d := .finite _) representable_sampleSum nofun
    (numberEnds_cons (by decide) [])

/-- A block that `cJSON_Print` returns is read as the tree it was printed for, with `null` for
    infinite numbers, unless the tree is nested deeper than the parser goes; one is returned
    unless a request is refused or the text is too large. -/
theorem cJSONParse_cJSONPrint (hooks : Hooks) {levels : Nat} {v : CJSON} (hv : Fits levels v)
    (hstrings : StringsFit hooks.sizeBits v) :
    ∃ result, cJSONPrint hooks v = .ok result ∧
      (∀ block ∈ result,
        (Fits CJSON_NESTING_LIMIT v →
          cJSONParse (some (.ofBytes block)) = some (printedTree v)) ∧
        (¬ Fits CJSON_NESTING_LIMIT v → cJSONParse (some (.ofBytes block)) = none)) ∧
      (hooks.Granting →
        (result.isSome ↔ (render true 0 v).length + spareBytes v ≤ INT_MAX)) := by
  obtain ⟨result, hprint, htext, hsome⟩ := print_returnsText hooks true hv hstrings
  refine ⟨result, hprint, fun block hblock => ⟨fun hfits => ?_, fun hdeep => ?_⟩, hsome⟩
  · rw [htext block hblock, cJSONParse_eq_map, cJSONParseWithOpts_render true false hfits]
    rfl
  · rw [htext block hblock]
    exact cJSONParse_render_eq_none true hv hdeep

theorem cJSONParse_cJSONPrint_sampleTree :
    ∃ result, cJSONPrint .generous sampleTree = .ok result ∧
      (∀ block ∈ result,
        (Fits CJSON_NESTING_LIMIT sampleTree →
          cJSONParse (some (.ofBytes block)) = some (printedTree sampleTree)) ∧
        (¬ Fits CJSON_NESTING_LIMIT sampleTree → cJSONParse (some (.ofBytes block)) = none)) ∧
      (Hooks.generous.Granting →
        (result.isSome ↔ (render true 0 sampleTree).length + spareBytes sampleTree ≤ INT_MAX)) :=
  cJSONParse_cJSONPrint .generous (fits_sampleTree 0) stringsFit_sampleTree

/-- What was parsed is printed, if no request is refused and the text is not too large. A text
    that is returned is read as the same tree but for infinite numbers, and printing that tree,
    whatever is refused by then, gives the same text or none. -/
theorem cJSONPrint_cJSONParse (hooks : Hooks) {value : Option CString} {v : CJSON}
    (h : cJSONParse value = some v) (hstrings : StringsFit hooks.sizeBits v) :
    ∃ result, cJSONPrint hooks v = .ok result ∧
      (∀ block ∈ result, cJSONParse (some (.ofBytes block)) = some (printedTree v) ∧
        ∀ hooks' : Hooks, hooks'.sizeBits = hooks.sizeBits →
          ∃ result', cJSONPrint hooks' (printedTree v) = .ok result' ∧
            ∀ block' ∈ result', CString.ofBytes block' = CString.ofBytes block) ∧
      (hooks.Granting →
        (result.isSome ↔ (render true 0 v).length + spareBytes v ≤ INT_MAX)) := by
  have hv := fits_of_cJSONParse h
  have hagain := cJSONParse_render_of_parsed true h
  obtain ⟨result, hprint, htext, hsome⟩ := print_returnsText hooks true hv hstrings
  refine ⟨result, hprint, fun block hblock => ?_, hsome⟩
  rw [htext block hblock]
  refine ⟨hagain, fun hooks' hsize => ?_⟩
  -- the tree of the text has the strings of the first one
  obtain ⟨result', hprint', htext', -⟩ := print_returnsText hooks' true
    (fits_of_cJSONParse hagain) ((stringsFit_printedTree v).mpr (hsize ▸ hstrings))
  refine ⟨result', hprint', fun block' hblock' => ?_⟩
  rw [htext' block' hblock']
  exact CString.ext (render_printedTree true 0 v)

theorem cJSONPrint_cJSONParse_sampleTree :
    ∃ result, cJSONPrint .generous (printedTree sampleTree) = .ok result ∧
      (∀ block ∈ result,
        cJSONParse (some (.ofBytes block)) = some (printedTree (printedTree sampleTree)) ∧
        ∀ hooks' : Hooks, hooks'.sizeBits = Hooks.generous.sizeBits →
          ∃ result', cJSONPrint hooks' (printedTree (printedTree sampleTree)) = .ok result' ∧
            ∀ block' ∈ result', CString.ofBytes block' = CString.ofBytes block) ∧
      (Hooks.generous.Granting → (result.isSome ↔
        (render true 0 (printedTree sampleTree)).length + spareBytes (printedTree sampleTree) ≤
          INT_MAX)) :=
  -- the tree is what is read from its printed text
  have hparse : cJSONParse (some (renderText false sampleTree)) =
      some (printedTree sampleTree) := by
    rw [cJSONParse_eq_map, cJSONParseWithOpts_render false false (fits_sampleTree 998)]
    rfl
  cJSONPrint_cJSONParse .generous hparse ((stringsFit_printedTree sampleTree).mpr
    stringsFit_sampleTree)

end ArkInC.Native
