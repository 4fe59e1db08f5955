import ArkInC.ForStd.Reader
import ArkInC.Native.Json

/-!
# The cJSON parser

`cJSON_Parse` and the functions under it, from `cJSON-master/cJSON.c`. The
`parse_buffer` of the source is the text that is left at its `offset`, without the
terminating NUL: the cursor of the source never passes the NUL, so a read at the
end of the list is a read of the NUL (`bufferAtOffset`), and `can_access_at_index
(buffer, 0)` always holds. `offset++` drops a byte. The `depth` of the buffer is
counted from the other end, as the levels that are left below `CJSON_NESTING_LIMIT`.
The allocation of items and strings is taken to succeed.
-/

namespace ArkInC.Native

open Binary64 (Double)

def CJSON_NESTING_LIMIT : Nat := 1000

/-- `buffer_at_offset(buffer)[0]`. -/
def bufferAtOffset (s : List UInt8) : UInt8 := s.headD 0

/-- `strncmp(buffer_at_offset(buffer), literal, strlen(literal)) == 0`. -/
def startsWith (literal : String) (s : List UInt8) : Bool := (ascii literal).isPrefixOf s

/-- Whitespace and control characters. -/
def isWhitespace (c : UInt8) : Bool := c ≤ 32

def bufferSkipWhitespace (s : List UInt8) : List UInt8 := s.dropWhile isWhitespace

/-! ## Numbers -/

/-- The characters `parse_number` copies into its buffer. -/
def isNumberChar (c : UInt8) : Bool :=
  isDigit c ∨ c = '+'.toUInt8 ∨ c = '-'.toUInt8 ∨ c = 'e'.toUInt8 ∨ c = 'E'.toUInt8 ∨
    c = '.'.toUInt8

/-- `parse_number`: the number characters in front of the cursor, at most 63 of them,
    go to `strtod`, and the cursor moves over what it took. -/
def parseNumber : Reader UInt8 CJSON := fun s =>
  -- `number_c_string` has 64 bytes, one of them for the NUL
  match strtod ((s.take 63).takeWhile isNumberChar) with
  | none => none
  | some (number, taken) => some (.number number, s.drop taken)

/-! ## Strings -/

def hexDigit (c : UInt8) : Option Nat :=
  if '0'.toUInt8 ≤ c ∧ c ≤ '9'.toUInt8 then some (c - '0'.toUInt8).toNat
  else if 'A'.toUInt8 ≤ c ∧ c ≤ 'F'.toUInt8 then some (10 + (c - 'A'.toUInt8).toNat)
  else if 'a'.toUInt8 ≤ c ∧ c ≤ 'f'.toUInt8 then some (10 + (c - 'a'.toUInt8).toNat)
  else none

/-- `parse_hex4`: zero if one of the four characters is not a hexadecimal digit. -/
def parseHex4 (input : List UInt8) : Nat :=
  match (input.take 4).mapM hexDigit with
  | none => 0
  | some digits => digits.foldl (fun h d => h <<< 4 + d) 0

/-- The continuation bytes of a UTF-8 sequence and what is left of the code point for
    its first byte. -/
def utf8Tail : Nat → Nat → List UInt8 → Nat × List UInt8
  | 0, codepoint, bytes => (codepoint, bytes)
  | position + 1, codepoint, bytes =>
    utf8Tail position (codepoint >>> 6) (((codepoint ||| 0x80) &&& 0xBF).toUInt8 :: bytes)

/-- A code point in UTF-8, `utf8_length` bytes with `first_byte_mark` in the first. -/
def utf8Encode (utf8Length firstByteMark codepoint : Nat) : List UInt8 :=
  let (codepoint, bytes) := utf8Tail (utf8Length - 1) codepoint []
  if 1 < utf8Length then ((codepoint ||| firstByteMark) &&& 0xFF).toUInt8 :: bytes
  else (codepoint &&& 0x7F).toUInt8 :: bytes

/-- `utf16_literal_to_utf8`: the bytes of one or two `\uXXXX` sequences and how many
    characters they took. `input` reaches up to and including the closing quote. -/
def utf16LiteralToUtf8 (input : List UInt8) : Option (List UInt8 × Nat) :=
  if input.length - 1 < 6 then none
  else
    let firstCode := parseHex4 (input.drop 2)
    -- a low surrogate without its high one
    if 0xDC00 ≤ firstCode ∧ firstCode ≤ 0xDFFF then none
    else
      let code : Option (Nat × Nat) :=
        if 0xD800 ≤ firstCode ∧ firstCode ≤ 0xDBFF then
          -- a high surrogate needs a second sequence
          let second := input.drop 6
          if input.length - 1 < 12 then none
          else if bufferAtOffset second ≠ '\\'.toUInt8 ∨
              bufferAtOffset (second.drop 1) ≠ 'u'.toUInt8 then
            none
          else
            let secondCode := parseHex4 (second.drop 2)
            if secondCode < 0xDC00 ∨ 0xDFFF < secondCode then none
            -- ten bits from each half of the pair
            else some (0x10000 + (((firstCode &&& 0x3FF) <<< 10) ||| (secondCode &&& 0x3FF)), 12)
        else some (firstCode, 6)
      match code with
      | none => none
      | some (codepoint, sequenceLength) =>
        if codepoint < 0x80 then some (utf8Encode 1 0 codepoint, sequenceLength)
        else if codepoint < 0x800 then some (utf8Encode 2 0xC0 codepoint, sequenceLength)
        else if codepoint < 0x10000 then some (utf8Encode 3 0xE0 codepoint, sequenceLength)
        else if codepoint ≤ 0x10FFFF then some (utf8Encode 4 0xF0 codepoint, sequenceLength)
        else none

/-- The output of the escape sequence at the start of `input` and its length; `input`
    reaches up to and including the closing quote. -/
def escapeSequence (input : List UInt8) : Option (List UInt8 × Nat) :=
  let c := bufferAtOffset (input.drop 1)
  if c = 'b'.toUInt8 then some ([8], 2)
  else if c = 'f'.toUInt8 then some ([12], 2)
  else if c = 'n'.toUInt8 then some ([10], 2)
  else if c = 'r'.toUInt8 then some ([13], 2)
  else if c = 't'.toUInt8 then some ([9], 2)
  else if c = '"'.toUInt8 ∨ c = '\\'.toUInt8 ∨ c = '/'.toUInt8 then some ([c], 2)
  else if c = 'u'.toUInt8 then utf16LiteralToUtf8 input
  else none

/-- The first loop of `parse_string`: the distance to the closing quote. An escaped
    character is stepped over. -/
def stringEnd : List UInt8 → Option Nat
  | [] => none
  | [c] => if c = '"'.toUInt8 then some 0 else none
  | c :: d :: rest =>
    if c = '"'.toUInt8 then some 0
    -- whatever is escaped, a quote too, is stepped over
    else if c = '\\'.toUInt8 then (stringEnd rest).map (· + 2)
    else (stringEnd (d :: rest)).map (· + 1)

/-- The second loop of `parse_string`, over a text that ends with the closing quote:
    the output of the literal. `skip` characters still belong to an escape sequence
    that was decoded already. -/
def unescape : Nat → List UInt8 → Option (List UInt8)
  | _, [] => some []
  -- the last character is the closing quote
  | _, [_] => some []
  | skip + 1, _ :: rest => unescape skip rest
  | 0, c :: rest =>
    if c ≠ '\\'.toUInt8 then (unescape 0 rest).map (c :: ·)
    else
      match escapeSequence (c :: rest) with
      | none => none
      | some (output, sequenceLength) => (unescape (sequenceLength - 1) rest).map (output ++ ·)

/-- `parse_string`. A NUL in the output, from `\u0000`, ends the C string there. -/
def parseString : Reader UInt8 CString := fun s =>
  if bufferAtOffset s ≠ '"'.toUInt8 then none
  else
    let input := s.drop 1
    -- without a closing quote the string is not terminated
    match stringEnd input with
    | none => none
    | some inputEnd =>
      match unescape 0 (input.take (inputEnd + 1)) with
      | none => none
      | some output => some (CString.ofBytes output, input.drop (inputEnd + 1))

/-! ## Arrays, objects and values -/

/-- One turn of the loop of `parse_array`, past the `[` or `,`. -/
def parseElement (parseValue : Reader UInt8 CJSON) : Reader UInt8 CJSON := fun s =>
  (parseValue (bufferSkipWhitespace s)).map fun x => (x.1, bufferSkipWhitespace x.2)

/-- One turn of the loop of `parse_object`, past the `{` or `,`. -/
def parseMember (parseValue : Reader UInt8 CJSON) : Reader UInt8 (CString × CJSON) := fun s =>
  match parseString (bufferSkipWhitespace s) with
  | none => none
  | some (name, s) =>
    let s := bufferSkipWhitespace s
    -- a name is followed by a colon
    if bufferAtOffset s ≠ ':'.toUInt8 then none
    else (parseElement parseValue (s.drop 1)).map fun x => ((name, x.1), x.2)

/-- The common shape of `parse_array` and `parse_object`: the brackets, and between them
    nothing or the do-while loop over items with commas between them. -/
def parseList (item : Reader UInt8 β) (opening closing : UInt8) : Reader UInt8 (List β) := fun s =>
  if bufferAtOffset s ≠ opening then none
  else
    let s := bufferSkipWhitespace (s.drop 1)
    -- `[]` or `{}`
    if bufferAtOffset s = closing then some ([], s.drop 1)
    else
      match Reader.sepBy item (· = ','.toUInt8) s with
      | none => none
      -- the loop ends where no comma follows: only the bracket may stand there
      | some (items, s) => if bufferAtOffset s ≠ closing then none else some (items, s.drop 1)

def parseArray (parseValue : Reader UInt8 CJSON) : Reader UInt8 CJSON := fun s =>
  (parseList (parseElement parseValue) '['.toUInt8 ']'.toUInt8 s).map fun x => (.array x.1, x.2)

def parseObject (parseValue : Reader UInt8 CJSON) : Reader UInt8 CJSON := fun s =>
  (parseList (parseMember parseValue) '{'.toUInt8 '}'.toUInt8 s).map fun x => (.object x.1, x.2)

/-- `parse_value`, with `levels` more arrays or objects allowed inside each other. -/
def parseValue (levels : Nat) : Reader UInt8 CJSON := fun s =>
  if startsWith "null" s then some (.null, s.drop 4)
  else if startsWith "false" s then some (.false, s.drop 5)
  else if startsWith "true" s then some (.true, s.drop 4)
  else if bufferAtOffset s = '"'.toUInt8 then (parseString s).map fun x => (.string x.1, x.2)
  else if bufferAtOffset s = '-'.toUInt8 ∨ isDigit (bufferAtOffset s) then parseNumber s
  else if bufferAtOffset s = '['.toUInt8 then
    match levels with
    -- nested too deep
    | 0 => none
    | levels + 1 => parseArray (parseValue levels) s
  else if bufferAtOffset s = '{'.toUInt8 then
    match levels with
    | 0 => none
    | levels + 1 => parseObject (parseValue levels) s
  else none

/-- `cJSON_Parse`: the value at the start of the text; what follows it is ignored. -/
def cJSONParse (value : Option CString) : Option CJSON :=
  match value with
  | none => none
  | some value =>
    (parseValue CJSON_NESTING_LIMIT (bufferSkipWhitespace value.bytes)).map Prod.fst

/-- `cJSON_ParseWithOpts`, with the text at `*return_parse_end`; the position of an error is
    left out. -/
def cJSONParseWithOpts (value : Option CString) (requireNullTerminated : Bool) :
    Option (CJSON × List UInt8) :=
  match value with
  | none => none
  | some value =>
    match parseValue CJSON_NESTING_LIMIT (bufferSkipWhitespace value.bytes) with
    | none => none
    | some (item, rest) =>
      if requireNullTerminated then
        let rest := bufferSkipWhitespace rest
        -- something other than blanks follows the value
        if bufferAtOffset rest ≠ 0 then none else some (item, rest)
      else some (item, rest)

end ArkInC.Native
