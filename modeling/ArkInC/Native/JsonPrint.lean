import ArkInC.ForStd.Attempt
import ArkInC.ForStd.Decimal
import ArkInC.Native.JsonParse
import ArkInC.Native.Transfer
import Mathlib.Data.List.DropRight

/-!
# The cJSON printer

`cJSON_Print`, `cJSON_PrintBuffered`, `cJSON_PrintPreallocated` and the functions under
them, from `cJSON-master/cJSON.c`, in the C locale. They write into a `printbuffer`, whose
block grows as it is needed; every write into it is checked against the size of the block.
A function that prints says whether it succeeded, and leaves the buffer.

Items of the type `cJSON_Raw` and strings that are NULL are left out: no `CJSON` is one. So
are the calls of `deallocate`.
-/

namespace ArkInC.Native

open Binary64 (Double)

/-! ## The buffer -/

/-- The memory functions behind `internal_hooks`: their requests are numbered. -/
structure Hooks where
  /-- The width of `size_t`. -/
  sizeBits : Nat
  sizeBits_eq : sizeBits = 32 ∨ sizeBits = 64
  /-- Whether `reallocate` is not NULL. -/
  reallocate : Bool
  /-- Whether the `n`-th request, for that many bytes, is granted. -/
  grants : Nat → Nat → Bool
  /-- What the new bytes of the `n`-th request hold. -/
  junk : Nat → Nat → UInt8

/-- A sum in a `size_t`. -/
def Hooks.sizeT (hooks : Hooks) (n : Nat) : Nat := n % 2 ^ hooks.sizeBits

structure PrintBuffer where
  buffer : Option (List UInt8)
  length : Nat
  offset : Nat := 0
  depth : Nat := 0
  noalloc : Bool
  format : Bool
  /-- How many requests for memory there have been. -/
  requests : Nat

/-- A function on a buffer that says whether it succeeded. -/
abbrev Printing := Attempt Fault PrintBuffer

/-- Reads the first `n` bytes of an allocated block. -/
def readBytes (block : List UInt8) (n : Nat) : Except Fault (List UInt8) :=
  if n ≤ block.length then .ok (block.take n) else .error .outOfBounds

/-- The size a block grows to when `needed` bytes are needed. -/
def newSize (needed : Nat) : Option Nat :=
  if INT_MAX / 2 < needed then
    -- twice as much would overflow an `int`
    if needed ≤ INT_MAX then some INT_MAX.toNat else none
  else some (needed * 2)

/-- `ensure`: whether there is room for `needed` more bytes and one more. Its own sums fit a
    `size_t`: `needed` and the offset are no more than an `int`. -/
def ensure (hooks : Hooks) (needed : Nat) : Printing := fun p =>
  match p.buffer with
  | none => return (false, p)
  | some block =>
    if 0 < p.length ∧ p.length ≤ p.offset then return (false, p)
    else if INT_MAX < needed then return (false, p)
    else
      let needed := needed + p.offset + 1
      if needed ≤ p.length then return (true, p)
      else if p.noalloc then return (false, p)
      else
        match newSize needed with
        | none => return (false, p)
        | some newsize =>
          let granted := hooks.grants p.requests newsize
          let junk := hooks.junk p.requests
          let p := { p with requests := p.requests + 1 }
          -- the old block is freed
          if !granted then return (false, { p with buffer := none, length := 0 })
          else if hooks.reallocate then
            return (true, { p with buffer := some (resize junk block newsize), length := newsize })
          else do
            let source ← readBytes block (p.offset + 1)
            let newbuffer ← memcpy (resize junk [] newsize) 0 source
            return (true, { p with buffer := some newbuffer, length := newsize })

/-- Writes `bytes` at the offset, and moves the offset. -/
def writeAtOffset (bytes : List UInt8) (moved : Nat) : Printing := fun p => do
  let block ← memcpy (p.buffer.getD []) p.offset bytes
  return (true, { p with buffer := some block, offset := p.offset + moved })

/-- `output_pointer = ensure(p, needed)`, and the bytes are written there. -/
def put (hooks : Hooks) (needed : Nat) (bytes : List UInt8) (moved : Nat) : Printing :=
  (ensure hooks needed).andThen (writeAtOffset bytes moved)

/-- `strlen` of the bytes from `offset` on; without a NUL it would read on behind the block. -/
def strlenAt (block : List UInt8) (offset : Nat) : Except Fault Nat :=
  if 0 ∈ block.drop offset then .ok ((block.drop offset).idxOf 0) else .error .outOfBounds

/-- `update_offset`: moves the offset to the end of the string that starts there. -/
def updateOffset : Printing := fun p =>
  match p.buffer with
  | none => return (true, p)
  | some block => do
    let length ← strlenAt block p.offset
    return (true, { p with offset := p.offset + length })

/-- `output_buffer->depth++` -/
def deeper : Printing := fun p => return (true, { p with depth := p.depth + 1 })

/-- `output_buffer->depth--` -/
def shallower : Printing := fun p => return (true, { p with depth := p.depth - 1 })

/-! ## Numbers -/

/-- `%g` drops the zeros at the end of a fraction. -/
def dropZeros (digits : List UInt8) : List UInt8 := digits.rdropWhile (· = '0'.toUInt8)

/-- A fraction with its point; without digits there is no point. -/
def formatFraction (digits : List UInt8) : List UInt8 :=
  if digits = [] then [] else '.'.toUInt8 :: digits

/-- The exponent part of a number, with at least two digits. -/
def formatExponent (exponent : Int) : List UInt8 :=
  let digits := ascii (toString exponent.natAbs)
  'e'.toUInt8 :: (if exponent < 0 then '-'.toUInt8 else '+'.toUInt8) ::
    (if digits.length < 2 then '0'.toUInt8 :: digits else digits)

/-- `%1.<precision>g`, for a finite double that is not the negative zero. -/
def formatG (precision : Nat) (d : ℚ) : List UInt8 :=
  if d = 0 then ascii "0"
  else
    let (significand, exponent) := Binary64.significant precision |d|
    let digits := ascii (toString significand)
    let sign := if d < 0 then ['-'.toUInt8] else []
    if exponent < -4 ∨ precision ≤ exponent then
      sign ++ digits.take 1 ++ formatFraction (dropZeros (digits.drop 1)) ++
        formatExponent exponent
    else if exponent < 0 then
      sign ++ ascii "0." ++ List.replicate (-exponent - 1).toNat '0'.toUInt8 ++ dropZeros digits
    else
      sign ++ digits.take (exponent.toNat + 1) ++
        formatFraction (dropZeros (digits.drop (exponent.toNat + 1)))

/-- `sprintf` into the buffer of `print_number`, `unsigned char number_buffer[26]`. -/
def sprintfNumber (text : List UInt8) : Except Fault (List UInt8) := do
  let _ ← memcpy (List.replicate 26 0) 0 (text ++ [0])
  return text

/-- The text of a number: 15 digits if they are enough to recover the double, else 17. -/
def numberText (d : Double) : Except Fault (List UInt8) :=
  match d with
  | .infinite _ => sprintfNumber (ascii "null")
  -- with any precision, and `sscanf` reads it back
  | .negZero => sprintfNumber (ascii "-0")
  | .finite q => do
    let text ← sprintfNumber (formatG 15 q)
    -- `sscanf` with `%lg` reads what `strtod` reads
    if (strtod text).map Prod.fst = some d then return text else sprintfNumber (formatG 17 q)

def printNumber (hooks : Hooks) (d : Double) : Printing := fun p => do
  let text ← numberText d
  if 25 < text.length then return (false, p)
  put hooks text.length (text ++ [0]) text.length p

/-! ## Strings -/

/-- The letter behind the backslash, for a character with a short escape sequence. -/
def escapeLetter (c : UInt8) : Option UInt8 :=
  if c = '"'.toUInt8 then some '"'.toUInt8
  else if c = '\\'.toUInt8 then some '\\'.toUInt8
  else if c = 8 then some 'b'.toUInt8
  else if c = 12 then some 'f'.toUInt8
  else if c = 10 then some 'n'.toUInt8
  else if c = 13 then some 'r'.toUInt8
  else if c = 9 then some 't'.toUInt8
  else none

/-- The number of additional characters needed for escaping a character. -/
def escapeCharacters (c : UInt8) : Nat :=
  if (escapeLetter c).isSome then 1 else if c < 32 then 5 else 0

def hexChar (n : Nat) : UInt8 := if n < 10 then (48 + n).toUInt8 else (87 + n).toUInt8

/-- `u%04x` -/
def formatU04x (c : UInt8) : List UInt8 :=
  ['u'.toUInt8, '0'.toUInt8, '0'.toUInt8, hexChar (c.toNat / 16), hexChar (c.toNat % 16)]

/-- The loop of `print_string_ptr` over the characters, writing from `position` on. -/
def writeEscaped : List UInt8 → Nat → List UInt8 → Except Fault (List UInt8)
  | [], _, block => .ok block
  | c :: input, position, block =>
    if 31 < c ∧ c ≠ '"'.toUInt8 ∧ c ≠ '\\'.toUInt8 then do
      let block ← memcpy block position [c]
      writeEscaped input (position + 1) block
    else do
      let block ← memcpy block position ['\\'.toUInt8]
      match escapeLetter c with
      | some letter =>
        let block ← memcpy block (position + 1) [letter]
        writeEscaped input (position + 2) block
      -- `sprintf` writes a NUL behind the sequence
      | none =>
        let block ← memcpy block (position + 1) (formatU04x c ++ [0])
        writeEscaped input (position + 6) block

/-- The quoted string, written at `offset`. -/
def writeString (input : List UInt8) (escapes outputLength offset : Nat) (block : List UInt8) :
    Except Fault (List UInt8) := do
  let block ← memcpy block offset ['"'.toUInt8]
  let block ←
    if escapes = 0 then memcpy block (offset + 1) (input.take outputLength)
    else writeEscaped input (offset + 1) block
  -- the closing quote goes where the count says
  memcpy block (offset + outputLength + 1) ['"'.toUInt8, 0]

def printStringPtr (hooks : Hooks) (input : CString) : Printing :=
  let escapes := hooks.sizeT (input.bytes.map escapeCharacters).sum
  let outputLength := hooks.sizeT (input.bytes.length + escapes)
  (ensure hooks (hooks.sizeT (outputLength + 3))).andThen fun p => do
    let block ← writeString input.bytes escapes outputLength p.offset (p.buffer.getD [])
    return (true, { p with buffer := some block })

/-! ## Values -/

/-- `,` behind an element. -/
def putComma (hooks : Hooks) : Printing := fun p =>
  let text := if p.format then ascii ", " else ascii ","
  put hooks (text.length + 1) (text ++ [0]) text.length p

/-- `{` -/
def putOpen (hooks : Hooks) : Printing := fun p =>
  let text := if p.format then ascii "\x7b\n" else ascii "\x7b"
  put hooks (text.length + 1) text text.length p

/-- The tabs in front of a member. -/
def putIndent (hooks : Hooks) : Printing := fun p =>
  if p.format then put hooks p.depth (List.replicate p.depth '\t'.toUInt8) p.depth p
  else .ok (true, p)

/-- `:` behind a name. -/
def putColon (hooks : Hooks) : Printing := fun p =>
  let text := if p.format then ascii ":\t" else ascii ":"
  put hooks text.length text text.length p

/-- What follows a member, a comma if it is not the last. -/
def putMemberEnd (hooks : Hooks) (last : Bool) : Printing := fun p =>
  let text := (if last then [] else ascii ",") ++ (if p.format then ascii "\n" else [])
  put hooks (text.length + 1) (text ++ [0]) text.length p

/-- `}` -/
def putClose (hooks : Hooks) : Printing := fun p =>
  let indent := if p.format then List.replicate (p.depth - 1) '\t'.toUInt8 else []
  put hooks (if p.format then p.depth + 1 else 2) (indent ++ ['}'.toUInt8, 0]) 0 p

mutual

/-- `print_value`, with `print_array` and `print_object`. -/
def printValue (hooks : Hooks) : CJSON → Printing
  | .null => put hooks 5 (ascii "null" ++ [0]) 0
  | .false => put hooks 6 (ascii "false" ++ [0]) 0
  | .true => put hooks 5 (ascii "true" ++ [0]) 0
  | .number d => printNumber hooks d
  | .string s => printStringPtr hooks s
  | .array items =>
    (put hooks 1 ['['.toUInt8] 1).andThen <| deeper.andThen <|
    (printElements hooks items).andThen <|
    (put hooks 2 [']'.toUInt8, 0] 0).andThen shallower
  | .object members =>
    (putOpen hooks).andThen <| deeper.andThen <|
    (printMembers hooks members).andThen <|
    (putClose hooks).andThen shallower

/-- The loop of `print_array`. -/
def printElements (hooks : Hooks) : List CJSON → Printing
  | [] => .done
  | item :: items =>
    (printValue hooks item).andThen <| updateOffset.andThen <|
    (if items.isEmpty then .done else putComma hooks).andThen <|
    printElements hooks items

/-- The loop of `print_object`. -/
def printMembers (hooks : Hooks) : List (CString × CJSON) → Printing
  | [] => .done
  | (name, item) :: members =>
    (putIndent hooks).andThen <|
    (printStringPtr hooks name).andThen <| updateOffset.andThen <|
    (putColon hooks).andThen <|
    (printValue hooks item).andThen <| updateOffset.andThen <|
    (putMemberEnd hooks members.isEmpty).andThen <|
    printMembers hooks members

end

/-! ## Entry points -/

/-- The end of `print`: the block is cut off, or its text is copied to a new block. -/
def finishPrint (hooks : Hooks) (p : PrintBuffer) : Except Fault (Option (List UInt8)) := do
  let block := p.buffer.getD []
  if hooks.reallocate then
    if !hooks.grants p.requests p.length then return none
    return some (resize (hooks.junk p.requests) block p.length)
  else
    if !hooks.grants p.requests (p.offset + 1) then return none
    let copied ← readBytes block (min p.length (p.offset + 1))
    let printed ← memcpy (resize (hooks.junk p.requests) [] (p.offset + 1)) 0 copied
    let printed ← memcpy printed p.offset [0]
    return some printed

/-- `print`: the block with the text, or NULL. -/
def print (hooks : Hooks) (item : CJSON) (format : Bool) : Except Fault (Option (List UInt8)) := do
  if !hooks.grants 0 256 then return none
  -- the field `length` is left at zero
  let (ok, p) ← printValue hooks item
    { buffer := some (resize (hooks.junk 0) [] 256), length := 0, noalloc := false
      format := format, requests := 1 }
  if !ok then return none
  let (_, p) ← updateOffset p
  finishPrint hooks p

def cJSONPrint (hooks : Hooks) (item : CJSON) : Except Fault (Option (List UInt8)) :=
  print hooks item true

def cJSONPrintUnformatted (hooks : Hooks) (item : CJSON) : Except Fault (Option (List UInt8)) :=
  print hooks item false

def cJSONPrintBuffered (hooks : Hooks) (item : CJSON) (prebuffer : Int) (fmt : Bool) :
    Except Fault (Option (List UInt8)) := do
  if prebuffer < 0 then return none
  if !hooks.grants 0 prebuffer.toNat then return none
  let (ok, p) ← printValue hooks item
    { buffer := some (resize (hooks.junk 0) [] prebuffer.toNat), length := prebuffer.toNat
      noalloc := false, format := fmt, requests := 1 }
  return if ok then p.buffer else none

/-- `cJSON_PrintPreallocated`: whether it succeeded, and what the buffer `buf` holds then. -/
def cJSONPrintPreallocated (hooks : Hooks) (item : CJSON) (buf : Option (List UInt8)) (len : Int)
    (fmt : Bool) : Except Fault (Bool × Option (List UInt8)) := do
  if len < 0 ∨ buf = none then return (false, buf)
  let (ok, p) ← printValue hooks item
    { buffer := buf, length := len.toNat, noalloc := true, format := fmt, requests := 0 }
  return (ok, p.buffer)

end ArkInC.Native
