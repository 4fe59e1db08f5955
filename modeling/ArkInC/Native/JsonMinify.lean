import ArkInC.Native.JsonParse

/-!
# Minifying a text

`cJSON_Minify` of `cJSON-master/cJSON.c`. It moves what it keeps of the text to the front,
behind the place it writes to, so that the text it still has to read is not changed; here
the kept bytes are a list of their own. The cursor is a list as in the parser.
-/

namespace ArkInC.Native

/-- The loops of `cJSON_Minify`: the outer one, and those over a comment or a string. -/
inductive MinifyMode where
  | code
  | lineComment
  | blockComment
  | string
  deriving DecidableEq

/-- What is kept of the text at the cursor; nothing if the cursor moves past the NUL. -/
def minifyFrom : MinifyMode → List UInt8 → Option (List UInt8)
  | .code, [] => some []
  | .code, c :: rest =>
    if c = ' '.toUInt8 ∨ c = '\t'.toUInt8 ∨ c = '\r'.toUInt8 ∨ c = '\n'.toUInt8 then
      minifyFrom .code rest
    else if c = '/'.toUInt8 ∧ bufferAtOffset rest = '/'.toUInt8 then minifyFrom .lineComment rest
    else if c = '/'.toUInt8 ∧ bufferAtOffset rest = '*'.toUInt8 then minifyFrom .blockComment rest
    else if c = '"'.toUInt8 then (minifyFrom .string rest).map (c :: ·)
    else (minifyFrom .code rest).map (c :: ·)
  | .lineComment, [] => some []
  | .lineComment, c :: rest =>
    -- the newline is left to the outer loop, which drops it
    if c = '\n'.toUInt8 then minifyFrom .code rest else minifyFrom .lineComment rest
  -- `json += 2` at the NUL, or in front of it
  | .blockComment, [] => none
  | .blockComment, [_] => none
  | .blockComment, c :: d :: rest =>
    if c = '*'.toUInt8 ∧ d = '/'.toUInt8 then minifyFrom .code rest
    else minifyFrom .blockComment (d :: rest)
  -- without its closing quote, the NUL is copied in its place
  | .string, [] => none
  | .string, [c] => if c = '"'.toUInt8 then some [c] else none
  | .string, c :: d :: rest =>
    if c = '"'.toUInt8 then (minifyFrom .code (d :: rest)).map (c :: ·)
    -- the character behind a backslash is copied with it
    else if c = '\\'.toUInt8 then (minifyFrom .string rest).map (c :: d :: ·)
    else (minifyFrom .string (d :: rest)).map (c :: ·)

end ArkInC.Native
