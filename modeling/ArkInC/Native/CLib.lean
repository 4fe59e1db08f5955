import ArkInC.ForStd.Binary64
import ArkInC.ForStd.List

/-!
# C strings, C numbers and the faults of the program

The parts of the C language and its library that the sources use: NUL-terminated
strings and their comparison, the conversions between `double`, `int` and `long`,
and the memory errors the program can run into. What the C standard leaves to
the compiler or the machine is a field of `Target`.
-/

namespace ArkInC.Native

open Binary64 (Double)

/-- The memory errors of the program. A run that reaches one does not return. -/
inductive Fault where
  /-- A field of a NULL `cJSON *` is read. -/
  | nullItem
  /-- NULL is passed to `strcmp`. -/
  | nullString
  /-- A byte is written past the end of an allocated block. -/
  | outOfBounds
  deriving DecidableEq, Repr

/-! ## C strings -/

/-- The bytes of an ASCII literal. -/
def ascii (s : String) : List UInt8 := s.toList.map Char.toUInt8

/-- A NUL-terminated string: the bytes in front of its terminator. -/
structure CString where
  bytes : List UInt8
  noNul : 0 ∉ bytes
  deriving DecidableEq

instance : Repr CString where
  reprPrec s _ := repr (String.ofList (s.bytes.map fun b => Char.ofNat b.toNat))

/-- The C string that starts a buffer: it ends at the first NUL. -/
def CString.ofBytes (buffer : List UInt8) : CString where
  bytes := buffer.takeWhile (· ≠ 0)
  noNul := fun h => by simpa using List.mem_takeWhile_imp h

/-- A string literal of the source. -/
def CString.lit (s : String) : CString := .ofBytes (ascii s)

@[ext] theorem CString.ext {a b : CString} (h : a.bytes = b.bytes) : a = b := by
  cases a; cases b; cases h; rfl

/-- A buffer that starts with a text and a terminator holds that text. -/
theorem CString.ofBytes_append_cons_zero {text : List UInt8} (h : 0 ∉ text) (rest : List UInt8) :
    CString.ofBytes (text ++ 0 :: rest) = ⟨text, h⟩ := by
  ext1
  exact List.takeWhile_ne_append_cons h rest

theorem CString.ofBytes_append_zero {text : List UInt8} (h : 0 ∉ text) :
    CString.ofBytes (text ++ [0]) = ⟨text, h⟩ := ofBytes_append_cons_zero h []

theorem CString.ofBytes_bytes (s : CString) : CString.ofBytes s.bytes = s := by
  ext1
  exact List.takeWhile_ne_eq_self_iff.mpr s.noNul

/-- `tolower` in the C locale. -/
def tolower (c : UInt8) : UInt8 :=
  if 'A'.toUInt8 ≤ c ∧ c ≤ 'Z'.toUInt8 then c + 32 else c

/-- The comparison loop of `strcmp`, on the images of the bytes under `f`; past its
    last byte a string reads its NUL. -/
def compareBytes (f : UInt8 → UInt8) : List UInt8 → List UInt8 → Int
  | [], [] => 0
  | [], b :: _ => 0 - (f b).toNat
  | a :: _, [] => (f a).toNat
  -- the first difference decides
  | a :: as, b :: bs =>
    if f a = f b then compareBytes f as bs else (f a).toNat - (f b).toNat

/-- Two strings compare equal exactly when their images are the same, provided `f`
    sends no byte of them to NUL. -/
theorem compareBytes_eq_zero {f : UInt8 → UInt8} (hf : ∀ b, f b = 0 ↔ b = 0)
    {as bs : List UInt8} (ha : 0 ∉ as) (hb : 0 ∉ bs) :
    compareBytes f as bs = 0 ↔ as.map f = bs.map f := by
  have toNat_eq_zero : ∀ c : UInt8, (f c).toNat = 0 ↔ c = 0 := fun c => by
    rw [← hf c, ← UInt8.toNat_inj]; rfl
  induction as generalizing bs with
  | nil =>
    cases bs with
    | nil => simp [compareBytes]
    | cons b bs =>
      have hb0 : b ≠ 0 := fun h => hb (h ▸ List.mem_cons_self)
      have := (toNat_eq_zero b).not.mpr hb0
      simp only [compareBytes, List.map_nil, List.map_cons, reduceCtorEq, iff_false]
      omega
  | cons a as ih =>
    cases bs with
    | nil =>
      have ha0 : a ≠ 0 := fun h => ha (h ▸ List.mem_cons_self)
      have := (toNat_eq_zero a).not.mpr ha0
      simp only [compareBytes, List.map_nil, List.map_cons, reduceCtorEq, iff_false]
      omega
    | cons b bs =>
      simp only [compareBytes, List.map_cons, List.cons.injEq]
      split
      · next hab =>
        have htail := ih (fun h => ha (List.mem_cons_of_mem _ h))
          (fun h => hb (List.mem_cons_of_mem _ h))
        simp only [htail, hab, true_and]
      · next hab =>
        have hne : (f a).toNat ≠ (f b).toNat := fun h => hab (UInt8.toNat_inj.mp h)
        simp only [hab, false_and, iff_false]
        omega

/-- `strcmp` on two strings that are not NULL. -/
def strcmp (a b : CString) : Int := compareBytes id a.bytes b.bytes

@[simp] theorem strcmp_eq_zero (a b : CString) : strcmp a b = 0 ↔ a = b := by
  rw [strcmp, compareBytes_eq_zero (f := id) (fun _ => Iff.rfl) a.noNul b.noNul, List.map_id,
    List.map_id]
  exact ⟨CString.ext, congrArg _⟩

/-! ## Conversions -/

def INT_MAX : Int := 2147483647

def INT_MIN : Int := -2147483648

/-- The records that are allocated in arrays. -/
inductive ArkRecord where
  | peer
  | delegate
  | voter
  | transaction

/-- What the C standard leaves to the compiler, the machine and the heap. -/
structure Target where
  /-- The width of `size_t` and of a pointer. -/
  sizeBits : Nat
  sizeBits_eq : sizeBits = 32 ∨ sizeBits = 64
  /-- The width of `long`: 32 bits on WIN32, 64 elsewhere. -/
  longBits : Nat
  longBits_eq : longBits = 32 ∨ longBits = 64
  /-- `(long)` of a double outside the range of `long` is undefined: any `long`. -/
  longOutOfRange : Double → Int
  longOutOfRange_range : ∀ d,
    -2 ^ (longBits - 1) ≤ longOutOfRange d ∧ longOutOfRange d < 2 ^ (longBits - 1)
  /-- `(int)` of a `char *` that is not NULL: of where the parser put the string with that
      text in the record at an index of a list, or in a record that stands alone (index 0). -/
  intOfPointer : Nat → CString → Int
  /-- `sizeof` of a record. -/
  sizeof : ArkRecord → Nat
  sizeof_le : ∀ r, sizeof r ≤ 128
  /-- Whether `malloc` finds a block of that many bytes. -/
  malloc : Nat → Bool

/-- A 64-bit Linux machine. -/
def Target.linux64 : Target where
  sizeBits := 64
  sizeBits_eq := .inr rfl
  longBits := 64
  longBits_eq := .inr rfl
  longOutOfRange _ := -2 ^ 63
  longOutOfRange_range _ := by norm_num
  intOfPointer i _ := 4096 + 32 * i
  sizeof
    | .peer => 48
    | .delegate => 72
    | .voter => 32
    | .transaction => 120
  sizeof_le r := by cases r <;> decide
  malloc n := n < 2 ^ 47

/-- A WIN32 machine. -/
def Target.win32 : Target where
  sizeBits := 32
  sizeBits_eq := .inl rfl
  longBits := 32
  longBits_eq := .inl rfl
  longOutOfRange _ := -2 ^ 31
  longOutOfRange_range _ := by norm_num
  intOfPointer i _ := 4096 + 16 * i
  sizeof
    | .peer => 28
    | .delegate => 48
    | .voter => 16
    | .transaction => 72
  sizeof_le r := by cases r <;> decide
  malloc n := n < 2 ^ 31

/-- `(long)(value + 0.5)`, the sum computed exactly. -/
def Target.roundToLong (t : Target) (value : Double) : Int :=
  match value.addHalf.truncate with
  | some n =>
    if -2 ^ (t.longBits - 1) ≤ n ∧ n < 2 ^ (t.longBits - 1) then n else t.longOutOfRange value
  -- an infinity
  | none => t.longOutOfRange value

/-- The result of `(long)(value + 0.5)` is a `long`. -/
theorem Target.roundToLong_range (t : Target) (value : Double) :
    -2 ^ (t.longBits - 1) ≤ t.roundToLong value ∧ t.roundToLong value < 2 ^ (t.longBits - 1) := by
  unfold roundToLong
  split
  · split
    · assumption
    · exact t.longOutOfRange_range value
  · exact t.longOutOfRange_range value

/-- `(int)p` of a `char *` in a record that stands alone; NULL is zero. -/
def Target.pointerToInt (t : Target) : Option CString → Int
  | none => 0
  | some s => t.intOfPointer 0 s

/-- The target as the decoder of the record at index `i` of a list sees it: the strings of
    that record lie elsewhere than those of the others. -/
def Target.atRecord (t : Target) (i : Nat) : Target :=
  { t with intOfPointer := fun _ => t.intOfPointer i }

/-- `total * sizeof(record)`: `total` becomes a `size_t`, and the product may wrap. -/
def Target.arrayBytes (t : Target) (record : ArkRecord) (total : Int) : Nat :=
  (total * t.sizeof record % 2 ^ t.sizeBits).toNat

/-! ## Numbers in text -/

def isDigit (c : UInt8) : Bool := '0'.toUInt8 ≤ c ∧ c ≤ '9'.toUInt8

def digitsValue (digits : List UInt8) : Nat :=
  digits.foldl (fun value c => value * 10 + (c - '0'.toUInt8).toNat) 0

/-- An optional sign, and the text behind it. -/
def splitSign (s : List UInt8) : Bool × List UInt8 :=
  match s with
  | c :: rest =>
    if c = '-'.toUInt8 then (true, rest) else if c = '+'.toUInt8 then (false, rest) else (false, s)
  | [] => (false, [])

/-- `atoi`. -/
def atoi (s : List UInt8) : Int :=
  let (negative, rest) := splitSign (s.dropWhile (· ≤ 32))
  let value : Int := digitsValue (rest.takeWhile isDigit)
  if negative then -value else value

/-- The exponent part of a decimal literal, and the text behind it; an `e` without
    digits is not part of the number. -/
def splitExponent (s : List UInt8) : Int × List UInt8 :=
  match s with
  | c :: rest =>
    if c = 'e'.toUInt8 ∨ c = 'E'.toUInt8 then
      let (negative, rest) := splitSign rest
      let digits := rest.takeWhile isDigit
      let value : Int := digitsValue digits
      -- `1e` is the number 1, with an `e` behind it
      if digits = [] then (0, s)
      else (if negative then -value else value, rest.dropWhile isDigit)
    else (0, s)
  | [] => (0, [])

/-- The fraction digits of a decimal literal, and the text behind them. -/
def splitFraction (s : List UInt8) : List UInt8 × List UInt8 :=
  match s with
  | c :: rest =>
    if c = '.'.toUInt8 then (rest.takeWhile isDigit, rest.dropWhile isDigit) else ([], s)
  | [] => ([], [])

/-- The double nearest to `mantissa * 10 ^ exponent`. Every literal `parse_number`
    passes on has at most 63 characters, so past these exponents it overflows to
    infinity or is nearer to zero than to the least subnormal. A zero keeps its sign. -/
def decimalToDouble (negative : Bool) (mantissa : Nat) (exponent : Int) : Double :=
  Double.withSign negative <|
    if mantissa = 0 ∨ exponent < -500 then 0
    else if 500 < exponent then .infinite negative
    else Binary64.nearest ((if negative then -1 else 1) * mantissa * 10 ^ exponent)

/-- `strtod` in the C locale, on a string of number characters: the value and the
    number of characters it took, or nothing if there was no number. -/
def strtod (s : List UInt8) : Option (Double × Nat) :=
  let (negative, afterSign) := splitSign s
  let integer := afterSign.takeWhile isDigit
  let (fraction, afterFraction) := splitFraction (afterSign.dropWhile isDigit)
  -- the digits may all stand on one side of the point
  if integer = [] ∧ fraction = [] then none
  else
    let (exponent, rest) := splitExponent afterFraction
    some (decimalToDouble negative (digitsValue (integer ++ fraction)) (exponent - fraction.length),
      s.length - rest.length)

end ArkInC.Native
