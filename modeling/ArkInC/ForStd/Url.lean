import ArkInC.ForStd.List
import Mathlib.Data.List.Infix

/-!
# Reading a URL

How the receiver of a URL takes it apart: host and port in front of the first `/`, no
fragment, a query of pairs, `%XX` decoded. `write` is the sender that encodes nothing. A
URL is taken here as the bytes behind its scheme.

## Key results

- `percentDecode_eq_self_iff`: the texts that decoding leaves alone
- `read_write`: host, port and path are read as they were written
- `readQuery_writeQuery_singleton_iff`: when a pair is read as it was written
-/

namespace Url

/-! ## Cutting at a byte -/

/-- The text in front of the first `sep`, and the text behind it. -/
def cut (sep : UInt8) (text : List UInt8) : List UInt8 × List UInt8 :=
  (text.takeWhile (· ≠ sep), (text.dropWhile (· ≠ sep)).drop 1)

theorem cut_append_cons {sep : UInt8} {front : List UInt8} (h : sep ∉ front)
    (back : List UInt8) : cut sep (front ++ sep :: back) = (front, back) := by
  rw [cut, List.takeWhile_ne_append_cons h, List.dropWhile_ne_append h,
    List.dropWhile_cons_of_neg (by simp), List.drop_one, List.tail_cons]

/-! ## Escapes -/

/-- The value of a hexadecimal digit. -/
def hexValue (c : UInt8) : Option UInt8 :=
  if '0'.toUInt8 ≤ c ∧ c ≤ '9'.toUInt8 then some (c - '0'.toUInt8)
  else if 'a'.toUInt8 ≤ c ∧ c ≤ 'f'.toUInt8 then some (c - 'a'.toUInt8 + 10)
  else if 'A'.toUInt8 ≤ c ∧ c ≤ 'F'.toUInt8 then some (c - 'A'.toUInt8 + 10)
  else none

/-- The byte a text starts with in escaped form: `%` and two hexadecimal digits. -/
def escape : List UInt8 → Option UInt8
  | percent :: high :: low :: _ =>
    if percent = '%'.toUInt8 then
      match hexValue high, hexValue low with
      | some high, some low => some (16 * high + low)
      | _, _ => none
    else none
  | _ => none

/-- Replaces every escape by its byte; a `%` that starts none stands for itself. -/
def percentDecode : List UInt8 → List UInt8
  | [] => []
  | c :: rest =>
    match escape (c :: rest) with
    | some value =>
      match rest with
      | _ :: _ :: behind => value :: percentDecode behind
      | _ => []
    | none => c :: percentDecode rest

/-- Some part of the text is an escape. -/
def HasEscape (text : List UInt8) : Prop := ∃ rest ∈ text.tails, (escape rest).isSome

instance : DecidablePred HasEscape := fun text =>
  inferInstanceAs (Decidable (∃ rest ∈ text.tails, (escape rest).isSome))

theorem hasEscape_cons {c : UInt8} {rest : List UInt8} :
    HasEscape (c :: rest) ↔ (escape (c :: rest)).isSome ∨ HasEscape rest := by
  simp only [HasEscape, List.tails_cons, List.mem_cons, exists_eq_or_imp]

/-- Every escape starts with `%`. -/
theorem not_hasEscape_of_not_mem {text : List UInt8} (h : '%'.toUInt8 ∉ text) :
    ¬ HasEscape text := by
  induction text with
  | nil => decide
  | cons c rest ih =>
    obtain ⟨hc, hrest⟩ := not_or.mp (List.mem_cons.not.mp h)
    rw [hasEscape_cons, not_or]
    refine ⟨?_, ih hrest⟩
    unfold escape
    split
    · next heq =>
      -- the first byte would have to be the `%`
      obtain ⟨rfl, -⟩ := List.cons.inj heq
      simp [Ne.symm hc]
    · simp

/-- Decoding does not make a text longer. -/
theorem length_percentDecode_le (text : List UInt8) :
    (percentDecode text).length ≤ text.length := by
  fun_induction percentDecode text with
  | case1 => exact Nat.le_refl _
  | case2 c value high low behind hescape ih =>
    simp only [List.length_cons]
    omega
  | case3 => exact Nat.zero_le _
  | case4 c rest hescape ih => exact Nat.succ_le_succ ih

/-- Exactly the texts without an escape are left alone. -/
theorem percentDecode_eq_self_iff {text : List UInt8} :
    percentDecode text = text ↔ ¬ HasEscape text := by
  fun_induction percentDecode text with
  | case1 => exact iff_of_true rfl (by decide)
  | case2 c value high low behind hescape ih =>
    -- the escape is at the start, and the result is shorter
    refine iff_of_false (fun h => ?_) (not_not.mpr (hasEscape_cons.mpr (.inl ?_)))
    · have hlen := congrArg List.length h
      have hle := length_percentDecode_le behind
      simp only [List.length_cons] at hlen
      omega
    · rw [hescape]; rfl
  | case3 c rest value hescape _ =>
    refine iff_of_false nofun (not_not.mpr (hasEscape_cons.mpr (.inl ?_)))
    rw [hescape]; rfl
  | case4 c rest hescape ih =>
    rw [List.cons.injEq, ih, hasEscape_cons, hescape]
    simp

/-! ## Queries -/

/-- A pair of a query as it is. -/
def writePair (pair : List UInt8 × List UInt8) : List UInt8 :=
  pair.1 ++ '='.toUInt8 :: pair.2

/-- The pairs of a query with `&` between them. -/
def writeQuery : List (List UInt8 × List UInt8) → List UInt8
  | [] => []
  | [pair] => writePair pair
  | pair :: pairs => writePair pair ++ '&'.toUInt8 :: writeQuery pairs

/-- A pair of a query: name and value around the first `=`, both decoded. -/
def readPair (pair : List UInt8) : List UInt8 × List UInt8 :=
  (percentDecode (cut '='.toUInt8 pair).1, percentDecode (cut '='.toUInt8 pair).2)

/-- The pairs of a query, which stand between `&`. -/
def readQuery (query : List UInt8) : List (List UInt8 × List UInt8) :=
  (query.splitOn '&'.toUInt8).map readPair

/-- A text that means itself in a query: nothing in it ends the query or a pair, or is
    decoded. -/
structure Plain (text : List UInt8) : Prop where
  noFragment : '#'.toUInt8 ∉ text
  noPair : '&'.toUInt8 ∉ text
  noEscape : ¬ HasEscape text

instance : DecidablePred Plain := fun text =>
  decidable_of_iff ('#'.toUInt8 ∉ text ∧ '&'.toUInt8 ∉ text ∧ ¬ HasEscape text)
    ⟨fun h => ⟨h.1, h.2.1, h.2.2⟩, fun h => ⟨h.1, h.2, h.3⟩⟩

/-- A byte of a written pair is `=`, or of its name or value. -/
theorem not_mem_writePair {sep : UInt8} (heq : sep ≠ '='.toUInt8) {name value : List UInt8}
    (hname : sep ∉ name) (hvalue : sep ∉ value) : sep ∉ writePair (name, value) := by
  rw [writePair, List.mem_append, List.mem_cons, not_or, not_or]
  exact ⟨hname, heq, hvalue⟩

theorem readPair_writePair {name : List UInt8} (hname : Plain name) (heq : '='.toUInt8 ∉ name)
    (value : List UInt8) : readPair (writePair (name, value)) = (name, percentDecode value) := by
  rw [readPair, writePair, cut_append_cons heq, percentDecode_eq_self_iff.mpr hname.noEscape]

theorem readQuery_append {pair : List UInt8} (h : '&'.toUInt8 ∉ pair) (query : List UInt8) :
    readQuery (pair ++ '&'.toUInt8 :: query) = readPair pair :: readQuery query := by
  rw [readQuery, List.splitOn_append_cons_self_of_not_mem h, List.map_cons, readQuery]

theorem readQuery_of_not_mem {pair : List UInt8} (h : '&'.toUInt8 ∉ pair) :
    readQuery pair = [readPair pair] := by
  rw [readQuery, List.splitOn_eq_singleton h, List.map_singleton]

/-- A `&` makes it at least two pairs. -/
theorem readQuery_ne_singleton {query : List UInt8} (h : '&'.toUInt8 ∈ query)
    (pair : List UInt8 × List UInt8) : readQuery query ≠ [pair] := by
  obtain ⟨front, back, rfl⟩ := List.append_of_mem h
  intro hone
  rw [readQuery, List.splitOn_append_cons_self, List.map_append] at hone
  -- one pair or more on either side
  have hlen := congrArg List.length hone
  have hfront := List.length_pos_iff.mpr (List.splitOn_ne_nil '&'.toUInt8 front)
  have hback := List.length_pos_iff.mpr (List.splitOn_ne_nil '&'.toUInt8 back)
  simp only [List.length_append, List.length_map, List.length_singleton] at hlen
  omega

/-- The fragment of a pair can only start in its value. -/
theorem takeWhile_writePair {name : List UInt8} (hname : Plain name) (value : List UInt8) :
    (writePair (name, value)).takeWhile (· ≠ '#'.toUInt8) =
      writePair (name, value.takeWhile (· ≠ '#'.toUInt8)) := by
  rw [writePair, List.takeWhile_ne_append hname.noFragment, List.takeWhile_cons_of_pos
    (by decide), writePair]

/-- A query of one pair gives its value back exactly if the value means itself. -/
theorem readQuery_writeQuery_singleton_iff {name value : List UInt8} (hname : Plain name)
    (heq : '='.toUInt8 ∉ name) :
    readQuery ((writeQuery [(name, value)]).takeWhile (· ≠ '#'.toUInt8)) = [(name, value)] ↔
      Plain value := by
  rw [writeQuery, takeWhile_writePair hname]
  have hfront := List.takeWhile_prefix (l := value) (· ≠ '#'.toUInt8)
  by_cases hpair : '&'.toUInt8 ∈ value.takeWhile (· ≠ '#'.toUInt8)
  -- cut in two it is read as two pairs
  · refine iff_of_false (readQuery_ne_singleton ?_ _) fun hplain => ?_
    · exact List.mem_append_right _ (List.mem_cons_of_mem _ hpair)
    · exact hplain.noPair (hfront.subset hpair)
  · rw [readQuery_of_not_mem (not_mem_writePair (by decide) hname.noPair hpair),
      readPair_writePair hname heq]
    simp only [List.cons.injEq, Prod.mk.injEq, true_and, and_true]
    constructor
    · intro hdecode
      -- neither cutting nor decoding makes a text longer, so neither did anything
      have hle := length_percentDecode_le (value.takeWhile (· ≠ '#'.toUInt8))
      rw [hdecode] at hle
      have hself := hfront.eq_of_length_le hle
      rw [hself] at hdecode hpair
      exact ⟨List.takeWhile_ne_eq_self_iff.mp hself, hpair, percentDecode_eq_self_iff.mp hdecode⟩
    · intro hplain
      rw [List.takeWhile_ne_eq_self_iff.mpr hplain.noFragment]
      exact percentDecode_eq_self_iff.mpr hplain.noEscape

/-- A plain pair in front of a query is read as it was written, and then the query. -/
theorem readQuery_writeQuery_cons {name value : List UInt8} (hname : Plain name)
    (heq : '='.toUInt8 ∉ name) (hvalue : Plain value) (pair : List UInt8 × List UInt8)
    (pairs : List (List UInt8 × List UInt8)) :
    readQuery ((writeQuery ((name, value) :: pair :: pairs)).takeWhile (· ≠ '#'.toUInt8)) =
      (name, value) :: readQuery ((writeQuery (pair :: pairs)).takeWhile (· ≠ '#'.toUInt8)) := by
  have hhash := not_mem_writePair (by decide) hname.noFragment hvalue.noFragment
  have hpair := not_mem_writePair (by decide) hname.noPair hvalue.noPair
  rw [writeQuery, List.takeWhile_ne_append hhash, List.takeWhile_cons_of_pos (by decide),
    readQuery_append hpair, readPair_writePair hname heq,
    percentDecode_eq_self_iff.mpr hvalue.noEscape]
  exact List.cons_ne_nil _ _

/-! ## URLs -/

/-- Whom a URL addresses, and what it asks for. -/
structure Parts where
  host : List UInt8
  port : List UInt8
  path : List UInt8
  query : List (List UInt8 × List UInt8)
  deriving DecidableEq

/-- The URL of some parts, each as it is. -/
def write (parts : Parts) : List UInt8 :=
  parts.host ++ ':'.toUInt8 :: (parts.port ++ '/'.toUInt8 ::
    (parts.path ++ '?'.toUInt8 :: writeQuery parts.query))

/-- Reads a URL: host and port in front of the first `/`, no fragment, and the query behind
    the first `?`. -/
def read (url : List UInt8) : Parts :=
  let (authority, rest) := cut '/'.toUInt8 url
  let (host, port) := cut ':'.toUInt8 authority
  let (path, query) := cut '?'.toUInt8 (rest.takeWhile (· ≠ '#'.toUInt8))
  { host := host, port := port, path := path, query := readQuery query }

/-- Host, port and path hold none of the bytes that end them. -/
structure Parts.Delimited (parts : Parts) : Prop where
  host_colon : ':'.toUInt8 ∉ parts.host
  host_slash : '/'.toUInt8 ∉ parts.host
  port_slash : '/'.toUInt8 ∉ parts.port
  path_question : '?'.toUInt8 ∉ parts.path
  path_hash : '#'.toUInt8 ∉ parts.path

/-- Host, port and path are read as they were written, whatever the query. -/
theorem read_write {parts : Parts} (h : parts.Delimited) :
    read (write parts) = { parts with
      query := readQuery ((writeQuery parts.query).takeWhile (· ≠ '#'.toUInt8)) } := by
  have hauthority : '/'.toUInt8 ∉ parts.host ++ ':'.toUInt8 :: parts.port := by
    simp only [List.mem_append, List.mem_cons, not_or]
    exact ⟨h.host_slash, by decide, h.port_slash⟩
  have hcut := cut_append_cons hauthority (parts.path ++ '?'.toUInt8 :: writeQuery parts.query)
  rw [List.append_assoc, List.cons_append] at hcut
  have htake := List.takeWhile_ne_append h.path_hash ('?'.toUInt8 :: writeQuery parts.query)
  rw [List.takeWhile_cons_of_pos (by decide)] at htake
  simp only [read, write, hcut, htake, cut_append_cons h.host_colon,
    cut_append_cons h.path_question]

end Url
