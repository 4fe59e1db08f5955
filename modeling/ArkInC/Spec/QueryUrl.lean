import ArkInC.ForStd.Url
import ArkInC.Spec.Endpoint
import ArkInC.Spec.FormatCorrect

/-!
# Arguments in URLs

Three endpoint functions put a string of their caller into the query of a URL. They write it
as it is, into a buffer of 255 bytes: what does not fit is cut off, and a `#`, a `&` or an
escape in the argument means something else to the receiver.

## Key results

- `QueryCall.carries_iff`: which arguments arrive unchanged
- `QueryCall.eq_of_url_eq`: calls with different arguments send different URLs, if these fit
- `QueryCall.url_spec`: the URLs of the three functions
-/

namespace ArkInC.Native

open Url (Plain)

/-- An ip that ends where the port begins. -/
structure Host where
  ip : CString
  noColon : ':'.toUInt8 ∉ ip.bytes
  noSlash : '/'.toUInt8 ∉ ip.bytes
  deriving DecidableEq

theorem Host.ext {a b : Host} (h : a.ip.bytes = b.ip.bytes) : a = b := by
  cases a; cases b
  cases CString.ext h
  rfl

/-- A call of an endpoint function that puts a string into a query. -/
inductive QueryCall where
  | delegatesGetByUsername (host : Host) (port : Int) (username : CString)
  | votersGetByDelegate (host : Host) (port : Int) (publicKey : CString)
  | peersGet (host : Host) (hostPort : Int) (ip : CString) (port : Int)
  deriving DecidableEq

namespace QueryCall

/-- The call as one of the endpoint functions. -/
def endpoint : QueryCall → Endpoint
  | delegatesGetByUsername host port username =>
    .delegatesGetByUsername (some host.ip) port (some username)
  | votersGetByDelegate host port publicKey =>
    .votersGetByDelegate (some host.ip) port (some publicKey)
  | peersGet host hostPort ip port => .peersGet { ip := host.ip, port := hostPort } (some ip) port

/-- What the format of the function stands for. -/
def text : QueryCall → List UInt8
  | delegatesGetByUsername host port username =>
    hostUrl (some host.ip) port "/api/delegates/get?username=" ++ formatS (some username)
  | votersGetByDelegate host port publicKey =>
    hostUrl (some host.ip) port "/api/delegates/voters?publicKey=" ++ formatS (some publicKey)
  | peersGet host hostPort ip port =>
    hostUrl (some host.ip) hostPort "/api/peers/get?port=" ++ formatD port ++ ascii "&ip=" ++
      formatS (some ip)

/-- The URL the function passes to `ark_api_get`. -/
def url (c : QueryCall) : CString := snprintfUrl c.text

/-- The function passes that URL on and makes something of the answer. -/
theorem run_eq (t : Target) (c : QueryCall) :
    ∃ answer, ∀ get : Get, c.endpoint.run t get = get c.url >>= answer := by
  cases c with
  | _ => exact ⟨_, fun _ => rfl⟩

/-! ## What is sent -/

/-- The string the caller passes. -/
def argument : QueryCall → CString
  | delegatesGetByUsername _ _ username => username
  | votersGetByDelegate _ _ publicKey => publicKey
  | peersGet _ _ ip _ => ip

/-- Whom the caller addresses, and what it asks for. -/
def sent : QueryCall → Url.Parts
  | delegatesGetByUsername host port username =>
    { host := host.ip.bytes, port := formatD port, path := ascii "api/delegates/get"
      query := [(ascii "username", username.bytes)] }
  | votersGetByDelegate host port publicKey =>
    { host := host.ip.bytes, port := formatD port, path := ascii "api/delegates/voters"
      query := [(ascii "publicKey", publicKey.bytes)] }
  | peersGet host hostPort ip port =>
    { host := host.ip.bytes, port := formatD hostPort, path := ascii "api/peers/get"
      query := [(ascii "port", formatD port), (ascii "ip", ip.bytes)] }

/-- The URL is not cut short, and reading it gives what the caller sent. -/
structure Carries (c : QueryCall) : Prop where
  uncut : c.url.bytes = c.text
  reads : Url.read c.url.bytes = c.sent

instance : DecidablePred Carries := fun c =>
  decidable_of_iff (c.url.bytes = c.text ∧ Url.read c.url.bytes = c.sent)
    ⟨fun h => ⟨h.1, h.2⟩, fun h => ⟨h.1, h.2⟩⟩

/-! ## The text of a URL -/

/-- The format of the functions is a URL of what is sent, each part as it is. -/
theorem text_eq (c : QueryCall) : c.text = Url.write c.sent := by
  have hcolon : ascii ":" = [':'.toUInt8] := rfl
  cases c with
  | delegatesGetByUsername host port username =>
    have hformat : ascii "/api/delegates/get?username=" = '/'.toUInt8 ::
        (ascii "api/delegates/get" ++ '?'.toUInt8 :: (ascii "username" ++ ['='.toUInt8])) := by
      decide
    simp [text, hostUrl, formatS, sent, Url.write, Url.writeQuery, Url.writePair, hcolon, hformat]
  | votersGetByDelegate host port publicKey =>
    have hformat : ascii "/api/delegates/voters?publicKey=" = '/'.toUInt8 ::
        (ascii "api/delegates/voters" ++ '?'.toUInt8 :: (ascii "publicKey" ++ ['='.toUInt8])) := by
      decide
    simp [text, hostUrl, formatS, sent, Url.write, Url.writeQuery, Url.writePair, hcolon, hformat]
  | peersGet host hostPort ip port =>
    have hformat : ascii "/api/peers/get?port=" = '/'.toUInt8 ::
        (ascii "api/peers/get" ++ '?'.toUInt8 :: (ascii "port" ++ ['='.toUInt8])) := by
      decide
    have hip : ascii "&ip=" = '&'.toUInt8 :: (ascii "ip" ++ ['='.toUInt8]) := by decide
    simp [text, hostUrl, formatS, sent, Url.write, Url.writeQuery, Url.writePair, hcolon, hformat,
      hip]

theorem noNul_hostUrl (host : Host) (port : Int) {path : String} (hpath : 0 ∉ ascii path) :
    0 ∉ hostUrl (some host.ip) port path := by
  have hport : 0 ∉ formatD port := not_mem_formatD rfl (by decide) port
  simp only [hostUrl, formatS, List.mem_append, not_or]
  exact ⟨⟨⟨host.ip.noNul, by decide⟩, hport⟩, hpath⟩

/-- A URL is not cut off by a NUL. -/
theorem noNul_text (c : QueryCall) : 0 ∉ c.text := by
  cases c with
  | delegatesGetByUsername host port username =>
    rw [text, List.mem_append, not_or]
    exact ⟨noNul_hostUrl host port (by decide), username.noNul⟩
  | votersGetByDelegate host port publicKey =>
    rw [text, List.mem_append, not_or]
    exact ⟨noNul_hostUrl host port (by decide), publicKey.noNul⟩
  | peersGet host hostPort ip port =>
    have hport : 0 ∉ formatD port := not_mem_formatD rfl (by decide) port
    simp only [text, List.mem_append, not_or]
    exact ⟨⟨⟨noNul_hostUrl host hostPort (by decide), hport⟩, by decide⟩, ip.noNul⟩

/-- The URL is as much of the text as fits into the buffer. -/
theorem url_bytes (c : QueryCall) : c.url.bytes = c.text.take 254 := by
  -- no NUL among them, so the buffer holds them all
  have hself : (c.text.take 254).takeWhile (· ≠ 0) = c.text.take 254 :=
    List.takeWhile_ne_eq_self_iff.mpr fun h => c.noNul_text (List.mem_of_mem_take h)
  exact hself

theorem uncut_iff (c : QueryCall) : c.url.bytes = c.text ↔ c.text.length ≤ 254 := by
  rw [url_bytes, List.take_eq_self_iff]

/-! ## Reading it back -/

theorem plain_formatD (n : Int) : Plain (formatD n) where
  noFragment := not_mem_formatD rfl (by decide) n
  noPair := not_mem_formatD rfl (by decide) n
  noEscape := Url.not_hasEscape_of_not_mem (not_mem_formatD rfl (by decide) n)

theorem path_sent (c : QueryCall) : '?'.toUInt8 ∉ c.sent.path ∧ '#'.toUInt8 ∉ c.sent.path := by
  cases c with
  | _ => dsimp only [sent]; decide

theorem delimited_sent (c : QueryCall) : c.sent.Delimited := by
  have hport : ∀ n, '/'.toUInt8 ∉ formatD n := fun n => not_mem_formatD rfl (by decide) n
  obtain ⟨hquestion, hhash⟩ := c.path_sent
  cases c with
  | delegatesGetByUsername host port _ =>
    exact ⟨host.noColon, host.noSlash, hport port, hquestion, hhash⟩
  | votersGetByDelegate host port _ =>
    exact ⟨host.noColon, host.noSlash, hport port, hquestion, hhash⟩
  | peersGet host hostPort _ _ =>
    exact ⟨host.noColon, host.noSlash, hport hostPort, hquestion, hhash⟩

/-- The query is read as it was sent exactly if the argument means itself. -/
theorem readQuery_sent_iff (c : QueryCall) :
    Url.readQuery ((Url.writeQuery c.sent.query).takeWhile (· ≠ '#'.toUInt8)) = c.sent.query ↔
      Plain c.argument.bytes := by
  cases c with
  | delegatesGetByUsername host port username =>
    exact Url.readQuery_writeQuery_singleton_iff (by decide) (by decide)
  | votersGetByDelegate host port publicKey =>
    exact Url.readQuery_writeQuery_singleton_iff (by decide) (by decide)
  | peersGet host hostPort ip port =>
    -- the port in front of the argument is read first
    rw [sent, Url.readQuery_writeQuery_cons (by decide) (by decide) (plain_formatD port)]
    simp only [List.cons.injEq, true_and]
    exact Url.readQuery_writeQuery_singleton_iff (by decide) (by decide)

/-- A URL carries its arguments exactly if it fits and the argument means itself. -/
theorem carries_iff (c : QueryCall) :
    c.Carries ↔ c.text.length ≤ 254 ∧ Plain c.argument.bytes := by
  constructor
  · intro h
    refine ⟨c.uncut_iff.mp h.uncut, c.readQuery_sent_iff.mp ?_⟩
    -- host, port and path arrive anyway
    have hread := h.reads
    rw [h.uncut, text_eq, Url.read_write c.delimited_sent] at hread
    exact congrArg Url.Parts.query hread
  · intro h
    have huncut := c.uncut_iff.mpr h.1
    refine ⟨huncut, ?_⟩
    rw [huncut, text_eq, Url.read_write c.delimited_sent, c.readQuery_sent_iff.mpr h.2]

/-! ## Different calls -/

/-- A call is determined by whom it addresses and its query. -/
theorem eq_of_parts {c c' : QueryCall} (hhost : c.sent.host = c'.sent.host)
    (hport : c.sent.port = c'.sent.port) (hpath : c.sent.path = c'.sent.path)
    (hquery : Url.writeQuery c.sent.query = Url.writeQuery c'.sent.query) : c = c' := by
  cases c with
  | delegatesGetByUsername host port username =>
    cases c' with
    | delegatesGetByUsername host' port' username' =>
      cases Host.ext hhost
      cases formatD_injective hport
      cases CString.ext (List.tail_eq_of_cons_eq (List.append_cancel_left hquery))
      rfl
    -- the paths of the three functions are different
    | votersGetByDelegate _ _ _ => exact absurd hpath (by dsimp only [sent]; decide)
    | peersGet _ _ _ _ => exact absurd hpath (by dsimp only [sent]; decide)
  | votersGetByDelegate host port publicKey =>
    cases c' with
    | votersGetByDelegate host' port' publicKey' =>
      cases Host.ext hhost
      cases formatD_injective hport
      cases CString.ext (List.tail_eq_of_cons_eq (List.append_cancel_left hquery))
      rfl
    | delegatesGetByUsername _ _ _ => exact absurd hpath (by dsimp only [sent]; decide)
    | peersGet _ _ _ _ => exact absurd hpath (by dsimp only [sent]; decide)
  | peersGet host hostPort ip port =>
    cases c' with
    | peersGet host' hostPort' ip' port' =>
      -- the first `&` ends the port
      have hpair : ∀ n, '&'.toUInt8 ∉ Url.writePair (ascii "port", formatD n) := fun n =>
        Url.not_mem_writePair (by decide) (by decide) (plain_formatD n).noPair
      have hcut := congrArg (Url.cut '&'.toUInt8) hquery
      simp only [sent, Url.writeQuery, Url.cut_append_cons (hpair _), Prod.mk.injEq] at hcut
      cases Host.ext hhost
      cases formatD_injective hport
      cases formatD_injective (List.tail_eq_of_cons_eq (List.append_cancel_left hcut.1))
      cases CString.ext (List.tail_eq_of_cons_eq (List.append_cancel_left hcut.2))
      rfl
    | delegatesGetByUsername _ _ _ => exact absurd hpath (by dsimp only [sent]; decide)
    | votersGetByDelegate _ _ _ => exact absurd hpath (by dsimp only [sent]; decide)

theorem sent_injective : Function.Injective sent := by
  intro c c' h
  exact eq_of_parts (congrArg Url.Parts.host h) (congrArg Url.Parts.port h)
    (congrArg Url.Parts.path h) (congrArg (fun parts => Url.writeQuery parts.query) h)

/-- The format of the three functions loses nothing. -/
theorem text_injective : Function.Injective text := by
  intro c c' h
  rw [text_eq, text_eq] at h
  -- the parts in front of the query are read back from the text
  have hread := congrArg Url.read h
  rw [Url.read_write c.delimited_sent, Url.read_write c'.delimited_sent,
    Url.Parts.mk.injEq] at hread
  obtain ⟨hhost, hport, hpath, -⟩ := hread
  rw [Url.write, Url.write, hhost, hport, hpath] at h
  have hauthority := List.tail_eq_of_cons_eq (List.append_cancel_left h)
  have hrest := List.tail_eq_of_cons_eq (List.append_cancel_left hauthority)
  exact eq_of_parts hhost hport hpath (List.tail_eq_of_cons_eq (List.append_cancel_left hrest))

/-- Two calls that send the same URL, of which nothing is cut off, are the same. -/
theorem eq_of_url_eq {c c' : QueryCall} (h : c.text.length ≤ 254) (h' : c'.text.length ≤ 254)
    (hurl : c.url = c'.url) : c = c' := by
  apply text_injective
  rw [← c.uncut_iff.mpr h, ← c'.uncut_iff.mpr h', hurl]

/-- Two calls that carry their arguments are told apart by whoever reads the URLs. -/
theorem eq_of_read_eq {c c' : QueryCall} (h : c.Carries) (h' : c'.Carries)
    (hread : Url.read c.url.bytes = Url.read c'.url.bytes) : c = c' := by
  apply sent_injective
  rw [← h.reads, ← h'.reads, hread]

/-- The URLs of the three functions: each sends its arguments as they are, as far as they fit
    into the buffer. They arrive unchanged exactly if the URL fits and the argument means
    itself; then different calls are different requests, and if only the URLs fit, different
    calls have different URLs. -/
theorem url_spec :
    (∀ (t : Target) (c : QueryCall),
      ∃ answer, ∀ get : Get, c.endpoint.run t get = get c.url >>= answer) ∧
    (∀ c : QueryCall, c.url.bytes = c.text.take 254 ∧
      (c.Carries ↔ c.text.length ≤ 254 ∧ Plain c.argument.bytes)) ∧
    (∀ c c' : QueryCall, c.Carries → c'.Carries →
      Url.read c.url.bytes = Url.read c'.url.bytes → c = c') ∧
    ∀ c c' : QueryCall, c.text.length ≤ 254 → c'.text.length ≤ 254 → c.url = c'.url → c = c' :=
  ⟨run_eq, fun c => ⟨c.url_bytes, c.carries_iff⟩, fun _ _ => eq_of_read_eq,
    fun _ _ => eq_of_url_eq⟩

/-- A node of the main network. -/
def node : Host where
  ip := .lit "5.39.9.240"
  noColon := by decide
  noSlash := by decide

/-- A name made of letters arrives. -/
theorem url_spec_letters :
    (delegatesGetByUsername node 4001 (.lit "biz")).Carries :=
  ((url_spec.2.1 _).2).mpr (by decide +kernel)

/-- A username of that many letters. -/
def longUsername (n : Nat) : CString where
  bytes := List.replicate n 'a'.toUInt8
  noNul := fun h => absurd (List.eq_of_mem_replicate h) (by decide)

/-- A username with a `&` is read as two pairs, and of two long ones the ends are cut off. -/
theorem not_carries :
    (¬ ∀ c : QueryCall, c.Carries) ∧ ¬ ∀ c c' : QueryCall, c ≠ c' → c.url ≠ c'.url := by
  constructor
  · intro h
    have hcarries := h (delegatesGetByUsername node 4001 (.lit "a&b"))
    revert hcarries
    decide +kernel
  · intro h
    -- the ends that are cut off are what tells them apart
    have hurl := h (delegatesGetByUsername node 4001 (longUsername 300))
      (delegatesGetByUsername node 4001 (longUsername 301)) (by decide +kernel)
    revert hurl
    decide +kernel

end QueryCall

end ArkInC.Native
