/-
The head that is forwarded, against the one the client sent. A recipient takes it
apart again (`readMessage`), and `forwarded_head_well_formed_iff` says what it finds:
the client's request for the host and port that were decided on, its own fields in
order without those of the hop, and no line of the client's making.

Names and values of fields are checked by the parser and the target is written by
the `url` crate. The method is forwarded as it came.
-/
import Rove.Inbound.Framing

namespace Rove.Inbound

open List

/-! ## The head as a recipient reads it -/

structure Message where
  method : Str
  target : Str
  version : Str
  fields : List Header
  deriving DecidableEq

/-- Three parts with one space between them. -/
def readRequestLine (line : Str) : Option (Str × Str × Str) := do
  let (method, rest) ← Str.splitOnce ' ' line
  let (target, version) ← Str.splitOnce ' ' rest
  if ' ' ∈ version then none else some (method, target, version)

/-- A head of lines that end in CRLF, with a blank line at its end and nowhere else. -/
def readMessage (head : Bytes) : Option Message := do
  let text ← fromUtf8 head
  let lines := Str.headLines text
  if text ≠ Str.joinCrlf lines ++ ['\r', '\n'] ∨ lines.tail.any (':' ∉ ·) then none
  else
    let (method, target, version) ← readRequestLine (lines.headD [])
    some ⟨method, target, version, lines.tail.map fieldOf⟩

def readPort (s : Str) : Option Nat := if s = [] then none else ofDigits 10 0 s

/-- A host without brackets, and its port. -/
def readPlainAuthority (s : Str) : Option (Str × Nat) :=
  match Str.splitOnce ':' s with
  | none => some (s, 80)
  | some (host, port) => (readPort port).map (host, ·)

/-- The host and port a `Host` field names, for plain HTTP. -/
def readAuthority : Str → Option (Str × Nat)
  | '[' :: s =>
    match Str.splitOnce ']' s with
    | some (host, []) => some (host, 80)
    | some (host, ':' :: port) => (readPort port).map (host, ·)
    | _ => none
  | s => readPlainAuthority s

/-- Neither a space nor a control character. -/
def isVisible (c : Char) : Bool := !Str.isWhitespace c && decide (0x20 < c.toNat) && decide (c.toNat ≠ 0x7f)

/-- A head in the grammar of HTTP/1.1. -/
structure Message.WellFormed (m : Message) : Prop where
  method : validHeaderName m.method = true
  target : m.target ≠ [] ∧ ∀ c ∈ m.target, isVisible c = true
  version : m.version = "HTTP/1.0" ∨ m.version = "HTTP/1.1"
  name : ∀ field ∈ m.fields, validHeaderName field.name = true
  value : ∀ field ∈ m.fields, (utf8Bytes field.value).all (!isControlByte ·) = true

/-- What the `url` crate makes sure of: no space and no control character in a
path, a query or a host, and no bracket in a host. -/
structure UrlsVisible (parseUrl : Str → Option Url) : Prop where
  path : ∀ {target url}, parseUrl target = some url → ∀ c ∈ url.path, isVisible c = true
  query : ∀ {target url query}, parseUrl target = some url → url.query = some query → ∀ c ∈ query, isVisible c = true
  host : ∀ {target url host}, parseUrl target = some url → url.host = some host →
    ∀ c ∈ host, isVisible c = true ∧ c ≠ '[' ∧ c ≠ ']'

/-! ## What the client asked for -/

def textOf (head : Bytes) : Str := (fromUtf8 head).getD []

def wordsOf (head : Bytes) : List Str := Str.splitWhitespace ((Str.splitCrlf (textOf head)).headD [])

/-- The client's fields, in order and with their values trimmed. -/
def clientFields (head : Bytes) : List Header := (headerLines (textOf head)).map headerOf

/-- A head that was written for a request: its own method and version, the target
without the host, one `Host` for the host and port asked for, one `Connection`,
nothing for the hop, and every other field of the client that its `Connection`
does not name. -/
structure Rewrites (parseUrl : Str → Option Url) (client : Bytes) (request : ParsedRequest) (m : Message) : Prop where
  words : ∃ rawTarget url, wordsOf client = [m.method, rawTarget, m.version] ∧ parseUrl rawTarget = some url ∧
    m.target = url.originForm ∧ url.host = some request.host ∧ url.portOrKnownDefault = some request.port
  host : ∃ authority, valuesOf "host" m.fields = [authority] ∧
    readAuthority authority = some (request.host, request.port)
  connection : valuesOf "connection" m.fields = ["close".toList]
  hop : ∀ name ∈ ["proxy-authorization", "proxy-connection", "keep-alive", "upgrade"], valuesOf name m.fields = []
  named : ∀ field ∈ m.fields, Str.toAsciiLowercase field.name ∈ connectionTokens (clientFields client) →
    Str.toAsciiLowercase field.name = "host" ∨ Str.toAsciiLowercase field.name = "connection"
  others : ∃ host close, m.fields = host :: ((clientFields client).filter (fun field =>
    Str.toAsciiLowercase field.name ∉ connectionTokens (clientFields client) ∧ Str.toAsciiLowercase field.name ∉
      ["host", "proxy-authorization", "proxy-connection", "connection", "keep-alive", "upgrade"].map String.toList) ++
        [close])

/-! ## Reading it back -/

theorem isVisible_iff {c} : isVisible c = true ↔ Str.isWhitespace c = false ∧ 0x20 < c.toNat ∧ c.toNat ≠ 0x7f := by
  simp [isVisible, and_assoc]

theorem UrlsVisible.oneLine {parseUrl} (hurl : UrlsVisible parseUrl) : UrlsOneLine parseUrl := by
  intro target url hparse
  refine ⟨fun hmem => ?_, fun query hquery hmem => ?_, fun host hhost hmem => ?_⟩
  · exact absurd (hurl.path hparse _ hmem) (by decide)
  · exact absurd (hurl.query hparse hquery _ hmem) (by decide)
  · exact absurd (hurl.host hparse hhost _ hmem).1 (by decide)

theorem UrlsVisible.originForm {parseUrl} (hurl : UrlsVisible parseUrl) {target url}
    (hparse : parseUrl target = some url) : url.originForm ≠ [] ∧ ∀ c ∈ url.originForm, isVisible c = true := by
  rw [Url.originForm]
  refine ⟨?_, forall_mem_append.2 ⟨?_, ?_⟩⟩
  · split
    · simp
    · next hne => exact append_ne_nil_of_left_ne_nil hne _
  · split
    · exact forall_mem_singleton.2 (by decide)
    · exact hurl.path hparse
  · split
    · next query hquery => exact forall_mem_cons.2 ⟨by decide, hurl.query hparse hquery⟩
    · simp

theorem visible_formatAuthority {host} (h : ∀ c ∈ host, isVisible c = true) (port : Nat) :
    ∀ c ∈ formatAuthority host port, isVisible c = true := by
  have hport : ∀ c ∈ showNat port, isVisible c = true := fun c hc => by
    have hdigit := isDigit_of_mem_showNat hc
    exact isVisible_iff.2 ⟨isWhitespace_of_mem_showNat hc, by omega, by omega⟩
  have hbare : ∀ c ∈ (if ':' ∈ host then '[' :: host ++ [']'] else host), isVisible c = true := by
    split
    · exact forall_mem_append.2 ⟨forall_mem_cons.2 ⟨by decide, h⟩, forall_mem_singleton.2 (by decide)⟩
    · exact h
  rw [formatAuthority]
  split
  · exact hbare
  · exact forall_mem_append.2 ⟨hbare, forall_mem_cons.2 ⟨by decide, hport⟩⟩

theorem readPort_showNat (port : Nat) : readPort (showNat port) = some port := by
  rw [readPort, if_neg (showNat_ne_nil port), ofDigits_showNat]

theorem readAuthority_of_head {s} (h : s.head? ≠ some '[') :
    readAuthority s = readPlainAuthority s := by
  unfold readAuthority
  split
  · exact absurd rfl h
  · rfl

theorem readAuthority_formatAuthority {host} (h : ∀ c ∈ host, c ≠ '[' ∧ c ≠ ']') (port : Nat) :
    readAuthority (formatAuthority host port) = some (host, port) := by
  rw [formatAuthority]
  by_cases hcolon : ':' ∈ host
  · have hend : ']' ∉ host := fun hmem => (h _ hmem).2 rfl
    split
    · next hport =>
      rw [cons_append, readAuthority, Str.splitOnce_append [] hend, hport]
    · rw [cons_append, cons_append, append_assoc, singleton_append, readAuthority, Str.splitOnce_append _ hend]
      simp [readPort_showNat]
  · have hhead : ∀ t, t.head? ≠ some '[' → (host ++ t).head? ≠ some '[' := by
      intro t ht
      cases host with
      | nil => exact ht
      | cons c host => exact fun hc => (h c mem_cons_self).1 (Option.some.inj hc)
    split
    · next hport =>
      rw [readAuthority_of_head (append_nil host ▸ hhead [] (by simp)), readPlainAuthority,
        Str.splitOnce_eq_none hcolon, hport]
    · rw [readAuthority_of_head (hhead _ (by simp)), readPlainAuthority, Str.splitOnce_append _ hcolon]
      simp [readPort_showNat]

theorem valuesOf_filter_hop {name} (hname : Str.toAsciiLowercase name.toList ∈ hopHeaders) (tokens : List Str)
    (headers : List Header) : valuesOf name (headers.filter (isForwarded tokens)) = [] := by
  refine valuesOf_eq_nil fun header hmem => ?_
  have hforwarded := (mem_filter.1 hmem).2
  rw [Str.eqIgnoreAsciiCase, beq_eq_false_iff_ne]
  intro heq
  simp [isForwarded, heq, hname] at hforwarded

/-- The message that is written for a request. -/
def ParsedRequest.message (request : ParsedRequest) (originForm authority : Str) : Message :=
  ⟨request.method, originForm, request.version, ⟨"Host", authority⟩ ::
    (request.headers.filter (isForwarded request.connectionTokens) ++ [⟨"Connection", "close"⟩])⟩

theorem valuesOf_message {name} (hname : Str.toAsciiLowercase name.toList ∈ hopHeaders) (request : ParsedRequest)
    (originForm authority : Str) :
    valuesOf name (request.message originForm authority).fields =
      valuesOf name [⟨"Host", authority⟩] ++ valuesOf name [⟨"Connection", "close"⟩] := by
  rw [ParsedRequest.message, ← singleton_append, valuesOf_append, valuesOf_append,
    valuesOf_filter_hop hname, nil_append]

section
variable {parseUrl : Str → Option Url} {head : Bytes} {request : ParsedRequest} {originForm authority : Str}

/-- The parts of a request line are taken apart where they were put together. -/
theorem readRequestLine_join {method target version} (hmethod : ' ' ∉ method) (htarget : ' ' ∉ target)
    (hversion : ' ' ∉ version) :
    readRequestLine (method ++ ' ' :: (target ++ ' ' :: version)) = some (method, target, version) := by
  rw [readRequestLine, Str.splitOnce_append _ hmethod, Option.bind_eq_bind, Option.bind_some]
  dsimp only
  rw [Str.splitOnce_append _ htarget, Option.bind_some]
  exact if_neg hversion

theorem readMessage_forwardHead (h : Forwardable request originForm authority) (hmethod : ' ' ∉ request.method)
    (horigin : ' ' ∉ originForm) (hversion : ' ' ∉ request.version) (hauthority : ∀ c ∈ authority, isVisible c = true) :
    readMessage (request.forwardHead originForm authority) = some (request.message originForm authority) := by
  have hlines := Str.headLines_joinCrlf (isLine_of_mem_forwardLines h)
  have htrim : Str.trimBy isOws authority = authority :=
    Str.trimBy_eq_self (fun c hc => isOws_of_not_isWhitespace (isVisible_iff.1 (hauthority c (mem_of_head? hc))).1)
      fun c hc => isOws_of_not_isWhitespace (isVisible_iff.1 (hauthority c (mem_of_getLast? hc))).1
  have hfields := fieldsOf_forwardHead h
  rw [fieldsOf, ParsedRequest.forwardHead, buildForwardHead, fromUtf8_utf8Bytes] at hfields
  dsimp only at hfields
  rw [hlines, htrim] at hfields
  have hcolon : (forwardLines request.method request.version request.headers request.connectionTokens
      originForm authority).tail.any
      (':' ∉ ·) = false := by
    simp [forwardLines, Header.line]
  rw [readMessage, ParsedRequest.forwardHead, buildForwardHead, fromUtf8_utf8Bytes,
    Option.bind_eq_bind, Option.bind_some]
  dsimp only
  rw [hlines, hfields, hcolon, if_neg (by simp), forwardLines, headD_cons,
    readRequestLine_join hmethod horigin hversion]
  rfl

/-- The lines of the head have no other line end in them. -/
def OneLineEach (head : Bytes) : Prop := ∀ l ∈ Str.headLines (textOf head), '\r' ∉ l ∧ '\n' ∉ l

theorem not_mem_validHeaderName {name} (h : validHeaderName name = true) : '\r' ∉ name ∧ '\n' ∉ name := by
  rw [validHeaderName, Bool.and_eq_true, all_eq_true] at h
  exact ⟨not_mem_of_utf8Bytes (by decide) fun hmem => absurd (h.2 _ hmem) (by decide),
    not_mem_of_utf8Bytes (by decide) fun hmem => absurd (h.2 _ hmem) (by decide)⟩

theorem not_mem_value {value} (h : (utf8Bytes value).all (!isControlByte ·) = true) : '\r' ∉ value ∧ '\n' ∉ value := by
  rw [all_eq_true] at h
  exact ⟨not_mem_of_utf8Bytes (by decide) fun hmem => absurd (h _ hmem) (by decide),
    not_mem_of_utf8Bytes (by decide) fun hmem => absurd (h _ hmem) (by decide)⟩

theorem not_mem_visible {s : Str} (h : ∀ c ∈ s, Str.isWhitespace c = false) : '\r' ∉ s ∧ '\n' ∉ s ∧ ' ' ∉ s :=
  ⟨fun hmem => absurd (h _ hmem) (by decide), fun hmem => absurd (h _ hmem) (by decide),
    fun hmem => absurd (h _ hmem) (by decide)⟩

theorem validHeader_of_mem {text rawTarget} (hfrom : ParsedFrom parseUrl text rawTarget request) :
    ∀ header ∈ request.headers,
      validHeaderName header.name = true ∧ (utf8Bytes header.value).all (!isControlByte ·) = true := by
  intro header hmem
  rw [hfrom.headers] at hmem
  obtain ⟨l, hl, rfl⟩ := mem_map.1 hmem
  exact (hfrom.lines l hl).2.2.2

theorem oneLineEach_forwardHead {text rawTarget : Str} (hfrom : ParsedFrom parseUrl text rawTarget request)
    (h : Forwardable request originForm authority) (horigin : ∀ c ∈ originForm, isVisible c = true)
    (hauthority : ∀ c ∈ authority, isVisible c = true) : OneLineEach (request.forwardHead originForm authority) := by
  have hmethod := not_mem_visible fun c hc =>
    Str.isWhitespace_of_mem_word (hfrom.words ▸ mem_cons_self : request.method ∈ _) hc
  have htarget := not_mem_visible fun c hc => (isVisible_iff.1 (horigin c hc)).1
  have hhost := not_mem_visible fun c hc => (isVisible_iff.1 (hauthority c hc)).1
  have hversion : '\r' ∉ request.version ∧ '\n' ∉ request.version := by
    rcases hfrom.version with hv | hv <;> rw [hv] <;> decide
  rw [OneLineEach, textOf, ParsedRequest.forwardHead, buildForwardHead, fromUtf8_utf8Bytes, Option.getD_some,
    Str.headLines_joinCrlf (isLine_of_mem_forwardLines h), forwardLines, forall_mem_cons, forall_mem_cons,
    forall_mem_append, forall_mem_map]
  refine ⟨?_, ?_, fun header hmem => ?_, ?_⟩
  · simp [hmethod, htarget, hversion]
  · simp [Header.line, hhost]
  · obtain ⟨hname, hvalue⟩ := validHeader_of_mem hfrom header (mem_filter.1 hmem).1
    simp [Header.line, not_mem_validHeaderName hname, not_mem_value hvalue]
  · decide

theorem rewrites_message {text rawTarget} (hhead : head = utf8Bytes text)
    (hfrom : ParsedFrom parseUrl text rawTarget request) {url} (hparse : parseUrl rawTarget = some url)
    (hhost : url.host = some request.host)
    (hport : url.portOrKnownDefault = some request.port) (hplain : ∀ c ∈ request.host, c ≠ '[' ∧ c ≠ ']') :
    Rewrites parseUrl head request (request.message url.originForm (formatAuthority request.host request.port)) := by
  have htext : textOf head = text := by rw [textOf, hhead, fromUtf8_utf8Bytes, Option.getD_some]
  have hfields : clientFields head = request.headers := by rw [clientFields, htext, hfrom.headers]
  have htokens : connectionTokens (clientFields head) = request.connectionTokens := by rw [hfields, hfrom.tokens]
  refine ⟨⟨rawTarget, url, ?_, hparse, rfl, hhost, hport⟩,
    ⟨_, ?_, readAuthority_formatAuthority hplain _⟩, ?_, ?_, ?_, ?_⟩
  · rw [wordsOf, htext]
    exact hfrom.words
  · rw [valuesOf_message (by decide)]
    rfl
  · rw [valuesOf_message (by decide)]
    rfl
  · intro name hmem
    simp only [mem_cons, not_mem_nil, or_false] at hmem
    rcases hmem with rfl | rfl | rfl | rfl <;>
    · rw [valuesOf_message (by decide)]
      rfl
  · intro field hmem hnamed
    rw [htokens] at hnamed
    rcases mem_cons.1 hmem with rfl | hmem
    · exact .inl (show Str.toAsciiLowercase "Host" = _ by decide)
    rcases mem_append.1 hmem with hmem | hmem
    · have hforwarded := (mem_filter.1 hmem).2
      simp [isForwarded, hnamed] at hforwarded
    · rw [mem_singleton.1 hmem]
      exact .inr (by decide)
  · rw [htokens, hfields]
    refine ⟨_, _, congrArg (_ :: · ++ _) (filter_congr fun field _ => ?_)⟩
    have hhop : hopHeaders =
        ["host", "proxy-authorization", "proxy-connection", "connection", "keep-alive", "upgrade"].map String.toList :=
          rfl
    rw [← hhop]
    simp [isForwarded, and_comm]

/-- For every request that is accepted and forwarded the head reads back as the
client's request, rewritten, and each of its lines is one line; it is in the grammar
of HTTP/1.1 exactly when the client's method is a token. -/
theorem forwarded_head_well_formed_iff (hurl : UrlsVisible parseUrl)
    (hparse : ParsedRequest.parse parseUrl head = .ok request)
    (htarget : request.target = .forward originForm authority) :
    ((∃ m, readMessage (request.forwardHead originForm authority) = some m ∧ Rewrites parseUrl head request m ∧
        OneLineEach (request.forwardHead originForm authority) ∧ m.WellFormed) ↔
      validHeaderName ((wordsOf head).headD []) = true) ∧
    ∃ m, readMessage (request.forwardHead originForm authority) = some m ∧ Rewrites parseUrl head request m ∧
      OneLineEach (request.forwardHead originForm authority) := by
  have h := forwardable_of_parse hurl.oneLine hparse htarget
  obtain ⟨text, rawTarget, hhead, hfrom⟩ := parse_eq_ok parseUrl hparse
  have hrequest := hfrom.target
  rw [htarget] at hrequest
  obtain ⟨url, hsome, hhost, hport, rfl, rfl⟩ := requestTarget_eq_forward parseUrl hrequest
  have horigin := hurl.originForm hsome
  have hauthority := visible_formatAuthority (fun c hc => (hurl.host hsome hhost c hc).1) request.port
  have hmethod := not_mem_visible fun c hc =>
    Str.isWhitespace_of_mem_word (hfrom.words ▸ mem_cons_self : request.method ∈ _) hc
  have hversion : ' ' ∉ request.version := by
    rcases hfrom.version with hv | hv <;> rw [hv] <;> decide
  have hread := readMessage_forwardHead h hmethod.2.2
    (not_mem_visible fun c hc => (isVisible_iff.1 (horigin.2 c hc)).1).2.2 hversion hauthority
  have hrewrites := rewrites_message hhead hfrom hsome hhost hport fun c hc => (hurl.host hsome hhost c hc).2
  have hlines := oneLineEach_forwardHead hfrom h horigin.2 hauthority
  have hword : (wordsOf head).headD [] = request.method := by
    obtain ⟨_, _, hwords, -⟩ := hrewrites.words
    rw [hwords]
    rfl
  refine ⟨⟨?_, fun htoken => ⟨_, hread, hrewrites, hlines, ?_⟩⟩, _, hread, hrewrites, hlines⟩
  · rintro ⟨m, hm, -, -, hwell⟩
    obtain rfl := Option.some.inj (hread.symm.trans hm)
    rw [hword]
    exact hwell.method
  · have hvalid := validHeader_of_mem hfrom
    rw [hword] at htoken
    refine ⟨htoken, horigin, hfrom.version, ?_, ?_⟩
    · refine forall_mem_cons.2 ⟨show validHeaderName "Host" = true by decide,
        forall_mem_append.2 ⟨fun header hmem => ?_, by decide⟩⟩
      exact (hvalid header (mem_filter.1 hmem).1).1
    · refine forall_mem_cons.2 ⟨all_not_isControlByte fun c hc => ?_,
        forall_mem_append.2 ⟨fun header hmem => ?_, by decide⟩⟩
      · have hc' := isVisible_iff.1 (hauthority c hc)
        omega
      · exact (hvalid header (mem_filter.1 hmem).1).2

end

theorem oneUrl_visible : UrlsVisible oneUrl := by
  constructor
  · intro target url hparse
    cases hparse
    exact forall_mem_singleton.2 (by decide)
  · intro target url query hparse hquery
    cases hparse
    cases hquery
  · intro target url host hparse hhost
    cases hparse
    cases hhost
    have hall : ("a.example".toList.all fun c => isVisible c && c != '[' && c != ']') = true := by decide
    simpa [and_assoc] using all_eq_true.1 hall

theorem forwarded_head_well_formed_plain :
    let request := postRequest "HTTP/1.1" [⟨"Content-Length", "5"⟩] (.fixed 5)
    ∃ m, readMessage (request.forwardHead "/" "a.example") = some m ∧
      Rewrites oneUrl (postHead "HTTP/1.1" ["Content-Length: 5"]) request m ∧
      OneLineEach (request.forwardHead "/" "a.example") ∧ m.WellFormed :=
  (forwarded_head_well_formed_iff oneUrl_visible parse_plain rfl).1.2 (by decide +kernel)

/-- A request line with a control character in its method. -/
def controlLine : Str := "G\x01T http://a.example/ HTTP/1.1"

/-- It is accepted, and the control character goes into the head that is forwarded. -/
theorem control_method_forwarded :
    ∃ request m, ParsedRequest.parse oneUrl (utf8Bytes (Str.joinCrlf [controlLine] ++ ['\r', '\n'])) = .ok request ∧
      request.target = .forward "/" "a.example" ∧
      readMessage (request.forwardHead "/" "a.example") = some m ∧ m.method = "G\x01T" ∧ ¬ m.WellFormed := by
  have hlines : ∀ l ∈ [controlLine], Str.IsLine l ∧ l ≠ [] :=
    forall_mem_singleton.2 ⟨Str.isLine_of_not_mem (by decide), by decide⟩
  refine ⟨⟨"G\x01T", "HTTP/1.1", [], none, "a.example", 80, .forward "/" "a.example", .none, []⟩,
    ⟨"G\x01T", "/", "HTTP/1.1",
      [⟨"Host", "a.example"⟩, ⟨"Connection", "close"⟩]⟩,
    (parse_joinCrlf oneUrl (by simp) hlines).trans (by decide +kernel), rfl, by decide +kernel, rfl, fun hwell => ?_⟩
  exact absurd hwell.method (by decide)

end Rove.Inbound
