/-
The request parser of the HTTP inbound (`ParsedRequest::parse` of
`inbound/http.rs`) on a head as `read_http_head_with_remainder` returns it.

Parsing of an absolute URI is a parameter, with the parts of it the parser
reads.
-/
import Rove.Base.Lines
import Rove.Inbound.Target
import Rove.Util.HttpHead

namespace Rove.Inbound

open List Res

structure RequestError where
  status : String
  message : String
  deriving DecidableEq

/-- `RequestError` with status 400. -/
def badRequest (message : String) : RequestError := ⟨"400 Bad Request", message⟩

/-- `RequestError` with status 501. -/
def notImplemented (message : String) : RequestError := ⟨"501 Not Implemented", message⟩

structure Header where
  name : Str
  value : Str
  deriving DecidableEq

inductive RequestTarget where
  | connect
  | forward (originForm authority : Str)
  deriving DecidableEq

inductive RequestBody where
  | none
  | fixed (length : Nat)
  | chunked
  deriving DecidableEq

structure ParsedRequest where
  method : Str
  version : Str
  headers : List Header
  proxyAuthorization : Option Str
  host : Str
  port : Nat
  target : RequestTarget
  body : RequestBody
  connectionTokens : List Str
  deriving DecidableEq

/-- What the parser reads off a parsed `Url`. -/
structure Url where
  scheme : Str
  username : Str
  password : Option Str
  fragment : Option Str
  /-- The domain or the address, as it prints. -/
  host : Option Str
  portOrKnownDefault : Option Nat
  path : Str
  query : Option Str

/-! ## Headers -/

/-- A byte of a header name. -/
def isTokenByte (b : UInt8) : Bool :=
  (48 ≤ b && b ≤ 57) || (65 ≤ b && b ≤ 90) || (97 ≤ b && b ≤ 122) ||
    (utf8Bytes "!#$%&'*+-.^_\x60|~").contains b

def validHeaderName (name : Str) : Bool := name ≠ [] && (utf8Bytes name).all isTokenByte

def isControlByte (b : UInt8) : Bool :=
  b == 13 || b == 10 || b ≤ 0x08 || b == 0x0b || b == 0x0c || (0x0e ≤ b && b ≤ 0x1f) || b == 0x7f

def parseHeader (line : Str) : Except RequestError Header := do
  ensure (line.head? ≠ some ' ' ∧ line.head? ≠ some '\t') (badRequest "obsolete folded header is not supported")
  match Str.splitOnce ':' line with
  | none => .error (badRequest "malformed request header")
  | some (name, value) =>
    ensure (validHeaderName name) (badRequest "malformed request header name")
    let value := Str.trim value
    ensure ((utf8Bytes value).all (!isControlByte ·)) (badRequest "malformed request header value")
    pure ⟨name, value⟩

/-- The header loop, which passes over empty lines. -/
def parseHeaders (lines : List Str) : Except RequestError (List Header) := (lines.filter (· ≠ [])).mapM parseHeader

/-- The values of the headers of a name. -/
def valuesOf (name : String) (headers : List Header) : List Str :=
  (headers.filter fun h => Str.eqIgnoreAsciiCase h.name name.toList).map (·.value)

/-- The items of comma-separated values, in lower case. -/
def tokensOf (values : List Str) : List Str :=
  ((values.flatMap (·.splitOn ',')).map fun token => Str.toAsciiLowercase (Str.trim token)).filter (· ≠ [])

def connectionTokens (headers : List Header) : List Str := tokensOf (valuesOf "connection" headers)

/-- The checks between the header loop and the body. -/
def checkHeaders (headers : List Header) : Except RequestError Unit := do
  ensure ((valuesOf "proxy-authorization" headers).length ≤ 1) (badRequest "multiple proxy authorization headers")
  let tokens := connectionTokens headers
  ensure (valuesOf "upgrade" headers = [] ∧ "upgrade".toList ∉ tokens)
    (notImplemented "HTTP upgrade requires a CONNECT tunnel")
  ensure ("content-length".toList ∉ tokens ∧ "transfer-encoding".toList ∉ tokens)
    (badRequest "ambiguous request framing")

/-- The end of `parse_request_body`: what the content lengths say. -/
def bodyOfLengths (method : Str) : List Str → Except RequestError RequestBody
  | [] =>
    if ["post".toList, "put".toList, "patch".toList].contains (Str.toAsciiLowercase method) then
      .error ⟨"411 Length Required", "request body length is required"⟩
    else .ok .none
  | first :: rest =>
    if rest.any (· ≠ first) then .error (badRequest "conflicting content lengths")
    else
      match parseUnsigned 64 10 first with
      | none => .error (badRequest "invalid content length")
      | some length => .ok (if length = 0 then .none else .fixed length)

def parseRequestBody (method : Str) (headers : List Header) : Except RequestError RequestBody :=
  let contentLengths := (valuesOf "content-length" headers).map Str.trim
  let transferEncodings := tokensOf (valuesOf "transfer-encoding" headers)
  if contentLengths ≠ [] ∧ transferEncodings ≠ [] then .error (badRequest "ambiguous request body framing")
  else if transferEncodings ≠ [] then
    if transferEncodings.getLast? ≠ some "chunked".toList then .error (notImplemented "unsupported transfer encoding")
    else .ok .chunked
  else bodyOfLengths method contentLengths

/-! ## The target -/

def formatAuthority (host : Str) (port : Nat) : Str :=
  let host := if ':' ∈ host then '[' :: host ++ [']'] else host
  if port = 80 then host else host ++ ':' :: showNat port

/-- The target of a `CONNECT`. -/
def connectRequestTarget (rawTarget : Str) (body : RequestBody) :
    Except RequestError (Str × Nat × RequestTarget) := do
  ensure (body = .none) (badRequest "CONNECT request must not carry a body")
  match connectTarget rawTarget with
  | none => .error (badRequest "bad connect target")
  | some (host, port) => pure (host, port, .connect)

variable (parseUrl : Str → Option Url)

def forwardRequestTarget (rawTarget : Str) : Except RequestError (Str × Nat × RequestTarget) :=
  match parseUrl rawTarget with
  | none => .error ⟨"405 Method Not Allowed", "non-CONNECT requests require an absolute HTTP URI"⟩
  | some url => do
    ensure (url.scheme = "http" ∧ url.username = [] ∧ url.password = none ∧ url.fragment = none)
      (badRequest "unsupported absolute request target")
    match url.host, url.portOrKnownDefault with
    | none, _ => .error (badRequest "absolute request target has no host")
    | some _, none => .error (badRequest "absolute request target has no port")
    | some host, some port =>
      ensure (port ≠ 0) (badRequest "absolute request target has invalid port")
      let path := if url.path = [] then ['/'] else url.path
      let query := match url.query with
        | some query => '?' :: query
        | none => []
      pure (host, port, .forward (path ++ query) (formatAuthority host port))

def requestTarget (method rawTarget : Str) (body : RequestBody) : Except RequestError (Str × Nat × RequestTarget) :=
  if Str.eqIgnoreAsciiCase method "CONNECT" then connectRequestTarget rawTarget body
  else forwardRequestTarget parseUrl rawTarget

def parseRequestLine (line : Str) : Except RequestError (Str × Str × Str) :=
  match Str.splitWhitespace line with
  | [method, rawTarget, version] =>
    if version = "HTTP/1.0" ∨ version = "HTTP/1.1" then .ok (method, rawTarget, version)
    else .error (badRequest "malformed request line")
  | _ => .error (badRequest "malformed request line")

/-- `ParsedRequest::parse`, from the lines on. -/
def parseLines (lines : List Str) : Except RequestError ParsedRequest := do
  let (method, rawTarget, version) ← parseRequestLine (lines.headD [])
  let headers ← parseHeaders lines.tail
  checkHeaders headers
  let body ← parseRequestBody method headers
  let (host, port, target) ← requestTarget parseUrl method rawTarget body
  pure ⟨method, version, headers, (valuesOf "proxy-authorization" headers).head?, host, port, target, body,
    connectionTokens headers⟩

def ParsedRequest.parse (head : Bytes) : Except RequestError ParsedRequest :=
  match fromUtf8 head with
  | none => .error (badRequest "request header is not valid UTF-8")
  | some text =>
    parseLines parseUrl (Str.splitCrlf (if Str.blankEnd <:+ text then text.take (text.length - 4) else text))

/-! ## What is read -/

variable {ls : List Str} {headers : List Header}

theorem parse_lines {body} (hbody : Str.splitCrlf body = ls) :
    ParsedRequest.parse parseUrl (utf8Bytes (body ++ Str.blankEnd)) = parseLines parseUrl ls := by
  have hlen : (body ++ Str.blankEnd).length - 4 = body.length := by simp [Str.blankEnd]
  simp only [ParsedRequest.parse, fromUtf8_utf8Bytes, if_pos (suffix_append body Str.blankEnd), hlen,
    take_left, hbody]

theorem parse_joinCrlf (hne : ls ≠ []) (hls : ∀ l ∈ ls, Str.IsLine l ∧ l ≠ []) :
    ParsedRequest.parse parseUrl (utf8Bytes (Str.joinCrlf ls ++ ['\r', '\n'])) = parseLines parseUrl ls := by
  obtain ⟨body, hjoin, hsplit, -⟩ := Str.findSub_blankEnd hne hls []
  rw [hjoin, append_assoc]
  exact parse_lines parseUrl hsplit

theorem parseRequestLine_eq_ok {line method target version} :
    parseRequestLine line = .ok (method, target, version) ↔
      Str.splitWhitespace line = [method, target, version] ∧
        (version = "HTTP/1.0" ∨ version = "HTTP/1.1") := by
  unfold parseRequestLine
  split
  · next m t v hwords =>
    rw [hwords]
    by_cases hv : v = "HTTP/1.0" ∨ v = "HTTP/1.1"
    · rw [if_pos hv]
      refine ⟨fun h => ?_, fun h => ?_⟩
      · obtain ⟨rfl, rfl, rfl⟩ : m = method ∧ t = target ∧ v = version := by simpa using h
        exact ⟨rfl, hv⟩
      · obtain ⟨rfl, rfl, rfl⟩ : m = method ∧ t = target ∧ v = version := by simpa using h.1
        rfl
    · rw [if_neg hv]
      refine ⟨fun h => (nomatch h), fun h => ?_⟩
      obtain ⟨_, _, rfl⟩ : m = method ∧ t = target ∧ v = version := by simpa using h.1
      exact absurd h.2 hv
  · next hwords => exact ⟨fun h => (nomatch h), fun h => absurd h.1 (hwords _ _ _)⟩

theorem connectRequestTarget_eq_ok {target host body port kind} :
    connectRequestTarget target body = .ok (host, port, kind) ↔
      body = .none ∧ connectTarget target = some (host, port) ∧ kind = .connect := by
  unfold connectRequestTarget
  rw [ensure_bind_eq_ok]
  refine and_congr_right fun _ => ?_
  cases connectTarget target with
  | none => simp
  | some t =>
    obtain ⟨h, p⟩ := t
    simp only [pure_eq_ok, Prod.mk.injEq, Option.some.injEq, and_assoc]
    exact and_congr_right fun _ => and_congr_right fun _ => eq_comm

/-- What of a URL is asked of its own host. -/
def Url.originForm (url : Url) : Str :=
  (if url.path = [] then ['/'] else url.path) ++ match url.query with
    | some query => '?' :: query
    | none => []

/-- A request that is forwarded is one for the host and port of its URL. -/
theorem requestTarget_eq_forward {method rawTarget host port body originForm authority}
    (h : requestTarget parseUrl method rawTarget body = .ok (host, port, .forward originForm authority)) :
    ∃ url, parseUrl rawTarget = some url ∧ url.host = some host ∧ url.portOrKnownDefault = some port ∧
      originForm = url.originForm ∧ authority = formatAuthority host port := by
  rw [requestTarget] at h
  split at h
  · cases (connectRequestTarget_eq_ok.1 h).2.2
  · rw [forwardRequestTarget] at h
    split at h
    · cases h
    · next url hparse =>
      obtain ⟨-, h⟩ := ensure_bind_eq_ok.1 h
      split at h
      · cases h
      · cases h
      · next hhost hport =>
        obtain ⟨-, hok⟩ := ensure_bind_eq_ok.1 h
        obtain ⟨rfl, hpair⟩ := Prod.mk.inj (Except.ok.inj hok)
        obtain ⟨rfl, htarget⟩ := Prod.mk.inj hpair
        obtain ⟨rfl, rfl⟩ := RequestTarget.forward.inj htarget
        exact ⟨url, hparse, hhost, hport, rfl, rfl⟩

/-! ## Header blocks that are accepted -/

def headerOf (line : Str) : Header :=
  match Str.splitOnce ':' line with
  | some (name, value) => ⟨name, Str.trim value⟩
  | none => ⟨line, []⟩

/-- A line that is a header: a name of token characters, a colon and a value
without control characters. -/
def IsHeaderLine (line : Str) : Prop :=
  line.head? ≠ some ' ' ∧ line.head? ≠ some '\t' ∧ ':' ∈ line ∧ validHeaderName (headerOf line).name = true ∧
    (utf8Bytes (headerOf line).value).all (!isControlByte ·) = true

theorem toNat_of_isControlByte {b} (h : isControlByte b = true) : b.toNat < 0x20 ∨ b.toNat = 0x7f := by
  simp only [isControlByte, Bool.or_eq_true, Bool.and_eq_true, beq_iff_eq, decide_eq_true_eq, UInt8.le_iff_toNat_le,
    ← UInt8.toNat_inj, UInt8.reduceToNat] at h
  omega

theorem all_not_isControlByte {s} (h : ∀ c ∈ s, 0x20 ≤ c.toNat ∧ c.toNat ≠ 0x7f) :
    (utf8Bytes s).all (!isControlByte ·) = true := by
  rw [all_eq_true]
  intro b hb
  rw [Bool.not_eq_true', Bool.eq_false_iff]
  intro hcontrol
  obtain ⟨c, hc, hmem⟩ := mem_flatMap.1 hb
  have hrange := toNat_of_isControlByte hcontrol
  have heq := toNat_eq_of_mem_encode (by omega) hmem
  have := h c hc
  omega

theorem valuesOf_eq_nil {name}
    (h : ∀ header ∈ headers, Str.eqIgnoreAsciiCase header.name name.toList = false) : valuesOf name headers = [] := by
  rw [valuesOf, filter_eq_nil_iff.2 fun header hm => by simp [h header hm]]
  rfl

theorem parseHeader_eq_ok {line h} : parseHeader line = .ok h ↔ IsHeaderLine line ∧ h = headerOf line := by
  unfold parseHeader IsHeaderLine headerOf
  rw [ensure_bind_eq_ok]
  by_cases hcolon : ':' ∈ line
  · obtain ⟨name, value, _, _, hsplit⟩ := Str.exists_splitOnce hcolon
    simp only [hsplit, ensure_bind_eq_ok, pure_eq_ok, hcolon, true_and, and_assoc, @eq_comm _ h]
  · simp [Str.splitOnce_eq_none hcolon, hcolon]

theorem parseHeaders_eq_ok {lines} (hne : ∀ l ∈ lines, l ≠ []) :
    parseHeaders lines = .ok headers ↔ (∀ l ∈ lines, IsHeaderLine l) ∧ headers = lines.map headerOf := by
  rw [parseHeaders, filter_eq_self.2 (by simpa using hne)]
  clear hne
  induction lines generalizing headers with
  | nil => exact ⟨fun h => ⟨by simp, (Except.ok.inj h).symm⟩, fun h => by rw [h.2]; rfl⟩
  | cons l ls ih =>
    simp only [mapM_cons, bind_eq_ok, parseHeader_eq_ok, ih, pure_eq_ok, forall_mem_cons,
      map_cons]
    refine ⟨fun h => ?_, fun h => ?_⟩
    · obtain ⟨_, ⟨hl, rfl⟩, _, ⟨hls, rfl⟩, rfl⟩ := h
      exact ⟨⟨hl, hls⟩, rfl⟩
    · exact ⟨_, ⟨h.1.1, rfl⟩, _, ⟨h.1.2, rfl⟩, h.2.symm⟩

theorem checkHeaders_eq_ok :
    checkHeaders headers = .ok () ↔
      (valuesOf "proxy-authorization" headers).length ≤ 1 ∧ valuesOf "upgrade" headers = [] ∧
        ∀ token ∈ connectionTokens headers,
          token ≠ "upgrade" ∧ token ≠ "content-length" ∧ token ≠ "transfer-encoding" := by
  simp only [checkHeaders, ensure_bind_eq_ok, ensure_eq_ok]
  refine ⟨fun h => ⟨h.1, h.2.1.1, fun token ht => ?_⟩, fun h => ⟨h.1, ⟨h.2.1, fun ht => (h.2.2 _ ht).1 rfl⟩,
    fun ht => (h.2.2 _ ht).2.1 rfl, fun ht => (h.2.2 _ ht).2.2 rfl⟩⟩
  exact ⟨fun he => h.2.1.2 (he ▸ ht), fun he => h.2.2.1 (he ▸ ht), fun he => h.2.2.2 (he ▸ ht)⟩

/-! ## A head that is accepted -/

def headerLines (text : Str) : List Str := (Str.splitCrlf text).tail.filter (· ≠ [])

/-- A request and the text it was read off. -/
structure ParsedFrom (text rawTarget : Str) (request : ParsedRequest) : Prop where
  words : Str.splitWhitespace ((Str.splitCrlf text).headD []) = [request.method, rawTarget, request.version]
  version : request.version = "HTTP/1.0" ∨ request.version = "HTTP/1.1"
  lines : ∀ l ∈ headerLines text, IsHeaderLine l
  headers : request.headers = (headerLines text).map headerOf
  checked : checkHeaders request.headers = .ok ()
  body : parseRequestBody request.method request.headers = .ok request.body
  target : requestTarget parseUrl request.method rawTarget request.body =
    .ok (request.host, request.port, request.target)
  tokens : request.connectionTokens = connectionTokens request.headers

theorem splitCrlf_stripped (text : Str) :
    ∃ blank, (∀ l ∈ blank, l = []) ∧
      Str.splitCrlf text =
        Str.splitCrlf (if Str.blankEnd <:+ text then text.take (text.length - 4) else text) ++ blank := by
  split
  · next hend =>
    obtain ⟨body, rfl⟩ := hend
    have hbody : (body ++ Str.blankEnd).take ((body ++ Str.blankEnd).length - 4) = body := by
      rw [length_append]
      exact take_left' rfl
    rw [hbody]
    exact ⟨[[], []], by simp, Str.splitCrlf_append_crlf body _⟩
  · exact ⟨[], by simp, (append_nil _).symm⟩

theorem parse_eq_ok {head request} (h : ParsedRequest.parse parseUrl head = .ok request) :
    ∃ text rawTarget, head = utf8Bytes text ∧ ParsedFrom parseUrl text rawTarget request := by
  rw [ParsedRequest.parse] at h
  split at h
  · cases h
  · next text htext =>
    obtain ⟨blank, hblank, hsplit⟩ := splitCrlf_stripped text
    obtain ⟨l, ls, hlines⟩ := Str.exists_splitCrlf (if Str.blankEnd <:+ text then text.take (text.length - 4) else text)
    rw [hlines] at h hsplit
    rw [parseLines] at h
    simp only [bind_eq_ok] at h
    obtain ⟨⟨method, rawTarget, version⟩, hline, headers, hheaders, _, hcheck, body, hbody,
      ⟨host, port, target⟩, htarget, hr⟩ := h
    cases hr
    obtain ⟨hwords, hversion⟩ := parseRequestLine_eq_ok.1 hline
    have hkept : headerLines text = ls.filter (· ≠ []) := by
      have hnone : blank.filter (· ≠ []) = [] := filter_eq_nil_iff.2 fun l hl => by simp [hblank l hl]
      rw [headerLines, hsplit, cons_append, tail_cons, filter_append, hnone, append_nil]
    have hparsed : parseHeaders (headerLines text) = .ok headers := by
      rw [parseHeaders, hkept, filter_filter]
      simpa [parseHeaders] using hheaders
    obtain ⟨hall, hmap⟩ := (parseHeaders_eq_ok fun l hl => by simpa using (mem_filter.1 hl).2).1 hparsed
    refine ⟨text, rawTarget, fromUtf8_eq_some_iff.1 htext, ⟨?_, hversion, hall, hmap, hcheck, hbody, htarget, rfl⟩⟩
    rw [hsplit]
    exact hwords

end Rove.Inbound
