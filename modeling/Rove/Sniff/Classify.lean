/-
`classify_prefix` of `sniff.rs`: what protocol the first bytes of a stream are
of, and which host they name.

The TLS acceptor and `httparse` are parameters that carry what is assumed of
them. An acceptor answers by the bytes it was given, however they were cut, and
an answer stays when more bytes follow; it holds a bounded number of them. The
HTTP parser passes over leading line ends, and a head that starts with a method
and ends in a blank line is settled there.
-/
import Rove.Inbound.HttpRequest
import Rove.Sniff.Host

namespace Rove.Sniff

inductive SniffProtocol where
  | tls
  | http
  deriving DecidableEq

structure SniffedHost where
  protocol : SniffProtocol
  host : Str
  deriving DecidableEq

inductive SniffResult where
  | matched (value : SniffedHost)
  | needMore
  | unsupported
  | malformed
  | limitExceeded
  deriving DecidableEq

def hardMaxSniffBytes : Nat := 64 * 1024

/-! ## TLS -/

/-- What `Acceptor::accept` says: more bytes are needed, an error, or a
ClientHello with its server name. -/
inductive TlsAnswer where
  | more
  | failed
  | hello (serverName : Option Str)

/-- `rustls::server::Acceptor`, by the bytes it was given. -/
structure Acceptor where
  /-- The bytes it holds at most. -/
  capacity : Nat
  /-- How many of the bytes offered `read_tls` takes. -/
  take : Bytes → Bytes → Nat
  accept : Bytes → TlsAnswer
  capacity_pos : 0 < capacity
  take_pos : ∀ {given offered}, given.length < capacity → offered ≠ [] → 0 < take given offered
  take_le : ∀ given offered, take given offered ≤ offered.length ∧
    given.length + take given offered ≤ max given.length capacity
  accept_append : ∀ {given}, accept given ≠ .more → ∀ later, accept (given ++ later) = accept given

/-- How reading a ClientHello ends. -/
inductive TlsVerdict where
  | malformed
  | hello (serverName : Option Str)

/-- The loop of `classify_tls` and `observe_tls_incremental` over the bytes of a
cursor; no verdict when they are used up. -/
def Acceptor.run (acceptor : Acceptor) (given offered : Bytes) : Option TlsVerdict × Bytes :=
  if acceptor.capacity ≤ given.length then (some .malformed, given)
  else
    let n := acceptor.take given offered
    match acceptor.accept (given ++ offered.take n) with
    | .hello serverName => (some (.hello serverName), given ++ offered.take n)
    | .failed => (some .malformed, given ++ offered.take n)
    | .more => if _h : n = 0 then (none, given) else acceptor.run (given ++ offered.take n) (offered.drop n)
termination_by offered.length
decreasing_by
  have := (acceptor.take_le given offered).1
  rw [List.length_drop]
  omega

/-! ## HTTP -/

/-- `httparse::Status` of a request, or an error. -/
inductive HttpStatus where
  | incomplete
  | error
  | complete (request : HttpRequest)

/-- A byte that `httparse` and `could_be_http` take as the start of a method. -/
def isHttpTokenByte (b : UInt8) : Bool := Inbound.isTokenByte b

/-- The bytes without line ends in front. -/
def skipCrlf : Bytes → Bytes
  | a :: b :: rest => if a = 13 ∧ b = 10 then skipCrlf rest else a :: b :: rest
  | bytes => bytes

/-- `httparse::Request::parse`, with room for 64 headers. -/
structure HttpParser where
  parse : Bytes → HttpStatus
  parse_crlf : ∀ bytes, parse (Util.crlf ++ bytes) = parse bytes
  /-- A head that starts with a method is settled by its first blank line. -/
  parse_head : ∀ {b bytes i}, isHttpTokenByte b = true → findSub Util.headEnd (b :: bytes) = some i →
    parse (b :: bytes) ≠ .incomplete ∧ parse (b :: bytes) = parse ((b :: bytes).take (i + 4))
  /-- Nothing is no head, and neither is a lone carriage return. -/
  parse_nothing : ∀ {bytes}, bytes = [] ∨ bytes = [13] → ∀ request, parse bytes ≠ .complete request

/-- The parsers that sniffing relies on. -/
structure Parsers where
  acceptor : Acceptor
  http : HttpParser
  parseUrl : Str → Option Url

variable (p : Parsers)

def classifyTls (bytes : Bytes) : SniffResult :=
  match (p.acceptor.run [] bytes).1 with
  | none => .needMore
  | some .malformed => .malformed
  | some (.hello none) => .unsupported
  | some (.hello (some name)) =>
    match normalizeDnsName name with
    | some host => .matched ⟨.tls, host⟩
    | none => .malformed

def couldBeHttp (bytes : Bytes) : Bool :=
  match skipCrlf bytes with
  | [] => true
  | b :: rest => (b == 13 && rest.isEmpty) || isHttpTokenByte b

def classifyHttp (bytes : Bytes) : SniffResult :=
  match p.http.parse bytes with
  | .incomplete => .needMore
  | .error => .malformed
  | .complete request =>
    match httpRequestHost p.parseUrl request with
    | none => .malformed
    | some (some host) => .matched ⟨.http, host⟩
    | some none => .unsupported

def classifyPrefix (bytes : Bytes) (maxBytes : Nat) : SniffResult :=
  let limit := min maxBytes hardMaxSniffBytes
  if bytes.length > limit then .limitExceeded
  else
    let result :=
      match bytes with
      | [] => .needMore
      | b :: _ => if b = 0x16 then classifyTls p bytes
          else if couldBeHttp bytes then classifyHttp p bytes else .unsupported
    if result = .needMore ∧ bytes.length ≥ limit then .limitExceeded else result

end Rove.Sniff
