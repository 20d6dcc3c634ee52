/-
The frames and datagrams of `rove-ingress/1` (`ingress/frame.rs`): text frames
that end with a blank line, with headers that may stand in any order but only
once, and binary datagrams that name a lease and a flow.

A frame is read byte by byte, so nothing after its blank line is taken.
-/
import Rove.Base.Endian
import Rove.Base.IpDisplay
import Rove.Ingress.RelayConfig

namespace Rove.Ingress

def protocolVersion : Str := "rove-ingress/1"

def maxFrameBytes : Nat := 4096
def maxNodeIdBytes : Nat := 128
def maxListenerIdBytes : Nat := 128

/-- `FrameError::Malformed`, as it prints. -/
def malformed (what : String) : String := s!"ingress frame: {what}"

def unsupportedVersion : String := malformed "unsupported protocol version"

/-! ## Identifiers -/

structure Id128 where
  bytes : Bytes
  length_bytes : bytes.length = 16
  deriving DecidableEq

def hexNibble (value : UInt8) : UInt8 :=
  if 48 ≤ value && value ≤ 57 then value - 48
  else if 97 ≤ value && value ≤ 102 then value - 97 + 10
  else value - 65 + 10

/-- `u8::is_ascii_hexdigit`. -/
def isHexDigit (b : UInt8) : Bool := (48 ≤ b && b ≤ 57) || (97 ≤ b && b ≤ 102) || (65 ≤ b && b ≤ 70)

/-- The loop of `parse_hex`. -/
def hexPairs : Bytes → Bytes
  | a :: b :: rest => (hexNibble a <<< 4 ||| hexNibble b) :: hexPairs rest
  | _ => []

theorem length_hexPairs (bytes : Bytes) : (hexPairs bytes).length = bytes.length / 2 := by
  induction bytes using List.twoStepInduction with
  | nil => rfl
  | singleton b => simp [hexPairs]
  | cons_cons a b rest ih _ =>
    rw [hexPairs, List.length_cons, ih, List.length_cons, List.length_cons]
    omega

def Id128.parseHex (value : Str) : Res Id128 :=
  let bytes := utf8Bytes value
  if h : bytes.length = 32 ∧ bytes.all isHexDigit = true then
    pure ⟨hexPairs bytes, by rw [length_hexPairs, h.1]⟩
  else throw (malformed "id must be 32 hex characters")

/-- `Display` of `Id128`: two hexadecimal digits for each byte. -/
def Id128.toText (id : Id128) : Str :=
  id.bytes.flatMap fun b => [Nat.digitChar (b.toNat / 16), Nat.digitChar (b.toNat % 16)]

/-! ## Reading a frame -/

/-- The loop of `read_frame`: the bytes up to the blank line, and what follows
them on the stream. -/
def readLoop : Bytes → Bytes → Res (Bytes × Bytes)
  | _, [] => throw "unexpected end of file"
  | bytes, b :: rest =>
    let bytes := bytes ++ [b]
    if bytes.length > maxFrameBytes then throw "ingress frame exceeds limit"
    else if [10, 10] <:+ bytes ∨ [13, 10, 13, 10] <:+ bytes then pure (bytes, rest)
    else readLoop bytes rest

/-- `text.replace("\r\n", "\n")`. -/
def replaceCrlf : Str → Str
  | '\r' :: '\n' :: rest => '\n' :: replaceCrlf rest
  | c :: rest => c :: replaceCrlf rest
  | [] => []

/-- `read_frame`: the lines, and the rest of the stream. -/
def readFrame (stream : Bytes) : Res (List Str × Bytes) := do
  let (bytes, rest) ← readLoop [] stream
  match fromUtf8 bytes with
  | none => throw "ingress frame is not utf-8"
  | some text => pure ((Str.trimEndMatches '\n' (replaceCrlf text)).splitOn '\n', rest)

/-- `write_frame`: the bytes that go on the stream. -/
def writeFrame (bytes : Bytes) : Res Bytes := do
  ensure (bytes.length ≤ maxFrameBytes) "ingress frame exceeds limit"
  pure bytes

/-! ## Headers -/

def validateHeaderName (name : Str) : Res Unit :=
  let bytes := utf8Bytes name
  ensure (name ≠ [] ∧ bytes.length ≤ 64 ∧
    (bytes.all fun b => (97 ≤ b && b ≤ 122) || (48 ≤ b && b ≤ 57) || b = 45) = true) (malformed "invalid header name")

def validateField (value : Str) (max : Nat) (error : String) : Res Unit :=
  let bytes := utf8Bytes value
  ensure (value ≠ [] ∧ bytes.length ≤ max ∧ (bytes.any fun b => b = 13 || b = 10 || b = 0) = false) (malformed error)

/-- The loop of `parse_headers_unrestricted`. -/
def headerLoop : List Str → HashMap Str Str → Res (HashMap Str Str)
  | [], headers => pure headers
  | line :: lines, headers =>
    match Str.splitOnce ':' line with
    | none => throw (malformed "header missing colon")
    | some (name, value) => do
      let name := Str.toAsciiLowercase (Str.trim name)
      validateHeaderName name
      ensure (headers.get? name = none) (malformed "duplicate header")
      headerLoop lines (headers.insert name (Str.trim value))

def parseHeadersUnrestricted (lines : List Str) : Res (HashMap Str Str) := headerLoop lines ∅

def parseHeaders (lines : List Str) (allowed : List Str) : Res (HashMap Str Str) := do
  let headers ← parseHeadersUnrestricted lines
  ensure (headers.keys.all (allowed.contains ·) = true) (malformed "unknown header")
  pure headers

def required (headers : HashMap Str Str) (name : Str) : Res Str :=
  ((headers.get? name).filter (· ≠ [])).elim (throw (malformed "required header missing")) pure

/-- `str::parse` of a header's value. -/
def parseNumber (bits : Nat) (value : Str) (error : String) : Res Nat :=
  (parseUnsigned bits 10 value).elim (throw error) pure

def headerLine (name : String) (value : Str) : Str := name.toList ++ ':' :: ' ' :: value ++ ['\n']

/-! ## Requests -/

structure RegisterRequest where
  nodeId : Str
  token : Str

def RegisterRequest.encode (r : RegisterRequest) : Res Bytes := do
  validateField r.nodeId maxNodeIdBytes "invalid node id"
  validateField r.token maxTokenBytes "invalid token"
  pure (utf8Bytes ("REGISTER " ++ protocolVersion ++ '\n' :: headerLine "node-id" r.nodeId ++
    headerLine "token" r.token ++ ['\n']))

structure LeaseRequest where
  listenerId : Str
  transport : Transport
  publicPort : Nat

def LeaseRequest.encode (r : LeaseRequest) : Res Bytes := do
  validateField r.listenerId maxListenerIdBytes "invalid listener id"
  pure (utf8Bytes ("LEASE\n" ++ headerLine "listener-id" r.listenerId ++
    headerLine "transport" r.transport.asStr ++ headerLine "public-port" (showNat r.publicPort) ++ ['\n']))

structure OpenTcpRequest where
  leaseId : Nat
  ingressId : Id128
  clientAddr : SocketAddr
  publicAddr : SocketAddr
  relayInstanceId : Str
  tunnelSessionId : Id128

/-- The headers of an `OPEN_TCP` frame. -/
def openTcpHeaders : List Str :=
  ["lease-id", "ingress-id", "client-addr", "public-addr", "relay-id", "session-id"]

/-- `str::parse::<SocketAddr>` of a header's value. -/
def parseAddr (value : Str) (error : String) : Res SocketAddr := (parseSocketAddr value).elim (throw error) pure

def OpenTcpRequest.parse (lines : List Str) : Res OpenTcpRequest := do
  ensure (lines.head? = some "OPEN_TCP".toList) (malformed "expected OPEN_TCP verb")
  let headers ← parseHeaders lines.tail openTcpHeaders
  let relayInstanceId ← required headers "relay-id"
  validateField relayInstanceId maxNodeIdBytes "invalid relay instance id"
  let leaseId ← parseNumber 64 (← required headers "lease-id") (malformed "lease id is not a u64")
  let ingressId ← Id128.parseHex (← required headers "ingress-id")
  let clientAddr ← parseAddr (← required headers "client-addr") (malformed "invalid client address")
  let publicAddr ← parseAddr (← required headers "public-addr") (malformed "invalid public address")
  let tunnelSessionId ← Id128.parseHex (← required headers "session-id")
  pure ⟨leaseId, ingressId, clientAddr, publicAddr, relayInstanceId, tunnelSessionId⟩

/-! ## Replies -/

inductive Reply where
  | ok (headers : HashMap Str Str)
  | err (code : Str)

def Reply.parse : List Str → Res Reply
  | [] => throw (malformed "empty reply")
  | first :: lines =>
    if first = "OK" then .ok <$> parseHeadersUnrestricted lines
    else
      match Str.stripPrefix "ERR " first with
      | none => throw (malformed "expected OK or ERR reply")
      | some code => do
        validateField code 64 "invalid error code"
        ensure (lines = []) (malformed "ERR reply must not have headers")
        pure (.err code)

def Reply.header (reply : Reply) (name : Str) : Option Str :=
  match reply with
  | .ok headers => headers.get? name
  | .err _ => none

/-! ## Datagrams -/

def datagramFixed : Nat := 28

inductive Datagram where
  | uplink (leaseId : Nat) (flowId : Id128) (clientAddr : SocketAddr) (payload : Bytes)
  | downlink (leaseId : Nat) (flowId : Id128) (payload : Bytes)

def encodeAddr : SocketAddr → Bytes
  | .v4 ip port => 4 :: beBytes 4 ip.toNat ++ beBytes 2 port.toNat
  | .v6 ip port _ _ => 6 :: beBytes 16 ip.toNat ++ beBytes 2 port.toNat

/-- `decode_addr`: the address, and the place after it. -/
def decodeAddr (bytes : Bytes) (offset : Nat) : Res (SocketAddr × Nat) :=
  let number (start len : Nat) := ofBeBytes ((bytes.drop start).take len)
  match (bytes[offset]? : Option UInt8) with
  | none => throw (malformed "missing address type")
  | some 4 => do
    let last := offset + 1 + 4 + 2
    ensure (last ≤ bytes.length) (malformed "truncated ipv4 address")
    pure (.v4 (BitVec.ofNat 32 (number (offset + 1) 4)) (BitVec.ofNat 16 (number (offset + 5) 2)), last)
  | some 6 => do
    let last := offset + 1 + 16 + 2
    ensure (last ≤ bytes.length) (malformed "truncated ipv6 address")
    pure (.v6 (BitVec.ofNat 128 (number (offset + 1) 16)) (BitVec.ofNat 16 (number (offset + 17) 2)) 0 0, last)
  | some _ => throw (malformed "invalid address type")

def Datagram.encode : Datagram → Bytes
  | .uplink leaseId flowId clientAddr payload =>
    [82, 73, 1, 1] ++ beBytes 8 leaseId ++ flowId.bytes ++ encodeAddr clientAddr ++ payload
  | .downlink leaseId flowId payload => [82, 73, 1, 2] ++ beBytes 8 leaseId ++ flowId.bytes ++ payload

def Datagram.parse (bytes : Bytes) : Res Datagram :=
  if h : bytes.length < datagramFixed then throw (malformed "datagram too short")
  else do
    ensure (bytes.take 3 = [82, 73, 1]) unsupportedVersion
    let leaseId := ofBeBytes ((bytes.drop 4).take 8)
    let flowId : Id128 := ⟨(bytes.drop 12).take 16, by
      rw [List.length_take, List.length_drop]
      unfold datagramFixed at h
      omega⟩
    match (bytes[3]? : Option UInt8) with
    | some 1 => do
      let (clientAddr, offset) ← decodeAddr bytes datagramFixed
      pure (.uplink leaseId flowId clientAddr (bytes.drop offset))
    | some 2 => pure (.downlink leaseId flowId (bytes.drop datagramFixed))
    | _ => throw (malformed "unknown datagram type")

end Rove.Ingress
