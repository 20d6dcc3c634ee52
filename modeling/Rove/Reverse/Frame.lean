/-
The text frames between an edge and its reverse hops (`reverse/frame.rs`),
as far as registering and a TCP tunnel go, and what a hop does with the first
frame of a stream (`reverse/hop.rs`).

A frame is written by formatting the host into a line and read back by
cutting the bytes at the first blank line and the lines into words.
-/
import Rove.Base.Utf8
import Rove.Base.IntText
import Rove.Base.Result

namespace Rove.Reverse

def maxFrameBytes : Nat := 4096

structure TunnelRequest where
  host : Str
  port : BitVec 16
  tunnelId : Option Str
  deriving DecidableEq

def TunnelRequest.text (r : TunnelRequest) : Str :=
  let id := match r.tunnelId with
    | some id => "tunnel-id: " ++ id ++ ['\n']
    | none => []
  "CONNECT " ++ r.host ++ ' ' :: showNat r.port.toNat ++ '\n' :: id ++ ['\n']

def TunnelRequest.encode (r : TunnelRequest) : Bytes := utf8Bytes r.text

/-! ## Reading -/

/-- The loop of `read_frame`: the bytes up to the first blank line, and what
follows them on the stream. -/
def readLoop : Bytes → Bytes → Res (Bytes × Bytes)
  | _, [] => throw "reverse frame: eof before blank-line terminator"
  | buf, b :: rest =>
    let buf := buf ++ [b]
    if buf.length > maxFrameBytes then throw "reverse frame: exceeds max size"
    else if [10, 10] <:+ buf then pure (buf, rest)
    else readLoop buf rest

/-- `strip_suffix('\r')`, where there is one. -/
def stripCr (l : Str) : Str := if l.getLast? = some '\r' then l.dropLast else l

def splitLines (buf : Bytes) : List Str :=
  (((fromUtf8Lossy buf).splitOn '\n').map stripCr).rdropWhile (· = [])

/-- `read_frame`: the lines, and the rest of the stream. -/
def readFrame (stream : Bytes) : Res (List Str × Bytes) := do
  let (buf, rest) ← readLoop [] stream
  pure (splitLines buf, rest)

def parseHeaders (lines : List Str) : List (Str × Str) :=
  lines.filterMap fun line =>
    (Str.splitOnce ':' line).map fun (name, value) => (Str.toAsciiLowercase (Str.trim name), Str.trim value)

def header (headers : List (Str × Str)) (name : Str) : Option Str :=
  (headers.find? (·.1 = name)).map (·.2)

/-- The words of a `CONNECT` line: a host and a port. -/
def parseTarget : List Str → Res (Str × BitVec 16)
  | [] => throw "reverse frame: missing target host"
  | [_] => throw "reverse frame: missing target port"
  | [host, port] =>
    match parseUnsigned 16 10 port with
    | none => throw "reverse frame: target port not a u16"
    | some port => do
      ensure (host ≠ [] ∧ (utf8Bytes host).length ≤ 255) "reverse frame: target host length out of range"
      pure (host, BitVec.ofNat 16 port)
  | _ => throw "reverse frame: trailing CONNECT tokens"

def TunnelRequest.parse : List Str → Res TunnelRequest
  | [] => throw "reverse frame: empty tunnel frame"
  | first :: lines =>
    match Str.stripPrefix "CONNECT " first with
    | none => throw "reverse frame: expected CONNECT verb"
    | some rest => do
      let (host, port) ← parseTarget (Str.splitWhitespace rest)
      pure ⟨host, port, (header (parseHeaders lines) "tunnel-id").filter (· ≠ [])⟩

/-- What a hop does with a stream that an edge opened. -/
inductive HopAction where
  | dial (request : TunnelRequest) (payload : Bytes)
  | associate (lines : List Str) (rest : Bytes)
  | badRequest
  deriving DecidableEq

/-- `serve_stream`: read the first frame and go by its verb. -/
def serveStream (stream : Bytes) : HopAction :=
  match readFrame stream with
  | .error _ => .badRequest
  | .ok (lines, rest) =>
    let verb := (lines.head?.bind fun l => (Str.splitWhitespace l).head?).getD []
    if verb = "CONNECT" then
      match TunnelRequest.parse lines with
      | .ok request => .dial request rest
      | .error _ => .badRequest
    else if verb = "ASSOCIATE" then .associate lines rest
    else .badRequest

/-! ## Registering -/

def protocolVersion : Str := "rove-reverse/1"

structure RegisterRequest where
  hopId : Str
  token : Str
  edgeId : Option Str
  caps : List Str

def RegisterRequest.supportsUdp (r : RegisterRequest) : Bool := r.caps.any (· = "udp")

/-- The capabilities of a `caps` header. -/
def parseCaps (value : Str) : List Str :=
  ((value.splitOn ',').map fun c => Str.toAsciiLowercase (Str.trim c)).filter (· ≠ [])

def RegisterRequest.parse : List Str → Res RegisterRequest
  | [] => throw "reverse frame: empty register frame"
  | first :: lines =>
    match Str.stripPrefix "REGISTER " first with
    | none => throw "reverse frame: expected REGISTER verb"
    | some version => do
      ensure (Str.trim version = protocolVersion) "reverse frame: unsupported protocol version"
      let headers := parseHeaders lines
      match (header headers "hop-id").filter (· ≠ []) with
      | none => throw "reverse frame: missing hop-id"
      | some hopId =>
        match header headers "token" with
        | none => throw "reverse frame: missing token"
        | some token =>
          pure ⟨hopId, token, (header headers "edge-id").filter (· ≠ []),
            ((header headers "caps").map parseCaps).getD []⟩

end Rove.Reverse
