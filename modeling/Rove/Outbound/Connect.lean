/-
Establishing a connection (`outbound/mod.rs`): directly, through a dialed
HTTP or SOCKS5 upstream, through a reverse hop or the overlay, or through the
members of a failover chain.

What the network does is given: which connections and handshakes succeed,
what each peer sends, how much time passes. What is kept of an attempt is
every write to an upstream, with whether it went through TLS.
-/
import Rove.Base.Endian
import Rove.Outbound.Talk
import Rove.Model.Snapshot

namespace Rove.Outbound

open Model (Upstream UpstreamKind Chain ChainMember Decision)

inductive TcpConnectError where
  | resolve (message : String)
  | dial (message : String)

def mapTcpConnect (context : String) : TcpConnectError → ProxyError
  | .resolve error => .dns s!"{context}: {error}"
  | .dial error => .dial s!"{context}: {error}"

/-- `ReverseHopManager`, by what opening a tunnel or an association gives. -/
structure ReverseHopManager where
  openTunnel : Str → Str → Nat → Except ProxyError Unit
  openUdp : Str → Except ProxyError Unit

/-- What one attempt meets: the outcomes of name resolution and TCP connect,
of TLS, what each upstream answers, and the `EgressContext`. -/
structure Network where
  tcpConnect : Str → Nat → Except TcpConnectError Unit
  serverName : Str → Except String Unit
  handshake : Str → Bool → Except String Unit
  peer : Upstream → Wire
  reverse : Option ReverseHopManager
  subnetra : Option (Ipv4Addr → Nat → Except String Unit)
  subnetraTun : Bool

/-- An established stream, by what it runs over. -/
inductive Stream where
  | direct
  | dialed (up : Upstream) (tls : Bool)
  | reverse (hop : Str)
  | subnetra
  deriving DecidableEq

structure Write where
  upstream : Upstream
  tls : Bool
  bytes : Bytes
  deriving DecidableEq

structure EgressInfo where
  label : Str
  chainId : Option Str
  memberId : Option Str
  attempts : Nat
  deriving DecidableEq

def EgressInfo.single (label : Str) : EgressInfo := ⟨label, none, none, 1⟩

def egressLabel (up : Upstream) : Str :=
  match up.kind with
  | .reverse => "reverse:" ++ up.addr
  | .subnetra => "subnetra"
  | _ => "upstream:" ++ up.addr

/-! ## Dialed upstreams -/

/-- The port of an upstream address: what stands after the last colon. -/
def portOf (addr : Str) : Option Nat := (Str.rsplitOnce ':' addr).bind fun (_, p) => parseUnsigned 16 10 p

/-- `dial`: connect, then wrap in TLS if the upstream asks for it. -/
def dial (net : Network) (up : Upstream) : Except ProxyError Stream :=
  let addr := Str.display up.addr
  let host := Util.hostOf up.addr
  match portOf up.addr with
  | none => .error (.upstream s!"bad upstream addr {addr}")
  | some port =>
    match net.tcpConnect host port with
    | .error e => .error (mapTcpConnect s!"dial upstream {addr}" e)
    | .ok _ =>
      if up.tls then
        let sni := Str.display host
        match net.serverName host with
        | .error e => .error (.tls s!"bad upstream sni {sni}: {e}")
        | .ok _ =>
          match net.handshake host up.skipCertVerify with
          | .error e => .error (.tls s!"upstream tls {addr}: {e}")
          | .ok _ => .ok (.dialed up true)
      else .ok (.dialed up false)

section
variable (base64 : Bytes → Str)

/-- What `http_connect` writes. -/
def connectRequest (up : Upstream) (host : Str) (port : Nat) : Str :=
  let target := host ++ ':' :: showNat port
  let auth :=
    match up.username with
    | none => []
    | some user =>
      let token := base64 (utf8Bytes (user ++ ':' :: up.password.getD []))
      "Proxy-Authorization: Basic " ++ token ++ "\r\n"
  "CONNECT " ++ target ++ " HTTP/1.1\r\nHost: " ++ target ++ "\r\n" ++ auth ++
    "Proxy-Connection: keep-alive\r\n\r\n"

/-- `str::lines().next()`, or nothing. -/
def firstLine (s : Str) : Str :=
  match Str.splitOnce '\n' s with
  | some (line, _) => if line.getLast? = some '\r' then line.dropLast else line
  | none => s

/-- `http_connect`, on the stream `dial` gave. -/
def httpConnect (up : Upstream) (host : Str) (port : Nat) : Talk Unit := do
  Talk.writeAll (utf8Bytes (connectRequest base64 up host port))
  let head ← Talk.readHttpHead 8192
  if Util.http2xx head then pure ()
  else
    let line := Str.display (firstLine (fromUtf8Lossy head))
    Talk.fail (.upstream s!"http upstream refused: {line}")

/-- The greeting and the sub-negotiation of `socks5_connect`. -/
def socks5Auth (up : Upstream) : Talk Unit := do
  Talk.writeAll [0x05, 0x01, if up.username.isSome then 0x02 else 0x00]
  let resp ← Talk.readExact 2
  if resp.getD 0 0 ≠ 0x05 then Talk.fail (.upstream "upstream bad socks version")
  else if resp.getD 1 0 = 0x00 then pure ()
  else if resp.getD 1 0 = 0x02 then do
    let user := utf8Bytes (up.username.getD [])
    let pass := utf8Bytes (up.password.getD [])
    Talk.writeAll (0x01 :: UInt8.ofNat user.length :: (user ++ UInt8.ofNat pass.length :: pass))
    let ar ← Talk.readExact 2
    if ar.getD 1 0 ≠ 0x00 then Talk.fail (.upstream "upstream socks auth failed") else pure ()
  else
    let m := String.ofList (Nat.toDigits 16 (resp.getD 1 0).toNat)
    Talk.fail (.upstream s!"upstream socks method 0x{m}")

/-- The bound address of a reply, which nobody looks at. -/
def drainBound (atyp : UInt8) : Talk Unit := do
  if atyp = 0x01 then let _ ← Talk.readExact 6
  else if atyp = 0x04 then let _ ← Talk.readExact 18
  else if atyp = 0x03 then
    let l ← Talk.readExact 1
    let _ ← Talk.readExact ((l.getD 0 0).toNat + 2)
  else Talk.fail (.upstream "upstream bad bnd atyp")

/-- `socks5_connect`, on the stream `dial` gave. -/
def socks5Connect (up : Upstream) (host : Str) (port : Nat) : Talk Unit := do
  socks5Auth up
  let hb := utf8Bytes host
  if hb.length > 255 then Talk.fail (.upstream "hostname too long")
  else
    Talk.writeAll ([0x05, 0x01, 0x00, 0x03, UInt8.ofNat hb.length] ++ hb ++ beBytes 2 port)
    let head ← Talk.readExact 4
    if head.getD 1 0 ≠ 0x00 then
      let m := String.ofList (Nat.toDigits 16 (head.getD 1 0).toNat)
      Talk.fail (.upstream s!"upstream socks reply 0x{m}")
    else drainBound (head.getD 3 0)

/-- An attempt: what it wrote to upstreams, and the stream it established. -/
abbrev Attempt := List Write × Except ProxyError Stream

/-- Dial, then hold a conversation on the stream. -/
def speak (net : Network) (up : Upstream) (talk : Talk Unit) : Attempt :=
  match dial net up with
  | .error e => ([], .error e)
  | .ok stream =>
    let tls := match stream with
      | .dialed _ tls => tls
      | _ => false
    ((talk (net.peer up)).1.map fun bs => ⟨up, tls, bs⟩, (talk (net.peer up)).2.map fun _ => stream)

def reverseConnect (net : Network) (up : Upstream) (host : Str) (port : Nat) : Attempt :=
  match net.reverse with
  | none =>
    let addr := Str.display up.addr
    ([], .error (.reverseUnavailable s!"reverse hop {addr} requested but reverse data plane is not enabled"))
  | some manager => ([], (manager.openTunnel up.addr host port).map fun _ => .reverse up.addr)

def subnetraConnect (net : Network) (host : Str) (port : Nat) : Attempt :=
  let target := Str.display host
  if net.subnetraTun then
    ([], .error (.upstream (s!"subnetra egress requested for {target}:{port} but subnetra is running in TUN mode; " ++
      "use direct egress so kernel routes packets into the overlay")))
  else
    match net.subnetra with
    | none => ([], .error (.upstream s!"subnetra egress requested for {target}:{port} but subnetra is not enabled"))
    | some connect =>
      match parseIpv4Addr host with
      | none => ([], .error (.upstream s!"subnetra egress target {target} is not an overlay IPv4 address"))
      | some ip =>
        match connect ip port with
        | .error e => ([], .error (.upstream s!"subnetra connect {target}:{port}: {e}"))
        | .ok _ => ([], .ok .subnetra)

def connectUpstream (net : Network) (up : Upstream) (host : Str) (port : Nat) : Attempt :=
  match up.kind with
  | .http => speak net up (httpConnect base64 up host port)
  | .socks5 => speak net up (socks5Connect up host port)
  | .reverse => reverseConnect net up host port
  | .subnetra => subnetraConnect net host port

/-! ## Chains -/

/-- `CHAIN_ATTEMPT_TIMEOUT`, in nanoseconds. -/
def chainAttemptTimeout : Nat := 10 * 10 ^ 9

/-- `CHAIN_TOTAL_TIMEOUT`, in nanoseconds. -/
def chainTotalTimeout : Nat := 30 * 10 ^ 9

/-- `Debug` of a `Duration` of at least a millisecond: seconds or milliseconds,
with a fraction that does not end in a zero. -/
def debugDuration (ns : Nat) : String :=
  let (unit, digits, suffix) := if ns ≥ 10 ^ 9 then (10 ^ 9, 9, "s") else (10 ^ 6, 6, "ms")
  let frac := Nat.toDigits 10 (ns % unit)
  let frac := (List.replicate (digits - frac.length) '0' ++ frac).rdropWhile (· == '0')
  let dot := if frac = [] then "" else "."
  toString (ns / unit) ++ dot ++ String.ofList frac ++ suffix

/-- `remaining_budget`, `elapsed` nanoseconds after the chain was entered. -/
def remainingBudget (elapsed attemptsSoFar : Nat) : Option Nat :=
  let remaining := chainTotalTimeout - elapsed
  if remaining = 0 ∧ attemptsSoFar > 0 then none
  else some (min chainAttemptTimeout (max remaining (10 ^ 6)))

/-- What a request meets on its way: the network at each attempt, the time at
which the attempt comes up, and after how many of its writes the attempt runs
out of time, if it does. -/
structure Course where
  net : Nat → Network
  elapsed : Nat → Nat
  timesOut : Nat → Option Nat

/-- What a request wrote to upstreams, and what it established. -/
abbrev Outcome := List Write × Except ProxyError (Stream × EgressInfo)

/-- The loop of `connect_chain` over the members that are left. -/
def connectMembers (course : Course) (id : Str) (host : Str) (port : Nat) :
    List ChainMember → Nat → Option ProxyError → Outcome
  | [], attempts, last =>
    let chain := Str.display id
    ([], .error (.chainExhausted id attempts (last.getD (.upstream s!"chain {chain} has no eligible members"))))
  | m :: ms, attempts, last =>
    let chain := Str.display id
    match remainingBudget (course.elapsed attempts) attempts with
    | none =>
      ([], .error (.chainExhausted id attempts (last.getD (.upstream s!"chain {chain} has no eligible members"))))
    | some perAttempt =>
      let attempt := connectUpstream base64 (course.net attempts) m.upstream host port
      match course.timesOut attempts, attempt.2 with
      | some writes, _ =>
        let member := Str.display m.id
        let limit := debugDuration perAttempt
        let e := ProxyError.upstream s!"chain {chain} member {member} attempt timed out after {limit}"
        let rest := connectMembers course id host port ms (attempts + 1) (some e)
        (attempt.1.take writes ++ rest.1, rest.2)
      | none, .ok stream =>
        (attempt.1, .ok (stream, ⟨egressLabel m.upstream, some id, some m.id, attempts + 1⟩))
      | none, .error e =>
        let rest := connectMembers course id host port ms (attempts + 1) (some e)
        (attempt.1 ++ rest.1, rest.2)

def connect (course : Course) (decision : Decision) (host : Str) (port : Nat) : Outcome :=
  match decision with
  | .direct =>
    let target := Str.display host
    match (course.net 0).tcpConnect host port with
    | .error e => ([], .error (mapTcpConnect s!"direct {target}:{port}" e))
    | .ok _ => ([], .ok (.direct, .single "direct"))
  | .via up =>
    let attempt := connectUpstream base64 (course.net 0) up host port
    (attempt.1, attempt.2.map fun stream => (stream, .single (egressLabel up)))
  | .viaChain chain => connectMembers base64 course chain.id host port chain.members 0 none
  | .block => ([], .error (.blocked (Str.display host)))

end

end Rove.Outbound
