/-
The configuration of a node's connector (`ReverseIngressConfig` of
`ingress/connector.rs`): which of the node's own listeners the relay may reach.
`to_runtime` replaces each name by the address of that listener, which it
brings to a loopback address or refuses.

The variables of the environment are given; the file is read by another crate.
-/
import Rove.Base.Lists
import Rove.Inbound.Target
import Rove.Ingress.Frame

namespace Rove.Ingress.Connector

open Res
open Inbound (splitHostPort)

/-- `Listener`, as far as the connector reads it. -/
structure Listener where
  name : Str
  listen : Str

/-- `TuicListener`, as far as the connector reads it. -/
structure TuicListener where
  name : Str
  listen : Str

structure IngressListenerConfig where
  id : Str
  transport : Str
  publicPort : Nat := 0
  localListener : Str
  maxInnerDatagram : Nat := 1200

/-- `ReverseIngressConfig`, with its defaults. -/
structure ReverseIngressConfig where
  enable : Bool := false
  relay : Str := []
  serverName : Str := []
  token : Str := []
  tokenEnv : Str := []
  skipCertVerify : Bool := false
  initialMtu : Option Nat := none
  maxStreams : Nat := 1024
  maxUdpFlows : Nat := 4096
  reconnectMinSecs : Nat := 1
  reconnectMaxSecs : Nat := 30
  listeners : List IngressListenerConfig := []

structure LocalTarget where
  id : Str
  transport : Transport
  publicPort : Nat
  localListener : Str
  localAddr : SocketAddr
  maxInnerDatagram : Nat
  deriving DecidableEq

/-- `ConnectorConfig`; the bounds on the time between two attempts are in seconds. -/
structure ConnectorConfig where
  nodeId : Str
  relay : Str
  serverName : Str
  token : Str
  skipCertVerify : Bool
  initialMtu : Option Nat
  maxStreams : Nat
  maxUdpFlows : Nat
  reconnectMin : Nat
  reconnectMax : Nat
  targets : List LocalTarget
  deriving DecidableEq

def maxReconnectSecs : Nat := 3600

/-! ## Checks -/

def validateToken (token : Str) : Res Unit := do
  ensure (token ≠ []) "reverse_ingress token must not be empty"
  ensure ((utf8Bytes token).length ≤ maxTokenBytes ∧ (utf8Bytes token).any (fun b => b = 13 || b = 10 || b = 0) = false)
    "reverse_ingress token cannot be encoded safely"

/-- `validate_id` of `connector.rs`, which has one message for a value that is
empty or too long. -/
def validateId (field : String) (value : Str) : Res Unit := do
  ensure (value ≠ [] ∧ (utf8Bytes value).length ≤ 128) s!"{field} is invalid"
  ensure ((utf8Bytes value).all idByte = true) s!"{field} contains unsupported characters"

/-- `Transport::parse` of a mapping. -/
def IngressListenerConfig.parseTransport (mapping : IngressListenerConfig) : Res Transport :=
  (Transport.parse mapping.transport).mapError fun e => s!"reverse_ingress listener {Str.display mapping.id}: {e}"

/-- The loop of `validate` over the mappings. -/
def validateListeners : List IngressListenerConfig → List (Str × Transport) → Res Unit
  | [], _ => pure ()
  | listener :: rest, ids => do
    validateId "reverse_ingress listener id" listener.id
    validateId "reverse_ingress local_listener" listener.localListener
    let transport ← listener.parseTransport
    ensure ((listener.id, transport) ∉ ids)
      s!"duplicate reverse_ingress listener {Str.display listener.id} {Str.display transport.asStr}"
    ensure (576 ≤ listener.maxInnerDatagram ∧ listener.maxInnerDatagram ≤ 65507)
      s!"reverse_ingress listener {Str.display listener.id} max_inner_datagram out of range [576, 65507]"
    validateListeners rest ((listener.id, transport) :: ids)

def ReverseIngressConfig.validate (cfg : ReverseIngressConfig) : Res Unit :=
  if cfg.enable = false then pure ()
  else do
    ensure (Str.trim cfg.relay ≠ []) "reverse_ingress.relay is required"
    ensure ((splitHostPort cfg.relay).isSome = true) "reverse_ingress.relay must be host:port"
    ensure (Str.trim cfg.serverName ≠ [] ∨ cfg.skipCertVerify = true)
      "reverse_ingress.server_name is required unless skip_cert_verify is true"
    ensure (Str.trim cfg.token ≠ [] ∨ Str.trim cfg.tokenEnv ≠ []) "reverse_ingress needs token or token_env"
    ensure (Str.trim cfg.token = [] ∨ Str.trim cfg.tokenEnv = [])
      "reverse_ingress must set only one of token or token_env"
    ensureUpTo "reverse_ingress.max_streams" maxConfigStreams cfg.maxStreams
    ensureUpTo "reverse_ingress.max_udp_flows" maxConfigUdpFlows cfg.maxUdpFlows
    ensure (0 < cfg.reconnectMinSecs ∧ cfg.reconnectMinSecs ≤ cfg.reconnectMaxSecs)
      "reverse_ingress reconnect bounds are invalid"
    ensure (cfg.reconnectMaxSecs ≤ maxReconnectSecs)
      s!"reverse_ingress.reconnect_max_secs must be <= {maxReconnectSecs}"
    if Str.trim cfg.token ≠ [] then validateToken (Str.trim cfg.token) else pure ()
    validateInitialMtu "reverse_ingress.initial_mtu" cfg.initialMtu
    ensure (cfg.listeners ≠ []) "reverse_ingress needs at least one listener mapping"
    validateListeners cfg.listeners []

/-! ## The targets -/

def normalizeLoopbackTarget (raw : Str) : Res SocketAddr :=
  match parseSocketAddr raw with
  | none => throw s!"local listener address {Str.debug raw}: invalid socket address syntax"
  | some address => do
    let ip : IpAddr :=
      if address.ip.isUnspecified then
        if address.isIpv6 then .v6 1 else .v4 (Ipv4Addr.new 127 0 0 1)
      else address.ip
    ensure (ip.isLoopback = true) s!"reverse_ingress local listener {Str.debug raw} must bind loopback or wildcard"
    pure (SocketAddr.new ip address.port)

section

variable (tcpListeners : List Listener) (tuicListeners : List TuicListener)

/-- Where the first listener of a name listens, among those of a transport. -/
def listenOf (transport : Transport) (name : Str) : Option Str :=
  match transport with
  | .tcp => (tcpListeners.find? (·.name = name)).map (·.listen)
  | .udp => (tuicListeners.find? (·.name = name)).map (·.listen)

/-- The address of the listener that a mapping names. -/
def localAddr (mapping : IngressListenerConfig) (transport : Transport) : Res SocketAddr :=
  match listenOf tcpListeners tuicListeners transport mapping.localListener with
  | some listen => normalizeLoopbackTarget listen
  | none =>
    let kind := match transport with
      | .tcp => "TCP"
      | .udp => "TUIC"
    throw
      s!"reverse_ingress listener {Str.display mapping.id} references unknown {kind} listener {Str.debug mapping.localListener}"

def IngressListenerConfig.target (mapping : IngressListenerConfig) : Res LocalTarget := do
  let transport ← mapping.parseTransport
  let addr ← localAddr tcpListeners tuicListeners mapping transport
  pure ⟨mapping.id, transport, mapping.publicPort, mapping.localListener, addr, mapping.maxInnerDatagram⟩

/-- The token, from the file or from the environment. -/
def ReverseIngressConfig.readToken (env : Str → Option Str) (cfg : ReverseIngressConfig) : Res Str :=
  let envName := Str.trim cfg.tokenEnv
  if envName = [] then pure (Str.trim cfg.token)
  else
    (env envName).elim
      (throw s!"reverse_ingress token environment variable {Str.display envName} is not set") pure

/-- The name the relay's certificate must have. -/
def ReverseIngressConfig.readServerName (cfg : ReverseIngressConfig) : Res Str :=
  if Str.trim cfg.serverName = [] then
    (splitHostPort cfg.relay).elim (throw "invalid reverse_ingress relay") fun (host, _) => pure host
  else pure (Str.trim cfg.serverName)

def ReverseIngressConfig.toRuntime (env : Str → Option Str) (cfg : ReverseIngressConfig) (nodeId : Str) :
    Res (Option ConnectorConfig) := do
  cfg.validate
  if cfg.enable = false then pure none
  else
    let token ← cfg.readToken env
    validateToken token
    validateId "node_id" nodeId
    let targets ← cfg.listeners.mapM (·.target tcpListeners tuicListeners)
    let serverName ← cfg.readServerName
    pure (some ⟨nodeId, cfg.relay, serverName, token, cfg.skipCertVerify, cfg.initialMtu,
      cfg.maxStreams, cfg.maxUdpFlows,
      cfg.reconnectMinSecs, cfg.reconnectMaxSecs, targets⟩)

/-! ## What a target is -/

/-- The text of the address on which the node's configuration has a listener of
a name for a transport. -/
def ListensOn (transport : Transport) (name listen : Str) : Prop :=
  match transport with
  | .tcp => ⟨name, listen⟩ ∈ tcpListeners
  | .udp => ⟨name, listen⟩ ∈ tuicListeners

/-- An address is a loopback address at which a listener can be reached that a
mapping names for the transport. -/
structure Reaches (cfg : ReverseIngressConfig) (transport : Transport) (addr : SocketAddr) : Prop where
  loopback : addr.ip.isLoopback = true
  listener : ∃ mapping ∈ cfg.listeners, Transport.parse mapping.transport = .ok transport ∧
    ∃ listen bound, ListensOn tcpListeners tuicListeners transport mapping.localListener listen ∧
      parseSocketAddr listen = some bound ∧ bound.port = addr.port ∧
      (bound.ip.isUnspecified = true ∨ bound.ip = addr.ip)

variable {tcpListeners tuicListeners}

theorem normalizeLoopbackTarget_eq_ok {raw addr} (h : normalizeLoopbackTarget raw = .ok addr) :
    addr.ip.isLoopback = true ∧ ∃ bound, parseSocketAddr raw = some bound ∧ bound.port = addr.port ∧
      (bound.ip.isUnspecified = true ∨ bound.ip = addr.ip) := by
  unfold normalizeLoopbackTarget at h
  cases hparse : parseSocketAddr raw with
  | none => rw [hparse] at h; cases h
  | some bound =>
    rw [hparse] at h
    obtain ⟨hloop, h⟩ := ensure_bind_eq_ok.1 h
    cases h
    rw [SocketAddr.ip_new, SocketAddr.port_new]
    refine ⟨hloop, bound, rfl, rfl, ?_⟩
    cases hany : bound.ip.isUnspecified with
    | true => exact .inl rfl
    | false => exact .inr (by rw [if_neg (by decide)])

theorem listensOn_of_listenOf {transport name listen}
    (h : listenOf tcpListeners tuicListeners transport name = some listen) :
    ListensOn tcpListeners tuicListeners transport name listen := by
  cases transport with
  | tcp =>
    obtain ⟨listener, hfind, rfl⟩ := Option.map_eq_some_iff.1 h
    have hname : listener.name = name := by simpa using List.find?_some hfind
    rw [← hname]
    exact List.mem_of_find?_eq_some hfind
  | udp =>
    obtain ⟨listener, hfind, rfl⟩ := Option.map_eq_some_iff.1 h
    have hname : listener.name = name := by simpa using List.find?_some hfind
    rw [← hname]
    exact List.mem_of_find?_eq_some hfind

theorem localAddr_eq_ok {mapping transport addr}
    (h : localAddr tcpListeners tuicListeners mapping transport = .ok addr) :
    ∃ listen, ListensOn tcpListeners tuicListeners transport mapping.localListener listen ∧
      normalizeLoopbackTarget listen = .ok addr := by
  unfold localAddr at h
  cases hlisten : listenOf tcpListeners tuicListeners transport mapping.localListener with
  | none => rw [hlisten] at h; cases h
  | some listen =>
    rw [hlisten] at h
    exact ⟨listen, listensOn_of_listenOf hlisten, h⟩

theorem target_reaches {cfg mapping} (hmem : mapping ∈ cfg.listeners)
    {target} (h : mapping.target tcpListeners tuicListeners = .ok target) :
    Reaches tcpListeners tuicListeners cfg target.transport target.localAddr := by
  obtain ⟨transport, htransport, h⟩ := bind_eq_ok.1 h
  obtain ⟨addr, haddr, h⟩ := bind_eq_ok.1 h
  cases h
  obtain ⟨listen, hlistens, hnormal⟩ := localAddr_eq_ok haddr
  obtain ⟨hloop, bound, hbound, hport, hip⟩ := normalizeLoopbackTarget_eq_ok hnormal
  exact ⟨hloop, mapping, hmem, mapError_eq_ok.1 htransport, listen, bound, hlistens, hbound, hport, hip⟩

/-- Every target of an accepted configuration reaches a listener of the node,
and the relay is the configured one. -/
theorem toRuntime_eq_ok {env cfg nodeId config}
    (h : cfg.toRuntime tcpListeners tuicListeners env nodeId = .ok (some config)) :
    config.relay = cfg.relay ∧
      ∀ target ∈ config.targets, Reaches tcpListeners tuicListeners cfg target.transport target.localAddr := by
  obtain ⟨-, h⟩ := unit_bind_eq_ok.1 h
  split at h
  · cases Except.ok.inj h
  · obtain ⟨token, -, h⟩ := bind_eq_ok.1 h
    obtain ⟨-, h⟩ := unit_bind_eq_ok.1 h
    obtain ⟨-, h⟩ := unit_bind_eq_ok.1 h
    obtain ⟨targets, htargets, h⟩ := bind_eq_ok.1 h
    obtain ⟨serverName, -, h⟩ := bind_eq_ok.1 h
    obtain rfl := Option.some.inj (Except.ok.inj h)
    refine ⟨rfl, fun target htarget => ?_⟩
    obtain ⟨mapping, hmapping, hok⟩ := Forall₂.exists_of_mem_right (mapM_eq_ok.1 htargets) htarget
    exact target_reaches hmapping hok

end

end Rove.Ingress.Connector
