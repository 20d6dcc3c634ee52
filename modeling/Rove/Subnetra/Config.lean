/-
The configuration of a mesh node and its validation (`subnetra/config.rs`), on
a platform with TUN devices. Reading `addr/len` is the `ipnet` crate's and a
parameter.

`toRuntime_peers`: what validation says about the peers of a node.
-/
import Rove.Base.IpNet
import Rove.Base.Result
import Rove.Base.SocketAddr
import Rove.Base.Utf8

namespace Rove.Subnetra

open Res

def keyLen : Nat := 32

def innerMtu : Nat := 1452

def minInnerMtu : Nat := 576

structure PeerConfig where
  id : BitVec 16
  psk : Str
  allowedSrc : Str
  endpoint : Option Str
  name : Str

structure TunConfig where
  name : Str := "rove0"
  manage : Bool := true

/-- `SubnetraConfig`, with the defaults of its deserializer. -/
structure SubnetraConfig where
  mode : Str
  localId : BitVec 16
  listen : Str
  overlayCidr : Str
  obfuscate : Bool := true
  keepaliveSecs : BitVec 64 := 25
  mtu : Option Nat := none
  device : Str := "netstack"
  tun : TunConfig := {}
  proxyProtocol : Str := []
  proxyPort : BitVec 16 := 0
  peers : List PeerConfig := []

inductive Mode where
  | hub
  | spoke
  deriving DecidableEq

inductive Device where
  | netstack (hubProxy : Option (Str × BitVec 16))
  | tun (name : Str) (manage : Bool)
  deriving DecidableEq

structure RuntimePeer where
  id : BitVec 16
  psk : Bytes
  allowedSrc : Ipv4Net
  endpoint : Option SocketAddr
  name : Str
  deriving DecidableEq

structure RuntimeConfig where
  mode : Mode
  localId : BitVec 16
  listen : SocketAddr
  overlay : Ipv4Net
  obfuscate : Bool
  keepaliveSecs : BitVec 64
  mtu : Nat
  device : Device
  peers : List RuntimePeer
  deriving DecidableEq

def RuntimeConfig.overlayIp (cfg : RuntimeConfig) : Ipv4Addr := cfg.overlay.addr

def Mode.parse (s : Str) : Res Mode :=
  let word := Str.toAsciiLowercase (Str.trim s)
  if word = "hub" then .ok .hub
  else if word = "spoke" then .ok .spoke
  else .error s!"subnetra.mode must be \"hub\" or \"spoke\", got {Str.debug word}"

/-- `&s[start..start + 2]`, which is no text unless both ends are character
boundaries. -/
def slicePair (s : Str) (start : Nat) : Option Str := fromUtf8 (((utf8Bytes s).drop start).take 2)

/-- One byte of a key: two digits. A slice off a character boundary is a panic
in the source. -/
def pskByte (s : Str) (i : Nat) : Res UInt8 :=
  match slicePair s (i * 2) with
  | none => .error "byte index is not a char boundary"
  | some digits =>
    match parseUnsigned 8 16 digits with
    | none => .error "psk contains non-hex characters"
    | some n => .ok (UInt8.ofNat n)

def parsePsk (s : Str) : Res Bytes := do
  let s := Str.trim s
  let len := (utf8Bytes s).length
  ensure (len = keyLen * 2) s!"psk must be {keyLen * 2} hex chars (32 bytes), got {len}"
  (List.range keyLen).mapM (pskByte s)

section Runtime

variable (parseIpv4Net : Str → Res Ipv4Net)

/-- A text read as `ip:port`, under the label its error starts with. -/
def readAddr (label : String) (s : Str) : Res SocketAddr :=
  match parseSocketAddr (Str.trim s) with
  | some a => .ok a
  | none => .error s!"{label} {Str.debug s} is not ip:port: invalid socket address syntax"

/-- A text read as an IPv4 CIDR, under the label its error starts with. -/
def readCidr (label : String) (s : Str) : Res Ipv4Net :=
  match parseIpv4Net (Str.trim s) with
  | .ok net => .ok net
  | .error e => .error s!"{label} {Str.debug s} is not an IPv4 CIDR: {e}"

/-- The inner MTU: within its range, or the ceiling when it is not given. -/
def runtimeMtu : Option Nat → Res Nat
  | none => .ok innerMtu
  | some v => do
    ensure (minInnerMtu ≤ v ∧ v ≤ innerMtu) s!"subnetra.mtu {v} out of range [{minInnerMtu}, {innerMtu}]"
    return v

/-- The proxy a hub serves on the userspace stack. -/
def runtimeHubProxy (cfg : SubnetraConfig) : Res (Str × BitVec 16) := do
  let proto := Str.toAsciiLowercase (Str.trim cfg.proxyProtocol)
  ensure (proto = "http" ∨ proto = "socks5")
    s!"subnetra hub requires proxy_protocol \"http\" or \"socks5\", got {Str.debug cfg.proxyProtocol}"
  ensure (cfg.proxyPort ≠ 0) "subnetra hub requires a non-zero proxy_port"
  return (proto, cfg.proxyPort)

def runtimeTun (cfg : SubnetraConfig) : Res Device := do
  ensure (Str.trim cfg.proxyProtocol = [] ∧ cfg.proxyPort = 0)
    "subnetra.device = \"tun\" does not provide an in-process proxy listener; bind [[listeners]] to the overlay IP instead"
  let name := Str.trim cfg.tun.name
  ensure (name ≠ []) "subnetra.tun.name cannot be empty"
  ensure ((utf8Bytes name).length ≤ 15) s!"subnetra.tun.name {Str.debug name} exceeds 15 bytes"
  ensure (name.any (fun c => Str.isWhitespace c || c == '/' || c == '\x00') = false)
    s!"subnetra.tun.name {Str.debug name} contains invalid characters"
  return .tun name cfg.tun.manage

def runtimeDevice (mode : Mode) (cfg : SubnetraConfig) : Res Device :=
  let kind := Str.toAsciiLowercase (Str.trim cfg.device)
  if kind = "netstack" then
    if mode = .hub then (fun proxy => .netstack (some proxy)) <$> runtimeHubProxy cfg else .ok (.netstack none)
  else if kind = "tun" then runtimeTun cfg
  else .error s!"subnetra.device must be \"netstack\" or \"tun\", got {Str.debug cfg.device}"

def PeerConfig.label (p : PeerConfig) : String := s!"peer {Str.display p.name} (id {p.id.toNat})"

/-- `parse_psk` under the peer's label. -/
def PeerConfig.readPsk (p : PeerConfig) : Res Bytes :=
  match parsePsk p.psk with
  | .ok psk => .ok psk
  | .error e => .error s!"{p.label}: {e}"

/-- The peer's endpoint, if it has one. -/
def PeerConfig.readEndpoint (p : PeerConfig) : Res (Option SocketAddr) :=
  match p.endpoint with
  | none => .ok none
  | some ep => some <$> readAddr s!"{p.label} endpoint" ep

/-- One peer, once its id has passed. -/
def runtimePeer (mode : Mode) (p : PeerConfig) : Res RuntimePeer := do
  let psk ← p.readPsk
  let allowedSrc ← readCidr parseIpv4Net s!"{p.label} allowed_src" p.allowedSrc
  let endpoint ← p.readEndpoint
  ensure (mode = .spoke → endpoint.isSome = true) s!"spoke {p.label} requires an endpoint to dial"
  return ⟨p.id, psk, allowedSrc, endpoint, p.name⟩

/-- The loop over the peers; `seen` has the ids before. -/
def runtimePeers (mode : Mode) (localId : BitVec 16) : (seen : List (BitVec 16)) →
    List PeerConfig → Res (List RuntimePeer)
  | _, [] => .ok []
  | seen, p :: ps => do
    ensure (p.id ≠ 0) "peer id must be non-zero"
    ensure (p.id ≠ localId) s!"peer id {p.id.toNat} collides with subnetra.local_id"
    ensure (p.id ∉ seen) s!"duplicate peer id {p.id.toNat} in subnetra.peers"
    let peer ← runtimePeer parseIpv4Net mode p
    let peers ← runtimePeers mode localId (p.id :: seen) ps
    return peer :: peers

def SubnetraConfig.toRuntime (cfg : SubnetraConfig) : Res RuntimeConfig := do
  let mode ← Mode.parse cfg.mode
  ensure (cfg.localId ≠ 0) "subnetra.local_id must be non-zero (0 < id <= 65535)"
  let listen ← readAddr "subnetra.listen" cfg.listen
  let overlay ← readCidr parseIpv4Net "subnetra.overlay_cidr" cfg.overlayCidr
  ensure (cfg.peers ≠ []) "subnetra requires at least one peer when enabled"
  let mtu ← runtimeMtu cfg.mtu
  let device ← runtimeDevice mode cfg
  let peers ← runtimePeers parseIpv4Net mode cfg.localId [] cfg.peers
  return ⟨mode, cfg.localId, listen, overlay, cfg.obfuscate, cfg.keepaliveSecs, mtu, device, peers⟩

end Runtime

variable {parseIpv4Net : Str → Res Ipv4Net}

theorem runtimePeer_id {mode p peer}
    (h : runtimePeer parseIpv4Net mode p = .ok peer) : peer.id = p.id := by
  obtain ⟨_, _, h⟩ := bind_eq_ok.1 h
  obtain ⟨_, _, h⟩ := bind_eq_ok.1 h
  obtain ⟨_, _, h⟩ := bind_eq_ok.1 h
  obtain ⟨_, h⟩ := ensure_bind_eq_ok.1 h
  cases h
  rfl

/-- The peers that pass have ids of their own, none of them zero, the node's
or one seen before. -/
theorem runtimePeers_ids {mode localId seen ps peers} (h : runtimePeers parseIpv4Net mode localId seen ps = .ok peers) :
    (peers.map (·.id)).Nodup ∧ ∀ p ∈ peers, p.id ≠ 0 ∧ p.id ≠ localId ∧ p.id ∉ seen := by
  induction ps generalizing seen peers with
  | nil =>
    cases h
    exact ⟨List.nodup_nil, by simp⟩
  | cons p ps ih =>
    obtain ⟨hzero, h⟩ := ensure_bind_eq_ok.1 h
    obtain ⟨hlocal, h⟩ := ensure_bind_eq_ok.1 h
    obtain ⟨hseen, h⟩ := ensure_bind_eq_ok.1 h
    obtain ⟨peer, hpeer, h⟩ := bind_eq_ok.1 h
    obtain ⟨rest, hrest, h⟩ := bind_eq_ok.1 h
    cases h
    obtain ⟨hnodup, hids⟩ := ih hrest
    have hid := runtimePeer_id hpeer
    refine ⟨?_, fun q hq => ?_⟩
    · rw [List.map_cons, List.nodup_cons]
      refine ⟨fun hmem => ?_, hnodup⟩
      obtain ⟨q, hq, heq⟩ := List.mem_map.1 hmem
      exact (hids q hq).2.2 (by rw [heq, hid]; exact List.mem_cons_self)
    · rcases List.mem_cons.1 hq with rfl | hq
      · exact ⟨hid ▸ hzero, hid ▸ hlocal, hid ▸ hseen⟩
      · obtain ⟨hz, hl, hs⟩ := hids q hq
        exact ⟨hz, hl, fun hmem => hs (List.mem_cons_of_mem _ hmem)⟩

/-- A mesh that validation accepts has peers with ids of their own, none of
them zero or the node's; its keepalives are as configured. -/
theorem toRuntime_spec {cfg : SubnetraConfig} {rc : RuntimeConfig} (h : cfg.toRuntime parseIpv4Net = .ok rc) :
    ((rc.peers.map (·.id)).Nodup ∧ ∀ p ∈ rc.peers, p.id ≠ 0 ∧ p.id ≠ rc.localId) ∧
      rc.keepaliveSecs = cfg.keepaliveSecs ∧ rc.obfuscate = cfg.obfuscate := by
  obtain ⟨mode, _, h⟩ := bind_eq_ok.1 h
  obtain ⟨_, h⟩ := ensure_bind_eq_ok.1 h
  obtain ⟨listen, _, h⟩ := bind_eq_ok.1 h
  obtain ⟨overlay, _, h⟩ := bind_eq_ok.1 h
  obtain ⟨_, h⟩ := ensure_bind_eq_ok.1 h
  obtain ⟨mtu, _, h⟩ := bind_eq_ok.1 h
  obtain ⟨device, _, h⟩ := bind_eq_ok.1 h
  obtain ⟨peers, hpeers, h⟩ := bind_eq_ok.1 h
  cases h
  obtain ⟨hnodup, hids⟩ := runtimePeers_ids hpeers
  exact ⟨⟨hnodup, fun p hp => ⟨(hids p hp).1, (hids p hp).2.1⟩⟩, rfl, rfl⟩

theorem toRuntime_peers {cfg : SubnetraConfig} {rc : RuntimeConfig} (h : cfg.toRuntime parseIpv4Net = .ok rc) :
    (rc.peers.map (·.id)).Nodup ∧ ∀ p ∈ rc.peers, p.id ≠ 0 ∧ p.id ≠ rc.localId :=
  (toRuntime_spec h).1

end Rove.Subnetra
