/-
The configuration of the relay (`RelayFile::compile` of `ingress/relay.rs`):
which nodes may register, and which public ports each of their listeners may
use. `grants_apart` is what its overlap check gives: a port of a transport is
granted to one listener of one node.

The variables of the environment are given; the file is read by another crate.
-/
import Rove.Base.SocketAddr
import Rove.AddrBook.Book

namespace Rove.Ingress

open List Res

inductive Transport where
  | tcp
  | udp
  deriving DecidableEq

def Transport.asStr : Transport → Str
  | .tcp => "tcp"
  | .udp => "udp"

def Transport.parse (value : Str) : Res Transport :=
  let value := Str.toAsciiLowercase (Str.trim value)
  if value = "tcp" then pure .tcp
  else if value = "udp" then pure .udp
  else throw "ingress frame: transport must be tcp or udp"

/-- `PortRange`, which is never empty. -/
structure PortRange where
  start : Nat
  last : Nat
  valid : 0 < start ∧ start ≤ last

/-- `start..=end`. -/
def PortRange.ports (r : PortRange) : List Nat := List.range' r.start (r.last + 1 - r.start)

variable {port : Nat}

@[simp] theorem PortRange.mem_ports {r : PortRange} : port ∈ r.ports ↔ r.start ≤ port ∧ port ≤ r.last := by
  rw [ports, mem_range'_1]
  omega

structure ListenerGrant where
  ports : List PortRange

structure NodeGrant where
  tokens : List Str
  listeners : HashMap (Str × Transport) ListenerGrant
  maxLeases : Nat
  maxTcpConnections : Nat
  maxUdpFlows : Nat

/-- `RelayConfig`; the grace period is in nanoseconds. -/
structure RelayConfig where
  relayId : Str
  listen : SocketAddr
  publicBind : IpAddr
  cert : Str
  key : Str
  initialMtu : Option Nat
  maxStreams : Nat
  leaseGrace : Nat
  nodes : HashMap Str NodeGrant

variable {grant : ListenerGrant} {cfg : RelayConfig}

structure ListenerFile where
  id : Str
  transport : Str
  ports : List Str

structure NodeFile where
  nodeId : Str
  token : Str := []
  tokenEnv : Str := []
  tokens : List Str := []
  tokenEnvs : List Str := []
  maxLeases : Nat := 16
  maxTcpConnections : Nat := 4096
  maxUdpFlows : Nat := 4096
  listeners : List ListenerFile := []

structure RelayFile where
  relayId : Str
  listen : Str
  publicBind : Str := "0.0.0.0"
  cert : Str
  key : Str
  initialMtu : Option Nat := none
  maxStreams : Nat := 1024
  leaseGraceSecs : Nat := 30
  nodes : List NodeFile := []

def maxPortsPerGrant : Nat := 4096
def maxConfigStreams : Nat := 65536
def maxConfigLeases : Nat := 1024
def maxConfigConnections : Nat := 65536
def maxConfigUdpFlows : Nat := 65536
def maxLeaseGraceSecs : Nat := 86400
def maxTokenBytes : Nat := 1024
def minQuicMtu : Nat := 1200
def maxQuicMtu : Nat := 1500

/-! ## Compiling -/

/-- The bytes `validate_id` takes. -/
def idByte (b : UInt8) : Bool :=
  (48 ≤ b && b ≤ 57) || (65 ≤ b && b ≤ 90) || (97 ≤ b && b ≤ 122) || b = 45 || b = 95 || b = 46 || b = 58

def validateId (field : String) (value : Str) : Res Unit := do
  ensure (value ≠ []) s!"{field} must not be empty"
  ensure ((utf8Bytes value).length ≤ 128) s!"{field} is too long"
  ensure ((utf8Bytes value).all idByte = true) s!"{field} contains unsupported characters"

def validateInitialMtu (field : String) : Option Nat → Res Unit
  | some v => ensure (minQuicMtu ≤ v ∧ v ≤ maxQuicMtu) s!"{field} {v} out of range [{minQuicMtu}, {maxQuicMtu}]"
  | none => pure ()

/-- A value that has to lie between one and a limit. -/
def ensureUpTo (field : String) (limit v : Nat) : Res Unit :=
  ensure (1 ≤ v ∧ v ≤ limit) s!"{field} must be in [1, {limit}]"

/-- The ports of one text of a grant. -/
def parseRange (raw : Str) : Res (Nat × Nat) :=
  match Str.splitOnce '-' raw with
  | some (start, last) =>
    match parseUnsigned 16 10 start, parseUnsigned 16 10 last with
    | some start, some last => pure (start, last)
    | _, _ => throw s!"invalid port range {Str.debug raw}"
  | none =>
    match parseUnsigned 16 10 raw with
    | some port => pure (port, port)
    | none => throw s!"invalid port {Str.debug raw}"

/-- The loop of `compile_ports`, with the number of ports so far. -/
def compileRanges : List Str → Nat → Res (List PortRange)
  | [], _ => pure []
  | raw :: rest, total => do
    let raw := Str.trim raw
    let (start, last) ← parseRange raw
    if valid : 0 < start ∧ start ≤ last then
      let total := total + (last - start) + 1
      ensure (total ≤ maxPortsPerGrant) s!"listener grant expands beyond {maxPortsPerGrant} ports"
      let ranges ← compileRanges rest total
      pure (⟨start, last, valid⟩ :: ranges)
    else throw s!"invalid port range {Str.debug raw}"

def compilePorts (values : List Str) : Res (List PortRange) := do
  ensure (values ≠ []) "listener grant needs at least one port"
  compileRanges values 0

/-- The loop over the listeners of a node. -/
def compileListeners : List ListenerFile → HashMap (Str × Transport) ListenerGrant →
    Res (HashMap (Str × Transport) ListenerGrant)
  | [], listeners => pure listeners
  | listener :: rest, listeners => do
    validateId "relay listener id" listener.id
    let transport ← (Transport.parse listener.transport).mapError fun e => s!"listener {Str.display listener.id}: {e}"
    ensure (listeners.containsKey (listener.id, transport) = false)
      s!"duplicate relay listener {Str.display listener.id} {Str.display transport.asStr}"
    let ports ← compilePorts listener.ports
    compileListeners rest (listeners.insert (listener.id, transport) ⟨ports⟩)

section
variable (env : Str → Option Str)

/-- The loop over the names of variables that hold a token. -/
def envTokens (nodeId : Str) : List Str → Res (List Str)
  | [] => pure []
  | envName :: rest => do
    let envName := Str.trim envName
    ensure (envName ≠ []) "relay token env name is empty"
    match env envName with
    | none => throw s!"relay node {Str.display nodeId} token environment variable {Str.display envName} is not set"
    | some token => do
      ensure (token ≠ []) "relay node token must not be empty"
      let tokens ← envTokens nodeId rest
      pure (token :: tokens)

/-- The checks on the tokens of a node. -/
def ensureTokens (nodeId : Str) (tokens : List Str) : Res (List Str) := do
  ensure (tokens ≠ []) s!"relay node {Str.display nodeId} needs at least one token or token_env"
  ensure (∀ token ∈ tokens, (utf8Bytes token).length ≤ maxTokenBytes ∧
    (utf8Bytes token).any (fun b => b = 13 ∨ b = 10 ∨ b = 0) = false)
    s!"relay node {Str.display nodeId} has a token that cannot be encoded safely"
  pure tokens

def compileTokens (node : NodeFile) : Res (List Str) := do
  let tokens := (node.tokens.map Str.trim).filter (· ≠ [])
  let tokens := if Str.trim node.token ≠ [] then tokens ++ [Str.trim node.token] else tokens
  let names := if Str.trim node.tokenEnv ≠ [] then node.tokenEnvs ++ [Str.trim node.tokenEnv] else node.tokenEnvs
  let more ← envTokens env node.nodeId names
  ensureTokens node.nodeId (AddrBook.sortDedup (tokens ++ more))

def compileNodes : List NodeFile → HashMap Str NodeGrant → Res (HashMap Str NodeGrant)
  | [], nodes => pure nodes
  | node :: rest, nodes => do
    validateId "relay node_id" node.nodeId
    ensure (nodes.containsKey node.nodeId = false) s!"duplicate relay node_id {Str.debug node.nodeId}"
    ensureUpTo "node max_leases" maxConfigLeases node.maxLeases
    ensureUpTo "node max_tcp_connections" maxConfigConnections node.maxTcpConnections
    ensureUpTo "node max_udp_flows" maxConfigUdpFlows node.maxUdpFlows
    let tokens ← compileTokens env node
    let listeners ← compileListeners node.listeners ∅
    ensure (listeners.len ≠ 0) s!"relay node {Str.display node.nodeId} needs at least one listener grant"
    compileNodes rest
      (nodes.insert node.nodeId ⟨tokens, listeners, node.maxLeases, node.maxTcpConnections, node.maxUdpFlows⟩)

end

/-- `ReservationKey`: whose ports they are. -/
structure ReservationKey where
  nodeId : Str
  listenerId : Str
  transport : Transport
  deriving DecidableEq

/-- The grants of all listeners of all nodes. -/
def grantsOf (nodes : HashMap Str NodeGrant) : List (ReservationKey × ListenerGrant) :=
  nodes.entries.flatMap fun (nodeId, node) =>
    node.listeners.entries.map fun ((listenerId, transport), grant) => (⟨nodeId, listenerId, transport⟩, grant)

/-- Who owns a port, as the overlap check says it. -/
def ownerOf (key : ReservationKey) : Str := key.nodeId ++ '/' :: key.listenerId ++ '/' :: key.transport.asStr

/-- The ports of all grants with their owners, as the nested loops of
`validate_non_overlapping_grants` come to them. -/
def portOwners (nodes : HashMap Str NodeGrant) : List ((Transport × Nat) × Str) :=
  (grantsOf nodes).flatMap fun (key, grant) =>
    (grant.ports.flatMap PortRange.ports).map fun port => ((key.transport, port), ownerOf key)

/-- The innermost body, for each port in turn. -/
def claimAll : List ((Transport × Nat) × Str) → HashMap (Transport × Nat) Str → Res Unit
  | [], _ => pure ()
  | ((transport, port), owner) :: rest, claimed =>
    match claimed.get? (transport, port) with
    | some existing =>
      throw (s!"relay port grant overlap on {Str.display transport.asStr} {port}: " ++
        s!"{Str.display existing} and {Str.display owner}")
    | none => claimAll rest (claimed.insert (transport, port) owner)

def validateNonOverlappingGrants (nodes : HashMap Str NodeGrant) : Res Unit := claimAll (portOwners nodes) ∅

def RelayFile.compile (env : Str → Option Str) (file : RelayFile) : Res RelayConfig := do
  validateId "relay_id" file.relayId
  ensure (Str.trim file.cert ≠ []) "relay cert is required"
  ensure (Str.trim file.key ≠ []) "relay key is required"
  ensureUpTo "relay max_streams" maxConfigStreams file.maxStreams
  ensureUpTo "relay lease_grace_secs" maxLeaseGraceSecs file.leaseGraceSecs
  validateInitialMtu "relay initial_mtu" file.initialMtu
  match parseSocketAddr file.listen with
  | none => throw s!"relay listen {Str.debug file.listen}: invalid socket address syntax"
  | some listen =>
    match parseIpAddr file.publicBind with
    | none => throw s!"relay public_bind {Str.debug file.publicBind}: invalid IP address syntax"
    | some publicBind => do
      let nodes ← compileNodes env file.nodes ∅
      ensure (nodes.len ≠ 0) "relay needs at least one authorized node"
      validateNonOverlappingGrants nodes
      pure
        { relayId := file.relayId, listen, publicBind, cert := file.cert, key := file.key
          initialMtu := file.initialMtu, maxStreams := file.maxStreams
          leaseGrace := file.leaseGraceSecs * 10 ^ 9, nodes }

/-! ## What was compiled -/

def portAllowed (grant : ListenerGrant) (port : Nat) : Bool := grant.ports.any fun r => r.start ≤ port && port ≤ r.last

theorem portAllowed_iff :
    portAllowed grant port = true ↔ port ∈ grant.ports.flatMap PortRange.ports := by
  simp [portAllowed]

theorem pos_of_portAllowed (h : portAllowed grant port = true) : 0 < port := by
  obtain ⟨r, -, hport⟩ := mem_flatMap.1 (portAllowed_iff.1 h)
  have hstart := (PortRange.mem_ports.1 hport).1
  have := r.valid.1
  omega

def RelayConfig.grantOf (cfg : RelayConfig) (key : ReservationKey) : Option ListenerGrant :=
  (cfg.nodes.get? key.nodeId).bind fun node => node.listeners.get? (key.listenerId, key.transport)

theorem mem_grantsOf {key} (h : cfg.grantOf key = some grant) :
    (key, grant) ∈ grantsOf cfg.nodes := by
  obtain ⟨node, hnode, hgrant⟩ := Option.bind_eq_some_iff.1 h
  exact mem_flatMap.2 ⟨_, HashMap.get?_eq_some_iff.1 hnode,
    mem_map.2 ⟨_, HashMap.get?_eq_some_iff.1 hgrant, rfl⟩⟩

theorem claimAll_nodup {es claimed}
    (h : claimAll es claimed = .ok ()) : (es.map Prod.fst).Nodup ∧ ∀ k ∈ es.map Prod.fst, claimed.get? k = none := by
  induction es generalizing claimed with
  | nil => exact ⟨nodup_nil, nofun⟩
  | cons e es ih =>
    obtain ⟨⟨transport, port⟩, owner⟩ := e
    rw [claimAll] at h
    split at h
    · cases h
    · next hnone =>
      obtain ⟨hnodup, hfresh⟩ := ih h
      have hnot : (transport, port) ∉ es.map Prod.fst := by
        intro hmem
        have hself := hfresh _ hmem
        rw [HashMap.get?_insert_self] at hself
        cases hself
      refine ⟨nodup_cons.2 ⟨hnot, hnodup⟩, fun k hk => ?_⟩
      rcases mem_cons.1 hk with rfl | hk
      · exact hnone
      · have hk' := hfresh k hk
        rwa [HashMap.get?_insert_ne _ _ (ne_of_mem_of_not_mem hk hnot)] at hk'

/-- A port of a transport is granted to one listener of one node. -/
theorem grants_apart (h : validateNonOverlappingGrants cfg.nodes = .ok ()) {key key' grant'}
    (hgrant : cfg.grantOf key = some grant) (hgrant' : cfg.grantOf key' = some grant')
    (htransport : key.transport = key'.transport) (hport : portAllowed grant port = true)
    (hport' : portAllowed grant' port = true) : key = key' := by
  have hnodup := (claimAll_nodup h).1
  rw [portOwners, map_flatMap] at hnodup
  have hdisjoint := (nodup_flatMap.1 hnodup).2
  by_contra hne
  -- the two grants stand at different places of the list, and share the port
  have hapart := @List.Pairwise.forall _ _ _ ⟨by intro _ _ h a ha ha'; exact h ha' ha⟩
    hdisjoint _ (mem_grantsOf hgrant) _
    (mem_grantsOf hgrant') fun heq => hne (congrArg Prod.fst heq)
  have hmem : ∀ {key : ReservationKey} {grant : ListenerGrant}, portAllowed grant port = true →
      (key.transport, port) ∈ ((grant.ports.flatMap PortRange.ports).map fun port =>
        ((key.transport, port), ownerOf key)).map Prod.fst := by
    intro key grant hport
    rw [map_map]
    exact mem_map_of_mem (portAllowed_iff.1 hport)
  exact hapart (hmem hport) (htransport ▸ hmem hport')

/-- Every node that was compiled may register and take a lease. -/
structure NodeGrant.Usable (node : NodeGrant) : Prop where
  tokens : node.tokens ≠ []
  maxLeases : 0 < node.maxLeases

theorem compileNodes_usable {env files nodes nodes'}
    (h : compileNodes env files nodes = .ok nodes') (hnodes : ∀ {id node}, nodes.get? id = some node → node.Usable)
    {id node} (hnode : nodes'.get? id = some node) : node.Usable := by
  induction files generalizing nodes with
  | nil =>
    cases h
    exact hnodes hnode
  | cons file files ih =>
    obtain ⟨_, -, h⟩ := bind_eq_ok.1 h
    obtain ⟨-, h⟩ := ensure_bind_eq_ok.1 h
    obtain ⟨hleases, h⟩ := ensure_bind_eq_ok.1 h
    obtain ⟨-, h⟩ := ensure_bind_eq_ok.1 h
    obtain ⟨-, h⟩ := ensure_bind_eq_ok.1 h
    obtain ⟨tokens, htokens, h⟩ := bind_eq_ok.1 h
    obtain ⟨listeners, -, h⟩ := bind_eq_ok.1 h
    obtain ⟨-, h⟩ := ensure_bind_eq_ok.1 h
    refine ih h fun {id' node'} hnode' => ?_
    rw [HashMap.get?_insert] at hnode'
    split at hnode'
    · cases hnode'
      obtain ⟨_, -, htokens⟩ := bind_eq_ok.1 htokens
      obtain ⟨hne, htokens⟩ := ensure_bind_eq_ok.1 htokens
      obtain ⟨-, htokens⟩ := ensure_bind_eq_ok.1 htokens
      cases htokens
      exact ⟨hne, hleases.1⟩
    · exact hnodes hnode'

/-- What holds of a configuration that was accepted. -/
structure RelayConfig.Accepted (cfg : RelayConfig) : Prop where
  apart : validateNonOverlappingGrants cfg.nodes = .ok ()
  usable : ∀ {id node}, cfg.nodes.get? id = some node → node.Usable
  leaseGrace : 0 < cfg.leaseGrace

theorem accepted_of_compile {env : Str → Option Str} {file : RelayFile}
    (h : file.compile env = .ok cfg) : cfg.Accepted := by
  obtain ⟨_, -, h⟩ := bind_eq_ok.1 h
  obtain ⟨-, h⟩ := ensure_bind_eq_ok.1 h
  obtain ⟨-, h⟩ := ensure_bind_eq_ok.1 h
  obtain ⟨-, h⟩ := ensure_bind_eq_ok.1 h
  obtain ⟨hgrace, h⟩ := ensure_bind_eq_ok.1 h
  obtain ⟨_, -, h⟩ := bind_eq_ok.1 h
  split at h
  · cases h
  split at h
  · cases h
  obtain ⟨nodes, hnodes, h⟩ := bind_eq_ok.1 h
  obtain ⟨-, h⟩ := ensure_bind_eq_ok.1 h
  obtain ⟨_, hapart, h⟩ := bind_eq_ok.1 h
  cases h
  refine ⟨hapart, compileNodes_usable hnodes nofun, ?_⟩
  show 0 < file.leaseGraceSecs * 10 ^ 9
  omega

end Rove.Ingress
