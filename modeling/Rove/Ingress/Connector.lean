/-
The connector of a node (`ingress/connector.rs`) against any relay: it
registers, asks for a lease of each of its targets, and then serves the streams
and datagrams the relay sends, each under the lease it names.

What the relay sends is given as bytes. The datagram loop, the sweeper, the
tasks that return answers and the end of the session take their steps in any
order, one for each await; a step that is not possible changes nothing. What
the operating system answers and the time are left to the events.
`connector_contacts_only_listeners` says where anything goes.
-/
import Rove.Base.Run
import Rove.Ingress.ConnectorConfig

namespace Rove.Ingress.Connector

open List Res
open Inbound (splitHostPort)

/-! ## Setting up a session -/

structure ActiveLease where
  leaseId : Nat
  target : LocalTarget
  publicPort : Nat
  deriving DecidableEq

/-- What a session of a connector meets: the answers of the resolver and of the
transport, and for each stream the connector opens the bytes that come back. -/
structure Dialogue (ε : Type) where
  resolve : Str → Nat → Res SocketAddr
  handshake : Res Unit
  control : Res Bytes
  lease : Nat → Res Bytes
  events : List ε

/-- The fields of `ConnectorSession` that do not change. -/
structure Session where
  relayAddr : SocketAddr
  relayId : Str
  sessionId : Id128
  leases : HashMap Nat ActiveLease
  maxUdpFlows : Nat

/-- The header of a reply, which must be there. -/
def Reply.need (reply : Reply) (name : Str) (error : String) : Res Str := (reply.header name).elim (throw error) pure

/-- Writing a request on a stream and reading the reply. -/
def ask (request : Res Bytes) (stream : Res Bytes) : Res Reply := do
  let bytes ← request
  let _ ← writeFrame bytes
  let stream ← stream
  let (lines, _) ← readFrame stream
  Reply.parse lines

/-- Registering: the relay's name and the session. -/
def register (config : ConnectorConfig) (control : Res Bytes) : Res (Str × Id128) := do
  let reply ← ask (RegisterRequest.encode ⟨config.nodeId, config.token⟩) control
  match reply with
  | .err _ => throw "relay refused registration"
  | .ok _ => do
    let relayId ← Reply.need reply "relay-id" "register reply missing relay-id"
    let session ← Reply.need reply "session-id" "register reply missing session-id"
    let sessionId ← Id128.parseHex session
    pure (relayId, sessionId)

def requestLease (target : LocalTarget) (stream : Res Bytes) : Res ActiveLease := do
  let reply ← ask (LeaseRequest.encode ⟨target.id, target.transport, target.publicPort⟩) stream
  match reply with
  | .err code =>
    throw
      s!"relay refused listener {Str.display target.id} {Str.display target.transport.asStr} lease: {Str.display code}"
  | .ok _ => do
    let leaseId ← Reply.need reply "lease-id" "lease reply missing lease-id"
    let leaseId ← parseNumber 64 leaseId "lease reply has invalid lease-id"
    let publicPort ← Reply.need reply "public-port" "lease reply missing public-port"
    let publicPort ← parseNumber 16 publicPort "lease reply has invalid public-port"
    pure ⟨leaseId, target, publicPort⟩

/-- The loop over the targets. A lease number given twice names the later target. -/
def requestLeases (streams : Nat → Res Bytes) : Nat → List LocalTarget → HashMap Nat ActiveLease →
    Res (HashMap Nat ActiveLease)
  | _, [], leases => pure leases
  | i, target :: rest, leases => do
    let lease ← requestLease target (streams i)
    requestLeases streams (i + 1) rest (leases.insert lease.leaseId lease)

/-- `connect_and_serve` until the session stands, from the address of the relay on. -/
def openSession {ε : Type} (config : ConnectorConfig) (d : Dialogue ε) (remote : SocketAddr) : Res Session := do
  d.handshake
  let (relayId, sessionId) ← register config d.control
  let leases ← requestLeases d.lease 0 config.targets ∅
  pure ⟨remote, relayId, sessionId, leases, config.maxUdpFlows⟩

/-! ## Streams -/

/-- The error codes of `ingress/frame.rs` that a connector answers with. -/
inductive Refusal where
  | badRequest
  | forbidden
  | localUnavailable
  deriving DecidableEq

/-- What a step of the connector does outside of it. -/
inductive Effect where
  /-- the QUIC connection to the relay -/
  | dial (addr : SocketAddr)
  | connectTcp (addr : SocketAddr)
  | sendUdp (addr : SocketAddr) (payload : Bytes)
  /-- on the stream or the connection of the relay -/
  | refuse (code : Refusal)
  | accept
  | answer (datagram : Bytes)
  deriving DecidableEq

/-- What the operating system does for a TCP connection: a socket is bound, its
metadata fits the registry, the connect succeeds in time. -/
structure TcpOutcome where
  bound : Bool
  registered : Bool
  connected : Bool

/-- `connect_local_tcp`: what it does, and whether there is a connection. -/
def connectLocalTcp (target : SocketAddr) (outcome : TcpOutcome) : List Effect × Bool :=
  if outcome.bound && outcome.registered then ([.connectTcp target], outcome.connected) else ([], false)

/-- The lease of a number, if it is of that transport. -/
def Session.leaseOf (s : Session) (leaseId : Nat) (transport : Transport) : Option ActiveLease :=
  (s.leases.get? leaseId).filter (·.target.transport = transport)

def Session.handleTcp (s : Session) (stream : Bytes) (outcome : TcpOutcome) : List Effect :=
  match readFrame stream >>= fun (lines, _) => OpenTcpRequest.parse lines with
  | .error _ => [.refuse .badRequest]
  | .ok request =>
    match s.leaseOf request.leaseId .tcp with
    | none => [.refuse .forbidden]
    | some lease =>
      if request.relayInstanceId ≠ s.relayId ∨ request.tunnelSessionId ≠ s.sessionId then [.refuse .forbidden]
      else
        let (effects, connected) := connectLocalTcp lease.target.localAddr outcome
        effects ++ [if connected then .accept else .refuse .localUnavailable]

/-! ## Datagrams -/

structure IngressMetadata where
  relayInstanceId : Str
  tunnelSessionId : Str
  leaseId : Nat
  listenerId : Str
  ingressId : Option Str
  flowId : Option Str
  clientAddr : SocketAddr
  relayAddr : SocketAddr

abbrev FlowKey := Nat × Id128

/-- `ConnectorFlow`; a socket is known by its address, and so is the task that reads it. -/
structure ConnectorFlow where
  clientAddr : SocketAddr
  sourceAddr : SocketAddr
  lastSeen : Nat

/-- A task of `spawn_udp_return`. -/
structure ReturnTask where
  leaseId : Nat
  flowId : Id128
  source : SocketAddr
  expectedSource : SocketAddr
  maxInnerDatagram : Nat

/-- A datagram of the relay, under the lease it names. -/
structure Uplink where
  lease : ActiveLease
  flowId : Id128
  clientAddr : SocketAddr
  payload : Bytes
  deriving DecidableEq

def Uplink.key (u : Uplink) : FlowKey := (u.lease.leaseId, u.flowId)

/-- Where `udp_loop` waits. -/
inductive UdpStage where
  /-- in `read_datagram` -/
  | reading
  /-- for the flows, to look the flow up -/
  | looking (u : Uplink)
  /-- in `UdpSocket::bind` -/
  | binding (u : Uplink)
  /-- for the flows, with a socket that is registered and read by a task -/
  | entering (u : Uplink) (source : SocketAddr) (now : Nat)
  /-- in `send_to`, on the socket -/
  | sending (u : Uplink) (source : SocketAddr)
  /-- for the flows, to note the time -/
  | noting (key : FlowKey)
  | stopped
  deriving DecidableEq

/-- `MAX_UDP_FLOWS` of the registry. -/
def maxRegistry : Nat := 65536

/-- `FLOW_IDLE`, in nanoseconds. -/
def flowIdle : Nat := 60000000000

/-- The state of a session: `entries` is the registry of the process. -/
structure State where
  flows : HashMap FlowKey ConnectorFlow := ∅
  udp : UdpStage := .reading
  returns : List ReturnTask := []
  /-- the flows `flow_sweeper` has found idle -/
  expired : List FlowKey := []
  entries : HashMap SocketAddr IngressMetadata := ∅

/-- `insert_bounded`; none if the registry is full. -/
def insertBounded (entries : HashMap SocketAddr IngressMetadata) (source : SocketAddr)
    (m : IngressMetadata) (limit : Nat) :
    Option (HashMap SocketAddr IngressMetadata) :=
  if entries.containsKey source = false ∧ limit ≤ entries.len then none else some (entries.insert source m)

/-- What happens to a session that stands. -/
inductive Event where
  /-- the relay opens a stream and sends these bytes on it -/
  | stream (bytes : Bytes) (outcome : TcpOutcome)
  /-- the relay sends a datagram -/
  | datagram (bytes : Bytes)
  /-- the datagram loop gets the flows -/
  | look
  /-- a socket is bound, or not -/
  | bound (source : Option SocketAddr) (now : Nat)
  | enter
  | sent (ok : Bool)
  | note (now : Nat)
  /-- the sweeper looks for idle flows, and removes the next one -/
  | scan (now : Nat)
  | sweep
  /-- a return task receives a datagram at its socket, or an error; `maxSize` is what
  the connection carries, and `ok` whether it takes the answer -/
  | back (source : SocketAddr) (received : Option (SocketAddr × Bytes)) (now : Nat) (maxSize : Option Nat) (ok : Bool)
  /-- the loops are aborted -/
  | abort
  | clearFlows

variable (s : Session)

/-- What `udp_loop` does with a datagram it has read. -/
def Session.uplinkOf (bytes : Bytes) : Option Uplink :=
  match Datagram.parse bytes with
  | .error _ => none
  | .ok (.downlink _ _ _) => none
  | .ok (.uplink leaseId flowId clientAddr payload) =>
    (s.leaseOf leaseId .udp).bind fun lease =>
      if payload.length > lease.target.maxInnerDatagram then none else some ⟨lease, flowId, clientAddr, payload⟩

def Session.metadata (u : Uplink) : IngressMetadata where
  relayInstanceId := s.relayId
  tunnelSessionId := s.sessionId.toText
  leaseId := u.lease.leaseId
  listenerId := u.lease.target.id
  ingressId := none
  flowId := some u.flowId.toText
  clientAddr := u.clientAddr
  relayAddr := s.relayAddr

/-- `get_or_open_flow` up to the socket. -/
def Session.look (st : State) (u : Uplink) : UdpStage :=
  match st.flows.get? u.key with
  | some flow => if flow.clientAddr ≠ u.clientAddr then .reading else .sending u flow.sourceAddr
  | none => if st.flows.len ≥ s.maxUdpFlows then .reading else .binding u

/-- `get_or_open_flow` from the socket to the second lock: the socket is
registered and a task reads it. -/
def Session.bound (st : State) (u : Uplink) (source : Option SocketAddr) (now : Nat) : State :=
  match source with
  | none => { st with udp := .reading }
  | some source =>
    match insertBounded st.entries source (s.metadata u) maxRegistry with
    | none => { st with udp := .reading }
    | some entries =>
      let task : ReturnTask := ⟨u.lease.leaseId, u.flowId, source, u.lease.target.localAddr,
        u.lease.target.maxInnerDatagram⟩
      { st with entries := entries, returns := task :: st.returns, udp := .entering u source now }

/-- `remove_udp` and the abort of the task of a socket. -/
def State.dropSocket (st : State) (source : SocketAddr) : State :=
  { st with entries := st.entries.erase source, returns := st.returns.filter (·.source ≠ source) }

/-- `get_or_open_flow` from the second lock on. -/
def State.enter (st : State) (u : Uplink) (source : SocketAddr) (now : Nat) : State :=
  match st.flows.get? u.key with
  | some existing => { st.dropSocket source with udp := .sending u existing.sourceAddr }
  | none => { st with flows := st.flows.insert u.key ⟨u.clientAddr, source, now⟩, udp := .sending u source }

/-- `last_seen` of a flow is set. -/
def State.seen (st : State) (key : FlowKey) (now : Nat) : State :=
  match st.flows.get? key with
  | some flow => { st with flows := st.flows.insert key { flow with lastSeen := now } }
  | none => st

def State.removeFlow (st : State) (key : FlowKey) : State :=
  match st.flows.get? key with
  | some flow => { st.dropSocket flow.sourceAddr with flows := st.flows.erase key }
  | none => st

/-- One turn of a return task, which drops what does not come from the local
listener and what is too long, and ends when its socket or the connection fails.
(Until its flow is entered, no time is noted.) -/
def State.back (st : State) (source : SocketAddr) (received : Option (SocketAddr × Bytes))
    (now : Nat) (maxSize : Option Nat) (ok : Bool) : State × List Effect :=
  match st.returns.find? (·.source = source), received with
  | none, _ => (st, [])
  | some _, none => ({ st with returns := st.returns.filter (·.source ≠ source) }, [])
  | some task, some (sender, payload) =>
    if sender ≠ task.expectedSource ∨ payload.length > task.maxInnerDatagram then (st, [])
    else
      let st := st.seen (task.leaseId, task.flowId) now
      let encoded := (Datagram.downlink task.leaseId task.flowId payload).encode
      if maxSize.any (encoded.length > ·) then (st, [])
      else if ok then (st, [.answer encoded])
      else ({ st with returns := st.returns.filter (·.source ≠ source) }, [])

def step (st : State) : Event → State × List Effect
  | .stream bytes outcome => (st, s.handleTcp bytes outcome)
  | .datagram bytes =>
    match st.udp with
    | .reading => ((s.uplinkOf bytes).elim st fun u => { st with udp := .looking u }, [])
    | _ => (st, [])
  | .look =>
    match st.udp with
    | .looking u => ({ st with udp := s.look st u }, [])
    | _ => (st, [])
  | .bound source now =>
    match st.udp with
    | .binding u => (s.bound st u source now, [])
    | _ => (st, [])
  | .enter =>
    match st.udp with
    | .entering u source now => (st.enter u source now, [])
    | _ => (st, [])
  | .sent ok =>
    match st.udp with
    | .sending u _ =>
      ({ st with udp := if ok then .noting u.key else .reading }, [.sendUdp u.lease.target.localAddr u.payload])
    | _ => (st, [])
  | .note now =>
    match st.udp with
    | .noting key => ({ st.seen key now with udp := .reading }, [])
    | _ => (st, [])
  | .scan now =>
    ({ st with expired := (st.flows.entries.filter fun e => now - e.2.lastSeen ≥ flowIdle).map (·.1) }, [])
  | .sweep =>
    match st.expired with
    | key :: rest => ({ st.removeFlow key with expired := rest }, [])
    | [] => (st, [])
  | .back source received now maxSize ok => st.back source received now maxSize ok
  | .abort => ({ st with udp := .stopped, expired := [] }, [])
  | .clearFlows => (st.flows.keys.foldl State.removeFlow st, [])

/-! ## Sessions one after another -/

/-- `run_until`: what the connector does, session after session. The registry
stays from one session to the next. -/
def runUntil (config : ConnectorConfig) : HashMap SocketAddr IngressMetadata → List (Dialogue Event) → List Effect
  | _, [] => []
  | entries, d :: rest =>
    match splitHostPort config.relay with
    | none => runUntil config entries rest
    | some (host, port) =>
      match d.resolve host port with
      | .error _ => runUntil config entries rest
      | .ok remote =>
        .dial remote ::
          match openSession config d remote with
          | .error _ => runUntil config entries rest
          | .ok s =>
            let st : State := { entries := entries }
            (runTrace (step s) st d.events).flatMap (·.2) ++
            runUntil config (runState (step s) st d.events).entries rest

/-! ## Where anything goes -/

/-- A session has a lease of the transport. -/
structure Session.Holds (lease : ActiveLease) (transport : Transport) : Prop where
  mem : ∃ leaseId, s.leases.get? leaseId = some lease
  transport : lease.target.transport = transport

/-- What is done locally is done at the target of a lease of that transport. -/
def Effect.Under : Effect → Prop
  | .dial _ => False
  | .connectTcp addr => ∃ lease, s.Holds lease .tcp ∧ addr = lease.target.localAddr
  | .sendUdp addr _ => ∃ lease, s.Holds lease .udp ∧ addr = lease.target.localAddr
  | .refuse _ | .accept | .answer _ => True

/-- The datagram that `udp_loop` is at. -/
def UdpStage.uplink? : UdpStage → Option Uplink
  | .looking u | .binding u | .entering u _ _ | .sending u _ => some u
  | .reading | .noting _ | .stopped => none

/-- The datagram loop is at a datagram of a UDP lease, or at none. -/
def State.Leased (st : State) : Prop := ∀ u, st.udp.uplink? = some u → s.Holds u.lease .udp

variable {s}

theorem Session.holds_of_leaseOf {leaseId transport lease}
    (h : s.leaseOf leaseId transport = some lease) : s.Holds lease transport := by
  obtain ⟨hget, htransport⟩ := Option.filter_eq_some_iff.1 h
  exact ⟨⟨leaseId, hget⟩, by simpa using htransport⟩

theorem Session.handleTcp_under (stream : Bytes) (outcome : TcpOutcome) :
    ∀ e ∈ s.handleTcp stream outcome, e.Under s := by
  intro e he
  unfold handleTcp at he
  cases hparse : (readFrame stream >>= fun (lines, _) => OpenTcpRequest.parse lines) with
  | error _ =>
    rw [hparse] at he
    obtain rfl := mem_singleton.1 he
    trivial
  | ok request =>
    rw [hparse] at he
    dsimp only at he
    cases hlease : s.leaseOf request.leaseId .tcp with
    | none =>
      rw [hlease] at he
      obtain rfl := mem_singleton.1 he
      trivial
    | some lease =>
      rw [hlease] at he
      dsimp only at he
      split at he
      · obtain rfl := mem_singleton.1 he
        trivial
      · rcases mem_append.1 he with he | he
        · unfold connectLocalTcp at he
          split at he
          · obtain rfl := mem_singleton.1 he
            exact ⟨lease, holds_of_leaseOf hlease, rfl⟩
          · cases he
        · obtain rfl := mem_singleton.1 he
          split <;> trivial

theorem Session.uplinkOf_holds {bytes u} (h : s.uplinkOf bytes = some u) : s.Holds u.lease .udp := by
  unfold uplinkOf at h
  split at h
  · cases h
  · cases h
  · obtain ⟨lease, hlease, h⟩ := Option.bind_eq_some_iff.1 h
    split at h
    · cases h
    · cases h
      exact holds_of_leaseOf hlease

/-- Looking a flow up, the loop stays at its datagram or drops it. -/
theorem Session.uplink?_look {st u v} (h : (s.look st u).uplink? = some v) : v = u := by
  unfold look at h
  split at h <;> split at h <;> first | exact (Option.some.inj h).symm | cases h

theorem Session.uplink?_bound {st u v source now}
    (h : (s.bound st u source now).udp.uplink? = some v) : v = u := by
  unfold bound at h
  split at h
  · cases h
  · split at h <;> first | exact (Option.some.inj h).symm | cases h

theorem State.uplink?_enter {st : State} {u v : Uplink} {source : SocketAddr} {now : Nat}
    (h : (st.enter u source now).udp.uplink? = some v) : v = u := by
  unfold enter at h
  split at h <;> exact (Option.some.inj h).symm

@[simp] theorem State.udp_seen (st : State) (key : FlowKey) (now : Nat) : (st.seen key now).udp = st.udp := by
  unfold seen
  split <;> rfl

@[simp] theorem State.udp_removeFlow (st : State) (key : FlowKey) : (st.removeFlow key).udp = st.udp := by
  unfold removeFlow
  split <;> rfl

theorem State.udp_removeFlows (keys : List FlowKey) (st : State) : (keys.foldl State.removeFlow st).udp = st.udp := by
  induction keys generalizing st with
  | nil => rfl
  | cons key keys ih => rw [foldl_cons, ih, udp_removeFlow]

theorem State.back_spec (st : State) (source : SocketAddr) (received : Option (SocketAddr × Bytes)) (now : Nat)
    (maxSize : Option Nat) (ok : Bool) : (st.back source received now maxSize ok).1.udp = st.udp ∧
      ∀ e ∈ (st.back source received now maxSize ok).2, e.Under s := by
  unfold back
  split
  · exact ⟨rfl, nofun⟩
  · exact ⟨rfl, nofun⟩
  split
  · exact ⟨rfl, nofun⟩
  dsimp only
  split
  · exact ⟨udp_seen .., nofun⟩
  split
  · refine ⟨udp_seen .., fun e he => ?_⟩
    obtain rfl := mem_singleton.1 he
    trivial
  · exact ⟨udp_seen .., nofun⟩

/-- One step keeps the loop at datagrams of leases, and what it does is under a lease. -/
theorem step_under {st : State} (h : st.Leased s) (e : Event) :
    (step s st e).1.Leased s ∧ ∀ f ∈ (step s st e).2, f.Under s := by
  have hnone : ∀ f ∈ ([] : List Effect), f.Under s := fun f hf => absurd hf not_mem_nil
  have hkeep : ∀ st' : State, st'.udp = st.udp → st'.Leased s := fun st' hudp u hu => h u (hudp ▸ hu)
  cases e with
  | stream bytes outcome => exact ⟨h, Session.handleTcp_under bytes outcome⟩
  | datagram bytes =>
    simp only [step]
    split
    · refine ⟨fun u hu => ?_, hnone⟩
      cases huplink : s.uplinkOf bytes with
      | none =>
        rw [huplink] at hu
        exact h u hu
      | some v =>
        rw [huplink] at hu
        cases hu
        exact Session.uplinkOf_holds huplink
    · exact ⟨h, hnone⟩
  | look =>
    simp only [step]
    split
    · next v hudp =>
      refine ⟨fun u hu => ?_, hnone⟩
      obtain rfl := Session.uplink?_look hu
      exact h u (by rw [hudp]; rfl)
    · exact ⟨h, hnone⟩
  | bound source now =>
    simp only [step]
    split
    · next v hudp =>
      refine ⟨fun u hu => ?_, hnone⟩
      obtain rfl := Session.uplink?_bound hu
      exact h u (by rw [hudp]; rfl)
    · exact ⟨h, hnone⟩
  | enter =>
    simp only [step]
    split
    · next v source now hudp =>
      refine ⟨fun u hu => ?_, hnone⟩
      obtain rfl := State.uplink?_enter hu
      exact h u (by rw [hudp]; rfl)
    · exact ⟨h, hnone⟩
  | sent ok =>
    simp only [step]
    split
    · next v source hudp =>
      refine ⟨fun u hu => ?_, fun f hf => ?_⟩
      · cases ok <;> cases hu
      · obtain rfl := mem_singleton.1 hf
        exact ⟨v.lease, h v (by rw [hudp]; rfl), rfl⟩
    · exact ⟨h, hnone⟩
  | note now =>
    simp only [step]
    split
    · exact ⟨fun u hu => (by cases hu), hnone⟩
    · exact ⟨h, hnone⟩
  | scan now => exact ⟨hkeep _ rfl, hnone⟩
  | sweep =>
    simp only [step]
    split
    · exact ⟨hkeep _ (State.udp_removeFlow ..), hnone⟩
    · exact ⟨h, hnone⟩
  | back source received now maxSize ok =>
    obtain ⟨hudp, heffects⟩ := State.back_spec (s := s) st source received now maxSize ok
    exact ⟨hkeep _ hudp, heffects⟩
  | abort => exact ⟨fun u hu => (by cases hu), hnone⟩
  | clearFlows => exact ⟨hkeep _ (State.udp_removeFlows ..), hnone⟩

theorem run_under (entries : HashMap SocketAddr IngressMetadata) (events : List Event) :
    ∀ f ∈ (runTrace (step s) { entries := entries } events).flatMap (·.2), f.Under s := by
  intro f hf
  obtain ⟨e, he, hf⟩ := mem_flatMap.1 hf
  have hinit : State.Leased s { entries := entries } := fun u hu => by cases hu
  exact @runTrace_induction _ _ _ (step s) (State.Leased s) (fun _ => True) (fun e => ∀ f ∈ e.2, f.Under s)
    (fun st i h _ => step_under h i) _ hinit events (fun _ _ => trivial) e he f hf

theorem requestLease_target {target stream lease}
    (h : requestLease target stream = .ok lease) : lease.target = target := by
  obtain ⟨reply, -, h⟩ := bind_eq_ok.1 h
  cases reply with
  | err code => cases h
  | ok headers =>
    simp only [bind_eq_ok] at h
    obtain ⟨leaseText, -, leaseId, -, portText, -, publicPort, -, h⟩ := h
    cases h
    rfl

/-- Every lease that the relay gives is of a target of the configuration. -/
theorem requestLeases_targets {streams targets i leases leases'}
    (h : requestLeases streams i targets leases = .ok leases') {leaseId lease}
    (hget : leases'.get? leaseId = some lease) :
    leases.get? leaseId = some lease ∨ lease.target ∈ targets := by
  induction targets generalizing i leases with
  | nil =>
    cases h
    exact .inl hget
  | cons target rest ih =>
    obtain ⟨given, hgiven, h⟩ := bind_eq_ok.1 h
    rcases ih h with hold | hrest
    · rw [HashMap.get?_insert] at hold
      split at hold
      · cases hold
        exact .inr (by rw [requestLease_target hgiven]; exact mem_cons_self)
      · exact .inl hold
    · exact .inr (mem_cons_of_mem _ hrest)

theorem openSession_targets {config : ConnectorConfig} {d : Dialogue Event} {remote : SocketAddr}
    (h : openSession config d remote = .ok s) {lease : ActiveLease} {transport : Transport}
    (hholds : s.Holds lease transport) :
    lease.target ∈ config.targets := by
  obtain ⟨-, h⟩ := unit_bind_eq_ok.1 h
  obtain ⟨⟨relayId, sessionId⟩, -, h⟩ := bind_eq_ok.1 h
  obtain ⟨leases, hleases, h⟩ := bind_eq_ok.1 h
  cases h
  obtain ⟨leaseId, hget⟩ := hholds.mem
  rcases requestLeases_targets hleases hget with hnone | hmem
  · cases hnone
  · exact hmem

/-- What is done in a session: to dial the relay as it was resolved, or under a
lease of the session once it stands. -/
inductive Effect.DoneIn (config : ConnectorConfig) (d : Dialogue Event) : Effect → Prop
  | dial {host : Str} {port : Nat} {remote : SocketAddr} (hsplit : splitHostPort config.relay = some (host, port))
    (hresolve : d.resolve host port = .ok remote) : DoneIn config d (.dial remote)
  | under {remote : SocketAddr} {s : Session} {f : Effect}
      (hopen : openSession config d remote = .ok s) (h : f.Under s) :
    DoneIn config d f

theorem mem_runUntil {config entries sessions f} (h : f ∈ runUntil config entries sessions) :
    ∃ d ∈ sessions, f.DoneIn config d := by
  induction sessions generalizing entries with
  | nil => cases h
  | cons d rest ih =>
    have hlater : ∀ entries', f ∈ runUntil config entries' rest → ∃ d' ∈ d :: rest, f.DoneIn config d' := by
      intro entries' h
      obtain ⟨d', hd', hdone⟩ := ih h
      exact ⟨d', mem_cons_of_mem d hd', hdone⟩
    unfold runUntil at h
    split at h
    · exact hlater _ h
    · next host port hsplit =>
      split at h
      · exact hlater _ h
      · next remote hremote =>
        rcases mem_cons.1 h with rfl | h
        · exact ⟨d, mem_cons_self, .dial hsplit hremote⟩
        · split at h
          · exact hlater _ h
          · next s hopen =>
            rcases mem_append.1 h with h | h
            · exact ⟨d, mem_cons_self, .under hopen (run_under entries d.events f h)⟩
            · exact hlater _ h

/-- For every configuration that `to_runtime` accepts and everything a relay
sends, over any number of sessions: each local connection and datagram goes to
a loopback address and to the port of a listener that the configuration names
for that transport, and apart from that only the configured relay is dialled. -/
theorem connector_contacts_only_listeners {env : Str → Option Str} {cfg : ReverseIngressConfig} {nodeId : Str}
    {tcpListeners : List Listener} {tuicListeners : List TuicListener} {config : ConnectorConfig}
    (h : cfg.toRuntime tcpListeners tuicListeners env nodeId = .ok (some config))
    (entries : HashMap SocketAddr IngressMetadata) (sessions : List (Dialogue Event)) :
    (∀ addr, .connectTcp addr ∈ runUntil config entries sessions → Reaches tcpListeners tuicListeners cfg .tcp addr) ∧
    (∀ addr payload, .sendUdp addr payload ∈ runUntil config entries sessions →
      Reaches tcpListeners tuicListeners cfg .udp addr) ∧
    (∀ addr, .dial addr ∈ runUntil config entries sessions →
      ∃ host port, splitHostPort cfg.relay = some (host, port) ∧ ∃ d ∈ sessions, d.resolve host port = .ok addr) := by
  obtain ⟨hrelay, htargets⟩ := toRuntime_eq_ok h
  refine ⟨fun addr hmem => ?_, fun addr payload hmem => ?_, fun addr hmem => ?_⟩
  · obtain ⟨d, -, hdone⟩ := mem_runUntil hmem
    cases hdone with
    | under hopen hunder =>
      obtain ⟨lease, hholds, rfl⟩ := hunder
      have hreach := htargets _ (openSession_targets hopen hholds)
      rwa [hholds.transport] at hreach
  · obtain ⟨d, -, hdone⟩ := mem_runUntil hmem
    cases hdone with
    | under hopen hunder =>
      obtain ⟨lease, hholds, rfl⟩ := hunder
      have hreach := htargets _ (openSession_targets hopen hholds)
      rwa [hholds.transport] at hreach
  · obtain ⟨d, hd, hdone⟩ := mem_runUntil hmem
    cases hdone with
    | dial hsplit hresolve => exact ⟨_, _, hrelay ▸ hsplit, d, hd, hresolve⟩
    | under hopen hunder => exact hunder.elim

/-- A node with a web listener on every address and a TUIC listener on one. -/
def exampleConfig : ReverseIngressConfig where
  enable := true
  relay := "relay.example:7443"
  serverName := "relay.example"
  token := "secret"
  listeners := [
    { id := "web", transport := "tcp", localListener := "http" },
    { id := "quic", transport := "udp", localListener := "tuic" }]

def exampleRuntime : ConnectorConfig where
  nodeId := "node"
  relay := "relay.example:7443"
  serverName := "relay.example"
  token := "secret"
  skipCertVerify := false
  initialMtu := none
  maxStreams := 1024
  maxUdpFlows := 4096
  reconnectMin := 1
  reconnectMax := 30
  targets := [
    ⟨"web", .tcp, 0, "http", .v4 (Ipv4Addr.new 127 0 0 1) 8443, 1200⟩,
    ⟨"quic", .udp, 0, "tuic", .v4 (Ipv4Addr.new 127 0 0 2) 9443, 1200⟩]

/-- A relay that gives both leases and sends a datagram. -/
def exampleDialogue : Dialogue Event where
  resolve _ _ := .ok (.v4 (Ipv4Addr.new 203 0 113 5) 7443)
  handshake := .ok ()
  control := .ok (utf8Bytes "OK\nrelay-id: r\nsession-id: 00000000000000000000000000000000\n\n")
  lease i := .ok (utf8Bytes ("OK\nlease-id: " ++ showNat i ++ "\npublic-port: 443\n\n"))
  events := [
    .datagram ([82, 73, 1, 1] ++ beBytes 8 1 ++ beBytes 16 7 ++ [4, 198, 51, 100, 1, 19, 136] ++ [1, 2, 3]),
    .look, .bound (some (.v4 (Ipv4Addr.new 127 0 0 1) 40000)) 0, .enter, .sent true]

theorem connector_contacts_datagram :
    runUntil exampleRuntime ∅ [exampleDialogue] =
      [.dial (.v4 (Ipv4Addr.new 203 0 113 5) 7443), .sendUdp (.v4 (Ipv4Addr.new 127 0 0 2) 9443) [1, 2, 3]] ∧
    Reaches [⟨"http", "0.0.0.0:8443"⟩] [⟨"tuic", "127.0.0.2:9443"⟩] exampleConfig .udp
      (.v4 (Ipv4Addr.new 127 0 0 2) 9443) := by
  have hrun : runUntil exampleRuntime ∅ [exampleDialogue] =
      [.dial (.v4 (Ipv4Addr.new 203 0 113 5) 7443), .sendUdp (.v4 (Ipv4Addr.new 127 0 0 2) 9443) [1, 2, 3]] := by
    decide +kernel
  have hruntime : exampleConfig.toRuntime [⟨"http", "0.0.0.0:8443"⟩] [⟨"tuic", "127.0.0.2:9443"⟩]
      (fun _ => none) "node" = .ok (some exampleRuntime) := by
    decide +kernel
  exact ⟨hrun, (connector_contacts_only_listeners hruntime ∅ [exampleDialogue]).2.1 _ [1, 2, 3] (by rw [hrun]; simp)⟩

end Rove.Ingress.Connector
