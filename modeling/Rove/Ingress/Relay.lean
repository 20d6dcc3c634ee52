/-
The relay as its nodes drive it (`RelayState` and `handle_lease` of
`ingress/relay.rs`): registrations, leases of public ports, and the ports that
are remembered for a while when a lease ends.

Each lease is a task of its own; what a task does between two awaits is one
event. An event that is not possible in a state changes nothing, so every list
of events is a history. Which binds succeed, which replies get through and how
much time passes is left to the events; requests are given as they were parsed.
Traffic over a lease is not modelled.
-/
import Rove.Base.Run
import Rove.Ingress.Frame

namespace Rove.Ingress

inductive Code where
  | unauthorized
  | duplicateNodeId
  | forbidden
  | portUnavailable
  | atCapacity
  | internal

structure Reservation where
  port : Nat
  expiresAt : Nat

/-- How far a lease is: a port was picked for it, a port is bound, or it is
served under its number. -/
inductive LeaseStage where
  | reserved (preferred : Nat)
  | bound (port : Nat)
  | serving (leaseId port : Nat)

/-- The task of a lease; `fixed` says that the node asked for the port. -/
structure LeaseTask where
  key : ReservationKey
  grant : ListenerGrant
  fixed : Bool
  stage : LeaseStage

/-- `RelayState`, with the tasks and the clock. Which ports were ever bound, and
for whom, is history. -/
structure RelayState where
  sessions : HashMap Str Nat := ∅
  reservations : HashMap ReservationKey Reservation := ∅
  leaseSeq : Nat := 1
  tasks : HashMap Nat LeaseTask := ∅
  nextTask : Nat := 0
  now : Nat := 0
  everBound : List (ReservationKey × Nat) := []

def candidatePorts (preferred : Nat) (grant : ListenerGrant) (fixed : Bool) : List Nat :=
  let ports := if preferred ≠ 0 ∧ portAllowed grant preferred = true then [preferred] else []
  if fixed then ports else ports ++ (grant.ports.flatMap PortRange.ports).filter (· ≠ preferred)

namespace RelayState

def deregister (s : RelayState) (nodeId : Str) (stableId : Nat) : RelayState :=
  if s.sessions.get? nodeId = some stableId then { s with sessions := s.sessions.erase nodeId } else s

/-- Another key's reservation has the port. -/
def reservedByOther (s : RelayState) (key : ReservationKey) (port : Nat) : Bool :=
  s.reservations.entries.any fun (other, reservation) => other ≠ key && reservation.port = port

def reservePort (s : RelayState) (key : ReservationKey) (grant : ListenerGrant) (requested : Nat) :
    RelayState × Except Code Nat :=
  let s := { s with reservations := s.reservations.retain fun _ reservation => reservation.expiresAt > s.now }
  if requested ≠ 0 then
    if portAllowed grant requested = false ∨ s.reservedByOther key requested = true then (s, .error .forbidden)
    else (s, .ok requested)
  else
    match s.reservations.get? key with
    | some reservation => (s, .ok reservation.port)
    | none =>
      match (grant.ports.flatMap PortRange.ports).find? fun port => !s.reservedByOther key port with
      | some port => (s, .ok port)
      | none => (s, .error .portUnavailable)

def rememberPort (cfg : RelayConfig) (s : RelayState) (key : ReservationKey) (port : Nat) : RelayState :=
  { s with reservations := s.reservations.insert key ⟨port, s.now + cfg.leaseGrace⟩ }

/-- The permits of a node's session that are taken. -/
def leasesOf (s : RelayState) (nodeId : Str) : Nat := (s.tasks.entries.filter fun e => e.2.key.nodeId = nodeId).length

end RelayState

inductive RelayEvent where
  | elapse (nanos : Nat)
  /-- A connection asks to be the session of a node. -/
  | register (nodeId token : Str) (stableId : Nat) (acknowledged : Bool)
  /-- A request on the session of a node. -/
  | lease (nodeId : Str) (request : LeaseRequest)
  /-- The task binds a port, and asks which address that is. -/
  | bind (task : Nat) (works : Nat → Bool) (named : Bool)
  /-- The task tells the node. -/
  | acknowledge (task : Nat) (written : Bool)
  /-- The lease ends or its task is aborted. -/
  | close (task : Nat)
  /-- The connection is gone and all of its tasks have ended. -/
  | disconnect (nodeId : Str) (stableId : Nat)

/-- What a node is answered. -/
inductive RelayAnswer where
  | nothing
  | registered
  | rejected (code : Code)
  | refused (code : Code)
  | leased (leaseId port : Nat)

namespace RelayState

/-- The registration in `handle_connection`. -/
def register (cfg : RelayConfig) (s : RelayState) (nodeId token : Str) (stableId : Nat) (acknowledged : Bool) :
    RelayState × RelayAnswer :=
  match cfg.nodes.get? nodeId with
  | none => (s, .rejected .unauthorized)
  | some node =>
    if token ∉ node.tokens then (s, .rejected .unauthorized)
    else if s.sessions.containsKey nodeId then (s, .rejected .duplicateNodeId)
    else
      let s := { s with sessions := s.sessions.insert nodeId stableId }
      if acknowledged then (s, .registered) else (s.deregister nodeId stableId, .rejected .internal)

/-- `handle_lease`, up to where it binds. -/
def requestLease (cfg : RelayConfig) (s : RelayState) (nodeId : Str) (request : LeaseRequest) :
    RelayState × RelayAnswer :=
  match cfg.nodes.get? nodeId with
  | none => (s, .nothing)
  | some node =>
    match node.listeners.get? (request.listenerId, request.transport) with
    | none => (s, .refused .forbidden)
    | some grant =>
      if node.maxLeases ≤ s.leasesOf nodeId then (s, .refused .atCapacity)
      else
        let key : ReservationKey := ⟨nodeId, request.listenerId, request.transport⟩
        match s.reservePort key grant request.publicPort with
        | (s, .error code) => (s, .refused code)
        | (s, .ok preferred) =>
          ({ s with
              tasks := s.tasks.insert s.nextTask ⟨key, grant, request.publicPort ≠ 0, .reserved preferred⟩
              nextTask := s.nextTask + 1 }, .nothing)

/-- `bind_tcp` or `bind_udp`. -/
def bindTask (s : RelayState) (task : Nat) (works : Nat → Bool) (named : Bool) : RelayState × RelayAnswer :=
  match s.tasks.get? task with
  | some ⟨key, grant, fixed, .reserved preferred⟩ =>
    match (candidatePorts preferred grant fixed).find? works with
    | none => ({ s with tasks := s.tasks.erase task }, .refused .portUnavailable)
    | some port =>
      let s := { s with everBound := s.everBound ++ [(key, port)] }
      if named then ({ s with tasks := s.tasks.insert task ⟨key, grant, fixed, .bound port⟩ }, .nothing)
      else ({ s with tasks := s.tasks.erase task }, .refused .internal)
  | _ => (s, .nothing)

/-- `write_lease_ok`. -/
def acknowledgeTask (s : RelayState) (task : Nat) (written : Bool) : RelayState × RelayAnswer :=
  match s.tasks.get? task with
  | some ⟨key, grant, fixed, .bound port⟩ =>
    let leaseId := s.leaseSeq
    let s := { s with leaseSeq := (s.leaseSeq + 1) % 2 ^ 64 }
    if written then
      ({ s with tasks := s.tasks.insert task ⟨key, grant, fixed, .serving leaseId port⟩ }, .leased leaseId port)
    else ({ s with tasks := s.tasks.erase task }, .nothing)
  | _ => (s, .nothing)

/-- The end of a task; a lease that was served leaves its port remembered. -/
def closeTask (cfg : RelayConfig) (s : RelayState) (task : Nat) : RelayState :=
  match s.tasks.get? task with
  | some ⟨key, _, _, .serving _ port⟩ => { s with tasks := s.tasks.erase task }.rememberPort cfg key port
  | _ => { s with tasks := s.tasks.erase task }

def step (cfg : RelayConfig) (s : RelayState) : RelayEvent → RelayState × RelayAnswer
  | .elapse nanos => ({ s with now := s.now + nanos }, .nothing)
  | .register nodeId token stableId acknowledged => s.register cfg nodeId token stableId acknowledged
  | .lease nodeId request =>
    if s.sessions.containsKey nodeId then s.requestLease cfg nodeId request else (s, .nothing)
  | .bind task works named => s.bindTask task works named
  | .acknowledge task written => s.acknowledgeTask task written
  | .close task => (s.closeTask cfg task, .nothing)
  | .disconnect nodeId stableId =>
    if s.leasesOf nodeId = 0 then (s.deregister nodeId stableId, .nothing) else (s, .nothing)

def run (cfg : RelayConfig) (events : List RelayEvent) : RelayState := runState (step cfg) {} events

end RelayState

/-! ## Ports of the own grant -/

def RelayConfig.Allows (cfg : RelayConfig) (key : ReservationKey) (port : Nat) : Prop :=
  ∃ grant, cfg.grantOf key = some grant ∧ portAllowed grant port = true

def LeaseStage.boundPort : LeaseStage → Option Nat
  | .reserved _ => none
  | .bound port => some port
  | .serving _ port => some port

theorem portAllowed_of_candidate {preferred grant fixed port}
    (h : port ∈ candidatePorts preferred grant fixed) : portAllowed grant port = true := by
  have hpreferred : port ∈ (if preferred ≠ 0 ∧ portAllowed grant preferred = true then [preferred] else []) →
      portAllowed grant port = true := by
    intro h
    split at h
    · next hok =>
      rw [List.mem_singleton.1 h]
      exact hok.2
    · cases h
  cases fixed with
  | true => exact hpreferred h
  | false =>
    rcases List.mem_append.1 h with h | h
    · exact hpreferred h
    · exact portAllowed_iff.2 (List.mem_filter.1 h).1

namespace RelayState

/-- Everything that is bound or remembered is of the owner's grant. -/
structure Granted (cfg : RelayConfig) (s : RelayState) : Prop where
  tasks : ∀ {id task}, s.tasks.get? id = some task → cfg.grantOf task.key = some task.grant ∧
    ∀ port, task.stage.boundPort = some port → portAllowed task.grant port = true
  reservations : ∀ {key r}, s.reservations.get? key = some r → cfg.Allows key r.port
  everBound : ∀ b ∈ s.everBound, cfg.Allows b.1 b.2

variable {cfg : RelayConfig} {s : RelayState}

theorem granted_start : Granted cfg {} := ⟨nofun, nofun, nofun⟩

theorem Granted.erase (h : Granted cfg s) (task : Nat) : Granted cfg { s with tasks := s.tasks.erase task } :=
  ⟨fun ht => h.tasks (HashMap.get?_of_erase ht), h.reservations, h.everBound⟩

theorem Granted.insert (h : Granted cfg s) (id : Nat) {task} (hgrant : cfg.grantOf task.key = some task.grant)
    (hport : ∀ port, task.stage.boundPort = some port → portAllowed task.grant port = true) :
    Granted cfg { s with tasks := s.tasks.insert id task } := by
  refine ⟨fun {id' task'} ht => ?_, h.reservations, h.everBound⟩
  rw [HashMap.get?_insert] at ht
  split at ht
  · cases ht
    exact ⟨hgrant, hport⟩
  · exact h.tasks ht

theorem Granted.retain (h : Granted cfg s) (p : ReservationKey → Reservation → Bool) :
    Granted cfg { s with reservations := s.reservations.retain p } := by
  refine ⟨h.tasks, fun hr => ?_, h.everBound⟩
  rw [HashMap.get?_retain, Option.filter_eq_some_iff] at hr
  exact h.reservations hr.1

/-- What is left of the reservations is all that `reserve_port` changes. -/
theorem reservePort_fst (s : RelayState) (key : ReservationKey) (grant : ListenerGrant) (requested : Nat) :
    (s.reservePort key grant requested).1 =
      { s with reservations := s.reservations.retain fun _ reservation => reservation.expiresAt > s.now } := by
  rw [reservePort]
  split
  · split <;> rfl
  · split
    · rfl
    · split <;> rfl

theorem Granted.deregister (h : Granted cfg s) (nodeId : Str) (stableId : Nat) :
    Granted cfg (s.deregister nodeId stableId) := by
  rw [RelayState.deregister]
  split
  · exact ⟨h.tasks, h.reservations, h.everBound⟩
  · exact h

theorem Granted.register (h : Granted cfg s) (nodeId token : Str) (stableId : Nat) (acknowledged : Bool) :
    Granted cfg (s.register cfg nodeId token stableId acknowledged).1 := by
  rw [RelayState.register]
  split
  · exact h
  · split
    · exact h
    · split
      · exact h
      · have hinsert : Granted cfg { s with sessions := s.sessions.insert nodeId stableId } :=
          ⟨h.tasks, h.reservations, h.everBound⟩
        split
        · exact hinsert
        · exact hinsert.deregister nodeId stableId

theorem Granted.requestLease (h : Granted cfg s) (nodeId : Str) (request : LeaseRequest) :
    Granted cfg (s.requestLease cfg nodeId request).1 := by
  rw [RelayState.requestLease]
  split
  · exact h
  · next node hnode =>
    split
    · exact h
    · next grant hgrant =>
      split
      · exact h
      · have hs : Granted cfg
            (s.reservePort ⟨nodeId, request.listenerId, request.transport⟩ grant request.publicPort).1 := by
          rw [reservePort_fst]
          exact h.retain _
        dsimp only
        split
        · next hreserve => rwa [hreserve] at hs
        · next s₁ preferred hreserve =>
          rw [hreserve] at hs
          have hkey : cfg.grantOf ⟨nodeId, request.listenerId, request.transport⟩ = some grant := by
            rw [RelayConfig.grantOf, hnode]
            exact hgrant
          have hinsert : Granted cfg { s₁ with
              tasks := s₁.tasks.insert s₁.nextTask
                ⟨⟨nodeId, request.listenerId, request.transport⟩, grant,
                  request.publicPort ≠ 0, .reserved preferred⟩ } :=
            hs.insert _ hkey fun port hport => by cases hport
          exact ⟨hinsert.tasks, hinsert.reservations, hinsert.everBound⟩

theorem Granted.bindTask (h : Granted cfg s) (task : Nat) (works : Nat → Bool) (named : Bool) :
    Granted cfg (s.bindTask task works named).1 := by
  rw [RelayState.bindTask]
  split
  · next key grant fixed preferred htask =>
    split
    · exact h.erase task
    · next port hfind =>
      have hgrant := (h.tasks htask).1
      have hport := portAllowed_of_candidate (List.mem_of_find?_eq_some hfind)
      have hbound : Granted cfg { s with everBound := s.everBound ++ [(key, port)] } := by
        refine ⟨h.tasks, h.reservations, fun b hb => ?_⟩
        rcases List.mem_append.1 hb with hb | hb
        · exact h.everBound b hb
        · rw [List.mem_singleton.1 hb]
          exact ⟨grant, hgrant, hport⟩
      split
      · refine hbound.insert task hgrant fun port' hport' => ?_
        cases hport'
        exact hport
      · exact hbound.erase task
  · exact h

theorem Granted.acknowledgeTask (h : Granted cfg s) (task : Nat) (written : Bool) :
    Granted cfg (s.acknowledgeTask task written).1 := by
  rw [RelayState.acknowledgeTask]
  split
  · next key grant fixed port htask =>
    have hseq : Granted cfg { s with leaseSeq := (s.leaseSeq + 1) % 2 ^ 64 } := ⟨h.tasks, h.reservations, h.everBound⟩
    obtain ⟨hgrant, hport⟩ := h.tasks htask
    split
    · exact hseq.insert task hgrant fun port' hport' => hport port' hport'
    · exact hseq.erase task
  · exact h

theorem Granted.closeTask (h : Granted cfg s) (task : Nat) : Granted cfg (s.closeTask cfg task) := by
  rw [RelayState.closeTask]
  split
  · next key grant fixed leaseId port htask =>
    obtain ⟨hgrant, hport⟩ := h.tasks htask
    have herase := h.erase task
    refine ⟨herase.tasks, fun {key' r} hr => ?_, herase.everBound⟩
    rw [rememberPort, HashMap.get?_insert] at hr
    split at hr
    · next hkey =>
      cases hr
      rw [hkey]
      exact ⟨grant, hgrant, hport port rfl⟩
    · exact herase.reservations hr
  · exact h.erase task

theorem granted_step (h : Granted cfg s) (e : RelayEvent) : Granted cfg (s.step cfg e).1 := by
  cases e with
  | elapse nanos => exact ⟨h.tasks, h.reservations, h.everBound⟩
  | register nodeId token stableId acknowledged => exact h.register nodeId token stableId acknowledged
  | lease nodeId request =>
    rw [step]
    split
    · exact h.requestLease nodeId request
    · exact h
  | bind task works named => exact h.bindTask task works named
  | acknowledge task written => exact h.acknowledgeTask task written
  | close task => exact h.closeTask task
  | disconnect nodeId stableId =>
    rw [step]
    split
    · exact h.deregister nodeId stableId
    · exact h

theorem granted_run (cfg : RelayConfig) (events : List RelayEvent) : Granted cfg (run cfg events) :=
  runState_induction (fun s e (h : Granted cfg s) => granted_step h e) granted_start events

end RelayState

/-- In every history of a relay whose configuration was accepted, each port that
was ever bound is of the grant of the listener it was bound for, and a port of a
transport was only ever bound for one listener of one node. -/
theorem bound_ports_granted {env : Str → Option Str} {file : RelayFile} {cfg : RelayConfig}
    (h : file.compile env = .ok cfg) (events : List RelayEvent) :
    (∀ b ∈ (RelayState.run cfg events).everBound, cfg.Allows b.1 b.2) ∧
      ∀ b ∈ (RelayState.run cfg events).everBound, ∀ b' ∈ (RelayState.run cfg events).everBound,
        b.1.transport = b'.1.transport → b.2 = b'.2 → b.1.nodeId = b'.1.nodeId ∧ b.1.listenerId = b'.1.listenerId := by
  have hgranted := (RelayState.granted_run cfg events).everBound
  refine ⟨hgranted, fun b hb b' hb' htransport hport => ?_⟩
  obtain ⟨grant, hgrant, hallowed⟩ := hgranted b hb
  obtain ⟨grant', hgrant', hallowed'⟩ := hgranted b' hb'
  rw [← hport] at hallowed'
  have hkey := grants_apart (accepted_of_compile h).apart hgrant hgrant' htransport hallowed hallowed'
  rw [hkey]
  exact ⟨rfl, rfl⟩

/-- A relay with one node, whose listener may use port 443 for both transports. -/
def webRelay : RelayFile where
  relayId := "r"
  listen := "0.0.0.0:7000"
  cert := "c"
  key := "k"
  nodes := [{ nodeId := "n"
              token := "t"
              listeners := [⟨"web", "tcp", ["443"]⟩, ⟨"web", "udp", ["443"]⟩] }]

def webConfig : RelayConfig where
  relayId := "r"
  listen := .v4 0 7000
  publicBind := .v4 0
  cert := "c"
  key := "k"
  initialMtu := none
  maxStreams := 1024
  leaseGrace := 30 * 10 ^ 9
  nodes := ⟨[("n",
    { tokens := ["t"]
      listeners := ⟨[(("web", .tcp), ⟨[⟨443, 443, by decide⟩]⟩), (("web", .udp), ⟨[⟨443, 443, by decide⟩]⟩)], by decide⟩
      maxLeases := 16
      maxTcpConnections := 4096
      maxUdpFlows := 4096 })], by decide⟩

/-- The relay of `webRelay` without the UDP port. -/
def tcpRelay : RelayFile :=
  { webRelay with
    nodes := [{ nodeId := "n"
                token := "t"
                listeners := [⟨"web", "tcp", ["443"]⟩] }] }

def tcpConfig : RelayConfig :=
  { webConfig with
    nodes := ⟨[("n",
      { tokens := ["t"]
        listeners := ⟨[(("web", .tcp), ⟨[⟨443, 443, by decide⟩]⟩)], by decide⟩
        maxLeases := 16
        maxTcpConnections := 4096
        maxUdpFlows := 4096 })], by decide⟩ }

theorem ensureTokens_t (nodeId : Str) : ensureTokens nodeId (AddrBook.sortDedup ["t"]) = .ok ["t"] := by
  have hsort : AddrBook.sortDedup ["t"] = ["t"] := by
    rw [AddrBook.sortDedup, List.mergeSort_singleton]
    rfl
  rw [hsort]
  rfl

theorem compile_webRelay : webRelay.compile (fun _ => none) = .ok webConfig := by
  have hnodes : compileNodes (fun _ => none) webRelay.nodes ∅ = .ok webConfig.nodes := by
    show (do
      let tokens ← ensureTokens "n".toList (AddrBook.sortDedup ["t".toList])
      let listeners ← compileListeners _ ∅
      ensure (listeners.len ≠ 0) _
      pure (HashMap.insert ∅ "n".toList (⟨tokens, listeners, 16, 4096, 4096⟩ : NodeGrant))) = _
    rw [ensureTokens_t]
    rfl
  rw [RelayFile.compile, hnodes]
  rfl

theorem bound_ports_granted_web :
    ∃ cfg, webRelay.compile (fun _ => none) = .ok cfg ∧
      let s := RelayState.run cfg [.register "n" "t" 0 true, .lease "n" ⟨"web", .tcp, 443⟩,
        .bind 0 (fun _ => true) true]
      s.everBound = [(⟨"n", "web", .tcp⟩, 443)] ∧ ∀ b ∈ s.everBound, cfg.Allows b.1 b.2 :=
  ⟨webConfig, compile_webRelay, rfl, (bound_ports_granted compile_webRelay _).1⟩

end Rove.Ingress
