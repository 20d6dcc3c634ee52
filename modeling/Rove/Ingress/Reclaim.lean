/-
Asking again for the ports of leases that were lost with a connection. The ports
are remembered by listener and transport, and compared by their numbers only;
`reclaim_iff_transports_apart` says for which configurations that never turns a
node away.
-/
import Rove.Ingress.Relay

namespace Rove.Ingress

open HashMap

namespace RelayState

def Holds (s : RelayState) (key : ReservationKey) (port : Nat) : Prop :=
  ∃ id task leaseId, s.tasks.get? id = some task ∧ task.key = key ∧ task.stage = .serving leaseId port

variable {cfg : RelayConfig} {s : RelayState}

theorem Granted.allows (h : Granted cfg s) {key port} (hholds : s.Holds key port) :
    cfg.Allows key port := by
  obtain ⟨id, task, leaseId, htask, rfl, hstage⟩ := hholds
  obtain ⟨hgrant, hport⟩ := h.tasks htask
  exact ⟨task.grant, hgrant, hport port (by rw [hstage]; rfl)⟩

theorem reservedByOther_iff {key port} :
    s.reservedByOther key port = true ↔ ∃ other r, s.reservations.get? other = some r ∧
    other ≠ key ∧ r.port = port := by
  simp only [reservedByOther, List.any_eq_true, Prod.exists, Bool.and_eq_true, decide_eq_true_eq, get?_eq_some_iff]

/-- A port of the own grant is refused because another key's reservation, which
has not expired, is of that number. -/
theorem reservePort_refuses_iff {key grant port}
    (hport : portAllowed grant port = true) :
    (s.reservePort key grant port).2 = .error .forbidden ↔
      ∃ other r, s.reservations.get? other = some r ∧ s.now < r.expiresAt ∧ other ≠ key ∧ r.port = port := by
  have hpos : port ≠ 0 := (pos_of_portAllowed hport).ne'
  rw [reservePort]
  rw [if_pos hpos]
  have hother :
      ({ s with reservations := s.reservations.retain fun _ r => decide (r.expiresAt > s.now) }).reservedByOther
      key port = true ↔
        ∃ other r, s.reservations.get? other = some r ∧ s.now < r.expiresAt ∧ other ≠ key ∧ r.port = port := by
    simp only [reservedByOther_iff, get?_retain, Option.filter_eq_some_iff, decide_eq_true_eq, gt_iff_lt, and_assoc]
  rw [← hother, hport]
  split
  · next h => simpa using h
  · next h => simpa using h

/-! ## A node that comes and goes -/

structure Idle (s : RelayState) : Prop where
  sessions : s.sessions = ∅
  tasks : s.tasks = ∅

/-- No other listener's port of this number is remembered. -/
def Free (s : RelayState) (key : ReservationKey) (port : Nat) : Prop :=
  ∀ other r, s.reservations.get? other = some r → s.now < r.expiresAt → r.port = port → other = key

/-- The reservations that have not expired. -/
def kept (s : RelayState) : HashMap ReservationKey Reservation :=
  s.reservations.retain fun _ reservation => reservation.expiresAt > s.now

theorem reservePort_of_free {key grant port} (hport : portAllowed grant port = true)
    (hfree : s.Free key port) : s.reservePort key grant port = ({ s with reservations := s.kept }, .ok port) := by
  have hpos : port ≠ 0 := (pos_of_portAllowed hport).ne'
  have hother : ({ s with reservations := s.kept } : RelayState).reservedByOther key port = false := by
    rw [← Bool.not_eq_true, reservedByOther_iff]
    intro ⟨other, r, hr, hne, heq⟩
    rw [kept, get?_retain, Option.filter_eq_some_iff, decide_eq_true_eq] at hr
    exact hne (hfree other r hr.1 hr.2 heq)
  rw [kept] at hother ⊢
  rw [reservePort]
  rw [if_pos hpos, hport, hother]
  rfl

/-- A node connects and gets a lease of a port. -/
def takeLease (key : ReservationKey) (token : Str) (port task : Nat) : List RelayEvent :=
  [.register key.nodeId token 0 true, .lease key.nodeId ⟨key.listenerId, key.transport, port⟩,
    .bind task (fun _ => true) true, .acknowledge task true]

/-- A node with one lease disconnects. -/
def leave (nodeId : Str) (task : Nat) : List RelayEvent := [.close task, .disconnect nodeId 0]

/-- The state in which a node has its lease. -/
def leasing (s : RelayState) (key : ReservationKey) (grant : ListenerGrant) (port : Nat) : RelayState where
  sessions := (∅ : HashMap Str Nat).insert key.nodeId 0
  reservations := s.kept
  leaseSeq := (s.leaseSeq + 1) % 2 ^ 64
  tasks := (∅ : HashMap Nat LeaseTask).insert s.nextTask ⟨key, grant, true, .serving s.leaseSeq port⟩
  nextTask := s.nextTask + 1
  now := s.now
  everBound := s.everBound ++ [(key, port)]

/-- The state after it has left again. -/
def left (cfg : RelayConfig) (s : RelayState) (key : ReservationKey) (port : Nat) : RelayState where
  sessions := ∅
  reservations := s.kept.insert key ⟨port, s.now + cfg.leaseGrace⟩
  leaseSeq := (s.leaseSeq + 1) % 2 ^ 64
  tasks := ∅
  nextTask := s.nextTask + 1
  now := s.now
  everBound := s.everBound ++ [(key, port)]

section
variable {key : ReservationKey} {node : NodeGrant} {grant : ListenerGrant} {token : Str} {port : Nat}

theorem step_register (hs : s.sessions = ∅) (hnode : cfg.nodes.get? key.nodeId = some node)
    (htoken : token ∈ node.tokens) :
    s.step cfg (.register key.nodeId token 0 true) =
      ({ s with sessions := (∅ : HashMap Str Nat).insert key.nodeId 0 }, .registered) := by
  have hfree : s.sessions.containsKey key.nodeId = false := by
    rw [hs]
    rfl
  rw [step, register, hnode]
  dsimp only
  rw [if_neg (not_not.2 htoken), hfree, hs]
  rfl

theorem run_takeLease (hs : s.Idle) (hnode : cfg.nodes.get? key.nodeId = some node) (husable : node.Usable)
    (hgrant : node.listeners.get? (key.listenerId, key.transport) = some grant) (htoken : token ∈ node.tokens)
    (hport : portAllowed grant port = true) (hfree : s.Free key port) :
    runState (step cfg) s (takeLease key token port s.nextTask) = s.leasing key grant port := by
  have hpos : port ≠ 0 := (pos_of_portAllowed hport).ne'
  let s₁ : RelayState := { s with sessions := (∅ : HashMap Str Nat).insert key.nodeId 0 }
  have hlease : (s₁.step cfg (.lease key.nodeId ⟨key.listenerId, key.transport, port⟩)).1 =
      { s₁ with
        reservations := s.kept
        tasks := (∅ : HashMap Nat LeaseTask).insert s.nextTask ⟨key, grant, true, .reserved port⟩
        nextTask := s.nextTask + 1 } := by
    have hsession : s₁.sessions.containsKey key.nodeId = true :=
        containsKey_iff.2 ⟨0, get?_insert_self _ _ _⟩
    have hnone : s₁.leasesOf key.nodeId = 0 := by
      show (s.tasks.entries.filter _).length = 0
      rw [hs.tasks]
      rfl
    have hreserve : s₁.reservePort key grant port = ({ s₁ with reservations := s.kept }, .ok port) :=
      reservePort_of_free hport hfree
    have hmax := husable.maxLeases
    rw [step, if_pos hsession, requestLease, hnode]
    dsimp only
    rw [hgrant]
    dsimp only
    rw [if_neg (by omega), hreserve]
    simp [hs.tasks, hpos, s₁]
  let s₂ : RelayState :=
    { s₁ with
      reservations := s.kept
      tasks := (∅ : HashMap Nat LeaseTask).insert s.nextTask ⟨key, grant, true, .reserved port⟩
      nextTask := s.nextTask + 1 }
  have hbind : (s₂.step cfg (.bind s.nextTask (fun _ => true) true)).1 =
      { s₂ with
        tasks := (∅ : HashMap Nat LeaseTask).insert s.nextTask ⟨key, grant, true, .bound port⟩
        everBound := s.everBound ++ [(key, port)] } := by
    have htask : s₂.tasks.get? s.nextTask = some ⟨key, grant, true, .reserved port⟩ := get?_insert_self _ _ _
    have hfind : (candidatePorts port grant true).find? (fun _ => true) = some port := by
      simp [candidatePorts, hpos, hport]
    rw [step, bindTask, htask]
    dsimp only
    rw [hfind]
    simp [insert_insert, s₂, s₁]
  let s₃ : RelayState :=
    { s₂ with
      tasks := (∅ : HashMap Nat LeaseTask).insert s.nextTask ⟨key, grant, true, .bound port⟩
      everBound := s.everBound ++ [(key, port)] }
  have hack : (s₃.step cfg (.acknowledge s.nextTask true)).1 = s.leasing key grant port := by
    have htask : s₃.tasks.get? s.nextTask = some ⟨key, grant, true, .bound port⟩ := get?_insert_self _ _ _
    rw [step, acknowledgeTask, htask]
    simp [insert_insert, leasing, s₃, s₂, s₁]
  rw [takeLease, runState, step_register hs.sessions hnode htoken, runState, hlease, runState, hbind, runState, hack]
  rfl

theorem run_leave (cfg : RelayConfig) (s : RelayState) (key : ReservationKey) (grant : ListenerGrant) (port : Nat) :
    runState (step cfg) (s.leasing key grant port) (leave key.nodeId s.nextTask) = s.left cfg key port := by
  have htask : (s.leasing key grant port).tasks.get? s.nextTask = some ⟨key, grant, true, .serving s.leaseSeq port⟩ :=
    get?_insert_self _ _ _
  have hclose : (s.leasing key grant port).closeTask cfg s.nextTask =
      { s.left cfg key port with sessions := (∅ : HashMap Str Nat).insert key.nodeId 0 } := by
    rw [closeTask, htask]
    simp [leasing, rememberPort, left, erase_insert_empty]
  have hdisconnect : (({ s.left cfg key port with sessions := (∅ : HashMap Str Nat).insert key.nodeId 0 }).step cfg
      (.disconnect key.nodeId 0)).1 = s.left cfg key port := by
    have hnone : ({ s.left cfg key port with sessions := (∅ : HashMap Str Nat).insert key.nodeId 0 }).leasesOf
      key.nodeId = 0 := rfl
    rw [step, if_pos hnone, deregister, if_pos (get?_insert_self _ _ _)]
    simp [erase_insert_empty, left]
  rw [leave, runState, step, hclose, runState, hdisconnect]
  rfl

/-- A whole visit of a node leaves the number behind, and nothing else. -/
theorem run_visit (hs : s.Idle) (hnode : cfg.nodes.get? key.nodeId = some node) (husable : node.Usable)
    (hgrant : node.listeners.get? (key.listenerId, key.transport) = some grant) (htoken : token ∈ node.tokens)
    (hport : portAllowed grant port = true) (hfree : s.Free key port) :
    runState (step cfg) s (takeLease key token port s.nextTask ++ leave key.nodeId s.nextTask) =
    s.left cfg key port := by
  rw [runState_append, run_takeLease hs hnode husable hgrant htoken hport hfree, run_leave]

/-- A request for a port of the grant that is free is not answered `forbidden`. -/
theorem not_refused_of_free (hkey : cfg.grantOf key = some grant) (hport : portAllowed grant port = true)
    (hfree : s.Free key port) :
    (s.step cfg (.lease key.nodeId ⟨key.listenerId, key.transport, port⟩)).2 ≠ .refused .forbidden := by
  obtain ⟨node, hnode, hgrant⟩ := Option.bind_eq_some_iff.1 hkey
  rw [step]
  split
  · rw [requestLease, hnode]
    dsimp only
    rw [hgrant]
    dsimp only
    split
    · simp
    · rw [reservePort_of_free hport hfree]
      simp
  · simp

/-- One for a port of which another listener's number is remembered is. -/
theorem refused_of_reserved (hsession : s.sessions.containsKey key.nodeId = true)
    (hnode : cfg.nodes.get? key.nodeId = some node)
    (hgrant : node.listeners.get? (key.listenerId, key.transport) = some grant)
    (hroom : s.leasesOf key.nodeId < node.maxLeases) (hport : portAllowed grant port = true) {other r}
    (hother : s.reservations.get? other = some r) (hlive : s.now < r.expiresAt)
    (hne : other ≠ key) (heq : r.port = port) :
    (s.step cfg (.lease key.nodeId ⟨key.listenerId, key.transport, port⟩)).2 = .refused .forbidden := by
  have hrefused : (s.reservePort key grant port).2 = .error .forbidden :=
    (reservePort_refuses_iff hport).2 ⟨other, r, hother, hlive, hne, heq⟩
  rw [step, if_pos hsession, requestLease, hnode]
  dsimp only
  rw [hgrant]
  dsimp only
  rw [if_neg (by omega)]
  generalize s.reservePort key grant port = answer at hrefused
  obtain ⟨s', result⟩ := answer
  obtain rfl : result = .error .forbidden := hrefused
  rfl

end

end RelayState

open RelayState

/-- When the configuration was accepted, a node that asks again for a port it was
served on before it lost its connection is never refused because of a port that
is remembered, exactly when no port number is granted for both transports. -/
theorem reclaim_iff_transports_apart {env : Str → Option Str} {file : RelayFile} {cfg : RelayConfig}
    (h : file.compile env = .ok cfg) :
    (∀ first second third key port, (run cfg first).Holds key port →
        (run cfg (first ++ second)).sessions.containsKey key.nodeId = false →
          ((run cfg (first ++ second ++ third)).step cfg (.lease key.nodeId ⟨key.listenerId, key.transport, port⟩)).2 ≠
            .refused .forbidden) ↔
      ∀ key key' port, cfg.Allows key port → cfg.Allows key' port → key.transport = key'.transport := by
  have haccepted := accepted_of_compile h
  refine ⟨fun hnever key key' port hkey hkey' => ?_, fun hsame first second third key port hholds _ => ?_⟩
  · -- the other listener takes the port after the grace period, and its number is remembered from then on
    by_contra hne
    obtain ⟨grant, hgrantOf, hport⟩ := hkey
    obtain ⟨grant', hgrantOf', hport'⟩ := hkey'
    obtain ⟨node, hnode, hgrant⟩ := Option.bind_eq_some_iff.1 hgrantOf
    obtain ⟨node', hnode', hgrant'⟩ := Option.bind_eq_some_iff.1 hgrantOf'
    obtain ⟨token, htoken⟩ := List.exists_mem_of_ne_nil _ (haccepted.usable hnode).tokens
    obtain ⟨token', htoken'⟩ := List.exists_mem_of_ne_nil _ (haccepted.usable hnode').tokens
    have hgrace := haccepted.leaseGrace
    let s₀ : RelayState := {}
    let s₁ : RelayState := { s₀.left cfg key port with now := cfg.leaseGrace }
    let s₂ : RelayState := { s₁.left cfg key' port with sessions := (∅ : HashMap Str Nat).insert key.nodeId 0 }
    have hfree₀ : s₀.Free key port := fun _ _ hr => by cases hr
    have hfirst : run cfg (takeLease key token port 0) = s₀.leasing key grant port :=
      run_takeLease ⟨rfl, rfl⟩ hnode (haccepted.usable hnode) hgrant htoken hport hfree₀
    have hsecond : run cfg (takeLease key token port 0 ++ leave key.nodeId 0) = s₀.left cfg key port :=
      run_visit ⟨rfl, rfl⟩ hnode (haccepted.usable hnode) hgrant htoken hport hfree₀
    have hfree : s₁.Free key' port := by
      intro other r hr hlive _
      have hr' : (s₀.kept.insert key ⟨port, s₀.now + cfg.leaseGrace⟩).get? other = some r := hr
      rw [get?_insert] at hr'
      split at hr'
      · cases hr'
        have hexpired : cfg.leaseGrace < 0 + cfg.leaseGrace := hlive
        omega
      · cases hr'
    let third : List RelayEvent :=
      [.elapse cfg.leaseGrace] ++ (takeLease key' token' port 1 ++ leave key'.nodeId 1) ++
        [.register key.nodeId token 0 true]
    have hthird : run cfg (takeLease key token port 0 ++ leave key.nodeId 0 ++ third) = s₂ := by
      have hvisit : runState (step cfg) s₁ (takeLease key' token' port 1 ++ leave key'.nodeId 1) =
        s₁.left cfg key' port :=
        run_visit ⟨rfl, rfl⟩ hnode' (haccepted.usable hnode') hgrant' htoken' hport' hfree
      have helapse : runState (step cfg) (s₀.left cfg key port) [.elapse cfg.leaseGrace] = s₁ := by
        simp [runState, step, s₁, s₀, left]
      rw [run, runState_append, ← run, hsecond, runState_append, runState_append, helapse, hvisit, runState, runState,
        step_register rfl hnode htoken]
    refine hnever (takeLease key token port 0) (leave key.nodeId 0) third key port ?_ ?_ ?_
    · rw [hfirst]
      exact ⟨0, _, _, get?_insert_self _ _ _, rfl, rfl⟩
    · rw [hsecond]
      rfl
    · rw [hthird]
      have hsession : s₂.sessions.containsKey key.nodeId = true :=
          containsKey_iff.2 ⟨0, get?_insert_self _ _ _⟩
      have hlive : cfg.leaseGrace < cfg.leaseGrace + cfg.leaseGrace := by omega
      exact refused_of_reserved hsession hnode hgrant (haccepted.usable hnode).maxLeases hport
        (get?_insert_self s₁.kept key' _) hlive (fun heq => hne (congrArg _ heq.symm)) rfl
  · obtain ⟨grant, hgrant, hport⟩ := (granted_run cfg first).allows hholds
    refine not_refused_of_free hgrant hport fun other r hr _ heq => ?_
    -- what is remembered under this number is of the same transport, so of the same listener
    obtain ⟨grant', hgrant', hport'⟩ := (granted_run cfg (first ++ second ++ third)).reservations hr
    rw [heq] at hport'
    exact grants_apart haccepted.apart hgrant' hgrant
      (hsame other key port ⟨grant', hgrant', hport'⟩ ⟨grant, hgrant, hport⟩)
      hport' hport

/-- One node whose listener may use port 443 for both transports is refused its
TCP port, because its own UDP port is remembered. -/
theorem own_port_refused_in_grace :
    ∃ cfg, webRelay.compile (fun _ => none) = .ok cfg ∧
      let key (transport : Transport) : ReservationKey := ⟨"n", "web", transport⟩
      let lease (transport : Transport) : RelayEvent := .lease "n" ⟨"web", transport, 443⟩
      let first : List RelayEvent :=
        [.register "n" "t" 0 true, lease .tcp, .bind 0 (fun _ => true) true, .acknowledge 0 true,
          lease .udp, .bind 1 (fun _ => true) true, .acknowledge 1 true]
      let second : List RelayEvent := [.close 0, .close 1, .disconnect "n" 0]
      let third : List RelayEvent := [.register "n" "t" 0 true]
      (run cfg first).Holds (key .tcp) 443 ∧ (run cfg first).Holds (key .udp) 443 ∧
        (run cfg (first ++ second)).sessions.containsKey "n" = false ∧
          ((run cfg (first ++ second ++ third)).step cfg (lease .tcp)).2 = .refused .forbidden :=
  ⟨webConfig, compile_webRelay, ⟨0, _, _, rfl, rfl, rfl⟩, ⟨1, _, _, rfl, rfl, rfl⟩, rfl, rfl⟩

theorem compile_tcpRelay : tcpRelay.compile (fun _ => none) = .ok tcpConfig := by
  have hnodes : compileNodes (fun _ => none) tcpRelay.nodes ∅ = .ok tcpConfig.nodes := by
    show (do
      let tokens ← ensureTokens "n".toList (AddrBook.sortDedup ["t".toList])
      let listeners ← compileListeners _ ∅
      ensure (listeners.len ≠ 0) _
      pure (HashMap.insert ∅ "n".toList (⟨tokens, listeners, 16, 4096, 4096⟩ : NodeGrant))) = _
    rw [ensureTokens_t]
    rfl
  rw [RelayFile.compile, hnodes]
  rfl

theorem transport_of_tcpConfig {key port} (h : tcpConfig.Allows key port) : key.transport = .tcp := by
  obtain ⟨grant, hgrant, -⟩ := h
  obtain ⟨node, hnode, hlistener⟩ := Option.bind_eq_some_iff.1 hgrant
  have hmem := get?_eq_some_iff.1 hnode
  obtain ⟨-, rfl⟩ := Prod.mk.inj (List.mem_singleton.1 hmem)
  have hmem' := get?_eq_some_iff.1 hlistener
  exact congrArg (fun entry => entry.1.2) (List.mem_singleton.1 hmem')

theorem reclaim_tcp_only :
    tcpRelay.compile (fun _ => none) = .ok tcpConfig ∧
      ∀ first second third key port, (run tcpConfig first).Holds key port →
        (run tcpConfig (first ++ second)).sessions.containsKey key.nodeId = false →
          ((run tcpConfig (first ++ second ++ third)).step tcpConfig
            (.lease key.nodeId ⟨key.listenerId, key.transport, port⟩)).2 ≠ .refused .forbidden :=
  ⟨compile_tcpRelay, (reclaim_iff_transports_apart compile_tcpRelay).2 fun _ _ _ h h' =>
    (transport_of_tcpConfig h).trans (transport_of_tcpConfig h').symm⟩

end Rove.Ingress
