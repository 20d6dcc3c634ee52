/-
The UDP flows of one session of the relay (`forward_udp`, `downlink_loop`,
`flow_sweeper`, `remove_lease_flows` and `remove_flow` of `ingress/relay.rs`). A flow
is entered in two tables, by its client and by its number.

The lock on the tables is taken for a lookup, for entering a flow or for removing
one, and what is done under it is one event. So a datagram that was looked up may be
sent after its flow is gone, and a key that was collected may be removed after
somebody else removed it, or gave it to another flow. `flows_inverse` is about every
interleaving of these. Numbers of bytes are left out, and so is the log.
-/
import Rove.Base.Run
import Rove.Ingress.Frame

namespace Rove.Ingress.Flows

open List HashMap

/-- `DEFAULT_FLOW_IDLE`, in nanoseconds. -/
def defaultFlowIdle : Nat := 60 * 10 ^ 9

/-- `RelayFlow`. A socket is known by a number, and `lastSeen` is the place of the
clock that the copies of a flow share. -/
structure RelayFlow where
  leaseId : Nat
  clientAddr : SocketAddr
  socket : Nat
  lastSeen : Nat

structure FlowTables where
  byKey : HashMap (Nat × SocketAddr) Id128 := ∅
  byId : HashMap (Nat × Id128) RelayFlow := ∅

/-- A downlink datagram with the flow it is for. -/
structure Delivery where
  leaseId : Nat
  flowId : Id128
  payload : Bytes
  flow : RelayFlow

/-- The tables of a session with its clocks, the datagrams that were looked up and
are not sent yet, and the keys that were collected and not removed yet. -/
structure FlowSession where
  tables : FlowTables := {}
  clocks : List Nat := []
  sending : List Delivery := []
  removing : List (Nat × Id128) := []

inductive FlowEvent where
  /-- `forward_udp`; the draws of `Id128::random` end where it fails. -/
  | uplink (socket leaseId : Nat) (clientAddr : SocketAddr) (payload : Bytes) (now : Nat) (draws : List Id128)
      (maxDatagramSize : Option Nat)
  /-- A datagram from the node, up to where its flow is found. -/
  | downlink (bytes : Bytes)
  /-- The `i`th datagram that was looked up is sent, or not. -/
  | send (i now : Nat) (sent : Bool)
  /-- The sweeper collects its keys. -/
  | sweep (now : Nat)
  /-- A lease that ended collects its keys. -/
  | endLease (leaseId : Nat)
  /-- `remove_flow` of the `i`th key that was collected. -/
  | remove (i : Nat)

/-- What comes of an event: a flow opened, a datagram for the node, one for a client. -/
structure FlowAnswer where
  opened : Option Id128 := none
  toNode : Option Datagram := none
  toClient : Option Delivery := none

namespace FlowTables

/-- The draws until one is not in use. -/
def freshId (t : FlowTables) (leaseId : Nat) (draws : List Id128) : Option Id128 :=
  draws.find? fun id => !t.byId.containsKey (leaseId, id)

def insert (t : FlowTables) (id : Id128) (flow : RelayFlow) : FlowTables :=
  ⟨t.byKey.insert (flow.leaseId, flow.clientAddr) id, t.byId.insert (flow.leaseId, id) flow⟩

def removeFlow (t : FlowTables) (key : Nat × Id128) : FlowTables :=
  match t.byId.get? key with
  | some flow => ⟨t.byKey.erase (flow.leaseId, flow.clientAddr), t.byId.erase key⟩
  | none => t

end FlowTables

namespace FlowSession

/-- The tables under the lock of `forward_udp`: the flow of the client, and whether it
is a new one. -/
def flowOf (maxUdpFlows : Nat) (s : FlowSession) (socket leaseId : Nat) (clientAddr : SocketAddr) (now : Nat)
    (draws : List Id128) : FlowSession × Option (Id128 × Bool) :=
  match s.tables.byKey.get? (leaseId, clientAddr) with
  | some id =>
    match s.tables.byId.get? (leaseId, id) with
    | some flow => ({ s with clocks := s.clocks.set flow.lastSeen now }, some (id, false))
    | none => (s, some (id, false))
  | none =>
    if s.tables.byId.len ≥ maxUdpFlows then (s, none)
    else
      match s.tables.freshId leaseId draws with
      | none => (s, none)
      | some id =>
        let flow := ⟨leaseId, clientAddr, socket, s.clocks.length⟩
        ({ s with tables := s.tables.insert id flow, clocks := s.clocks ++ [now] }, some (id, true))

/-- What `forward_udp` sends to the node: nothing that does not fit. -/
def uplinkOf (leaseId : Nat) (flowId : Id128) (clientAddr : SocketAddr) (payload : Bytes)
    (maxDatagramSize : Option Nat) :
    Option Datagram :=
  let datagram := Datagram.uplink leaseId flowId clientAddr payload
  if maxDatagramSize.any (datagram.encode.length > ·) then none else some datagram

/-- The flow a downlink datagram is for, if it is one and there is that flow. -/
def lookup (s : FlowSession) (bytes : Bytes) : Option Delivery :=
  match Datagram.parse bytes with
  | .ok (.downlink leaseId flowId payload) => (s.tables.byId.get? (leaseId, flowId)).map (⟨leaseId, flowId, payload, ·⟩)
  | _ => none

/-- One event of a session that is granted `maxUdpFlows`. -/
def step (maxUdpFlows : Nat) (s : FlowSession) : FlowEvent → FlowSession × FlowAnswer
  | .uplink socket leaseId clientAddr payload now draws maxDatagramSize =>
    match s.flowOf maxUdpFlows socket leaseId clientAddr now draws with
    | (s, none) => (s, {})
    | (s, some (id, isNew)) =>
      (s, { opened := if isNew then some id else none
            toNode := uplinkOf leaseId id clientAddr payload maxDatagramSize })
  | .downlink bytes => ({ s with sending := s.sending ++ (s.lookup bytes).toList }, {})
  | .send i now sent =>
    match s.sending[i]? with
    | none => (s, {})
    | some delivery =>
      let s := { s with sending := s.sending.eraseIdx i }
      if sent then ({ s with clocks := s.clocks.set delivery.flow.lastSeen now }, { toClient := some delivery })
      else (s, {})
  | .sweep now =>
    let expired := s.tables.byId.entries.filter fun (_, flow) => now - s.clocks.getD flow.lastSeen 0 ≥ defaultFlowIdle
    ({ s with removing := s.removing ++ expired.map Prod.fst }, {})
  | .endLease leaseId =>
    let ids := s.tables.byId.entries.filter fun (key, _) => key.1 = leaseId
    ({ s with removing := s.removing ++ ids.map Prod.fst }, {})
  | .remove i =>
    match s.removing[i]? with
    | none => (s, {})
    | some key => ({ s with tables := s.tables.removeFlow key, removing := s.removing.eraseIdx i }, {})

end FlowSession

/-! ## What an event does to the tables -/

/-- The tables before and after an event, and the flow it reports as opened. -/
inductive Change (maxUdpFlows : Nat) (t : FlowTables) (event : FlowEvent) : FlowTables → Option Id128 → Prop
  | same : Change maxUdpFlows t event t none
  | opened {socket leaseId : Nat} {clientAddr : SocketAddr} {payload : Bytes} {now : Nat} {draws : List Id128}
      {maxDatagramSize : Option Nat} {id : Id128} {lastSeen : Nat} :
      event = .uplink socket leaseId clientAddr payload now draws maxDatagramSize →
      t.byKey.get? (leaseId, clientAddr) = none → t.byId.get? (leaseId, id) = none → t.byId.len < maxUdpFlows →
      Change maxUdpFlows t event (t.insert id ⟨leaseId, clientAddr, socket, lastSeen⟩) (some id)
  | removed (key : Nat × Id128) : Change maxUdpFlows t event (t.removeFlow key) none

variable {maxUdpFlows : Nat}

variable {id : Id128} {event : FlowEvent} {answer : FlowAnswer} {d : Delivery} {s : FlowSession}

theorem FlowTables.get?_freshId {t : FlowTables} {leaseId : Nat} {draws : List Id128}
    (h : t.freshId leaseId draws = some id) : t.byId.get? (leaseId, id) = none := by
  have hfree := find?_some h
  simpa [HashMap.containsKey] using hfree

theorem step_change (s : FlowSession) (event : FlowEvent) :
    Change maxUdpFlows s.tables event (s.step maxUdpFlows event).1.tables (s.step maxUdpFlows event).2.opened := by
  cases event with
  | uplink socket leaseId clientAddr payload now draws maxDatagramSize =>
    simp only [FlowSession.step, FlowSession.flowOf]
    cases hkey : s.tables.byKey.get? (leaseId, clientAddr) with
    | some id =>
      dsimp only
      cases s.tables.byId.get? (leaseId, id) with
      | some flow => exact .same
      | none => exact .same
    | none =>
      by_cases hfull : s.tables.byId.len ≥ maxUdpFlows
      · rw [if_pos hfull]
        exact .same
      · rw [if_neg hfull]
        cases hid : s.tables.freshId leaseId draws with
        | none => exact .same
        | some id => exact .opened rfl hkey (FlowTables.get?_freshId hid) (Nat.lt_of_not_le hfull)
  | downlink bytes => exact .same
  | send i now sent =>
    simp only [FlowSession.step]
    split
    · exact .same
    · split
      · exact .same
      · exact .same
  | sweep now => exact .same
  | endLease leaseId => exact .same
  | remove i =>
    simp only [FlowSession.step]
    split
    · exact .same
    · next key _ => exact .removed key

/-! ## Who opened a flow -/

/-- Who opened the flow of that number, if this event did: the client and its socket. -/
def opens (leaseId : Nat) (id : Id128) : FlowEvent × FlowAnswer → Option (SocketAddr × Nat)
  | (.uplink socket leaseId' clientAddr _ _ _ _, answer) =>
    if leaseId' = leaseId ∧ answer.opened = some id then some (clientAddr, socket) else none
  | _ => none

/-- Who opened the flow that had the number last. -/
def openedBy (hist : List (FlowEvent × FlowAnswer)) (leaseId : Nat) (id : Id128) : Option (SocketAddr × Nat) :=
  hist.reverse.findSome? (opens leaseId id)

theorem openedBy_concat (hist : List (FlowEvent × FlowAnswer)) (e : FlowEvent × FlowAnswer)
    (leaseId : Nat) (id : Id128) :
    openedBy (hist ++ [e]) leaseId id = (opens leaseId id e).or (openedBy hist leaseId id) := by
  rw [openedBy, reverse_append]
  simp only [reverse_singleton, singleton_append, findSome?_cons, openedBy]
  cases opens leaseId id e <;> rfl

theorem opens_eq_none (h : answer.opened = none) (leaseId : Nat) (id : Id128) :
    opens leaseId id (event, answer) = none := by
  cases event <;> simp [opens, h]

/-! ## The tables -/

/-- Tables that are inverse to each other and hold no more than they may, with flows
that are as they were opened. -/
structure Kept (maxUdpFlows : Nat) (t : FlowTables) (hist : List (FlowEvent × FlowAnswer)) : Prop where
  inverse : ∀ leaseId clientAddr id, t.byKey.get? (leaseId, clientAddr) = some id ↔
    ∃ flow, t.byId.get? (leaseId, id) = some flow ∧ flow.clientAddr = clientAddr
  len_eq : t.byKey.len = t.byId.len
  len_le : t.byId.len ≤ maxUdpFlows
  opened : ∀ leaseId id flow, t.byId.get? (leaseId, id) = some flow →
    flow.leaseId = leaseId ∧ openedBy hist leaseId id = some (flow.clientAddr, flow.socket)

variable {t : FlowTables} {hist : List (FlowEvent × FlowAnswer)}

theorem kept_empty : Kept maxUdpFlows {} [] := by
  refine ⟨fun leaseId clientAddr id => ?_, rfl, Nat.zero_le _, fun leaseId id flow h => ?_⟩
  · simp
  · simp at h

theorem Kept.inverse_insert (h : Kept maxUdpFlows t hist) {flow}
    (hkey : t.byKey.get? (flow.leaseId, flow.clientAddr) = none) (hid : t.byId.get? (flow.leaseId, id) = none)
    (leaseId : Nat) (clientAddr : SocketAddr) (id' : Id128) :
    (t.insert id flow).byKey.get? (leaseId, clientAddr) = some id' ↔
      ∃ flow', (t.insert id flow).byId.get? (leaseId, id') = some flow' ∧ flow'.clientAddr = clientAddr := by
  have hold := h.inverse leaseId clientAddr id'
  simp only [FlowTables.insert, get?_insert, Prod.mk.injEq]
  by_cases hlease : leaseId = flow.leaseId
  · subst hlease
    by_cases hclient : clientAddr = flow.clientAddr
    · subst hclient
      by_cases hnew : id' = id
      · simp [hnew]
      · rw [hkey] at hold
        have hne : ¬ id = id' := fun heq => hnew heq.symm
        simp only [true_and, if_true, Option.some.injEq, hne, hnew, if_false, false_iff]
        exact fun hex => by simpa using hold.2 hex
    · simp only [true_and, hclient, if_false]
      by_cases hnew : id' = id
      · subst hnew
        rw [hid] at hold
        have hne : ¬ flow.clientAddr = clientAddr := fun heq => hclient heq.symm
        simpa [hne] using hold
      · simpa only [hnew, if_false] using hold
  · simpa only [hlease, false_and, if_false] using hold

theorem Kept.inverse_removeFlow (h : Kept maxUdpFlows t hist) {flow}
    (hflow : t.byId.get? (flow.leaseId, id) = some flow) (leaseId : Nat) (clientAddr : SocketAddr) (id' : Id128) :
    (t.byKey.erase (flow.leaseId, flow.clientAddr)).get? (leaseId, clientAddr) = some id' ↔
      ∃ flow', (t.byId.erase (flow.leaseId, id)).get? (leaseId, id') = some flow' ∧ flow'.clientAddr = clientAddr := by
  have hold := h.inverse leaseId clientAddr id'
  have hself : t.byKey.get? (flow.leaseId, flow.clientAddr) = some id := (h.inverse _ _ _).2 ⟨flow, hflow, rfl⟩
  simp only [get?_erase, Prod.mk.injEq]
  by_cases hlease : leaseId = flow.leaseId
  · subst hlease
    by_cases hid : id' = id
    · -- the number that is removed has one client only
      subst hid
      simp only [true_and, if_true, reduceCtorEq, false_and, exists_false, iff_false]
      by_cases hclient : clientAddr = flow.clientAddr
      · simp [hclient]
      · simp only [hclient, if_false]
        intro hsome
        obtain ⟨flow', hflow', heq⟩ := hold.1 hsome
        obtain rfl : flow = flow' := Option.some.inj (hflow.symm.trans hflow')
        exact hclient heq.symm
    · simp only [true_and, hid, if_false]
      by_cases hclient : clientAddr = flow.clientAddr
      · subst hclient
        simp only [if_true, reduceCtorEq, false_iff]
        intro hex
        exact hid (Option.some.inj ((hold.2 hex).symm.trans hself))
      · simpa only [hclient, if_false] using hold
  · simpa only [hlease, false_and, if_false] using hold

theorem Kept.insert (h : Kept maxUdpFlows t hist) {socket leaseId lastSeen now clientAddr payload draws maxDatagramSize}
    (hkey : t.byKey.get? (leaseId, clientAddr) = none) (hid : t.byId.get? (leaseId, id) = none)
    (hroom : t.byId.len < maxUdpFlows) (hanswer : answer.opened = some id) :
    Kept maxUdpFlows (t.insert id ⟨leaseId, clientAddr, socket, lastSeen⟩)
      (hist ++ [(.uplink socket leaseId clientAddr payload now draws maxDatagramSize, answer)]) := by
  have hlenKey := len_insert_of_none hkey id
  have hlenId := len_insert_of_none hid (⟨leaseId, clientAddr, socket, lastSeen⟩ : RelayFlow)
  refine ⟨h.inverse_insert hkey hid, ?_, ?_, ?_⟩
  · rw [FlowTables.insert, hlenKey, hlenId, h.len_eq]
  · rw [FlowTables.insert, hlenId]
    exact hroom
  · intro leaseId' id' flow hflow
    simp only [FlowTables.insert, get?_insert, Prod.mk.injEq] at hflow
    rw [openedBy_concat, opens, hanswer]
    by_cases hnew : leaseId' = leaseId ∧ id' = id
    · obtain ⟨rfl, rfl⟩ := hnew
      simp only [and_self, if_true, Option.some.injEq] at hflow
      subst hflow
      exact ⟨rfl, by simp⟩
    · rw [if_neg hnew] at hflow
      have hother : ¬ (leaseId = leaseId' ∧ some id = some id') := by
        intro heq
        exact hnew ⟨heq.1.symm, (Option.some.inj heq.2).symm⟩
      rw [if_neg hother]
      exact h.opened leaseId' id' flow hflow

theorem Kept.removeFlow (h : Kept maxUdpFlows t hist) (key : Nat × Id128) :
    Kept maxUdpFlows (t.removeFlow key) hist := by
  obtain ⟨leaseId, id⟩ := key
  rw [FlowTables.removeFlow]
  cases hflow : t.byId.get? (leaseId, id) with
  | none => exact h
  | some flow =>
    obtain ⟨rfl, -⟩ := h.opened leaseId id flow hflow
    have hself : t.byKey.get? (flow.leaseId, flow.clientAddr) = some id := (h.inverse _ _ _).2 ⟨flow, hflow, rfl⟩
    have hlenKey := len_erase_of_some hself
    have hlenId := len_erase_of_some hflow
    have hlen := h.len_eq
    have hle := h.len_le
    refine ⟨h.inverse_removeFlow hflow, ?_, ?_, ?_⟩
    · dsimp only
      omega
    · dsimp only
      omega
    · intro leaseId' id' flow' hflow'
      exact h.opened leaseId' id' flow' (get?_of_erase hflow')

/-- An event that opens no flow leaves what is known about those that are open. -/
theorem Kept.concat (h : Kept maxUdpFlows t hist) (hnone : answer.opened = none) :
    Kept maxUdpFlows t (hist ++ [(event, answer)]) := by
  refine ⟨h.inverse, h.len_eq, h.len_le, fun leaseId id flow hflow => ?_⟩
  rw [openedBy_concat, opens_eq_none hnone]
  exact h.opened leaseId id flow hflow

theorem Kept.change (h : Kept maxUdpFlows t hist) {t'}
    (hchange : Change maxUdpFlows t event t' answer.opened) : Kept maxUdpFlows t' (hist ++ [(event, answer)]) := by
  generalize hopened : answer.opened = opened at hchange
  cases hchange with
  | same => exact h.concat hopened
  | opened hevent hkey hid hroom =>
    rw [hevent]
    exact h.insert hkey hid hroom hopened
  | removed key => exact (h.removeFlow key).concat hopened

/-! ## The datagrams that are sent -/

/-- A datagram came, and the flow it was for was then the one that is written on it. -/
def Justified (hist : List (FlowEvent × FlowAnswer)) (d : Delivery) : Prop :=
  ∃ before bytes answer after, hist = before ++ (.downlink bytes, answer) :: after ∧
    Datagram.parse bytes = .ok (.downlink d.leaseId d.flowId d.payload) ∧
    openedBy before d.leaseId d.flowId = some (d.flow.clientAddr, d.flow.socket)

theorem Justified.concat (h : Justified hist d) (e : FlowEvent × FlowAnswer) : Justified (hist ++ [e]) d := by
  obtain ⟨before, bytes, answer, after, rfl, hparse, hopened⟩ := h
  exact ⟨before, bytes, answer, after ++ [e], by simp, hparse, hopened⟩

theorem justified_lookup (h : Kept maxUdpFlows s.tables hist) {bytes}
    (hd : s.lookup bytes = some d) (answer : FlowAnswer) : Justified (hist ++ [(.downlink bytes, answer)]) d := by
  rw [FlowSession.lookup] at hd
  split at hd
  · next leaseId flowId payload hparse =>
    obtain ⟨flow, hflow, rfl⟩ := Option.map_eq_some_iff.1 hd
    exact ⟨hist, bytes, answer, [], rfl, hparse, (h.opened _ _ _ hflow).2⟩
  · cases hd

theorem sending_flowOf (maxUdpFlows : Nat) (s : FlowSession) (socket leaseId : Nat)
    (clientAddr : SocketAddr) (now : Nat) (draws : List Id128) :
    (s.flowOf maxUdpFlows socket leaseId clientAddr now draws).1.sending = s.sending := by
  rw [FlowSession.flowOf]
  split
  · split
    · rfl
    · rfl
  · split
    · rfl
    · split
      · rfl
      · rfl

/-- What is waiting to be sent was waiting before, or was looked up by this event. -/
theorem mem_sending_step
    (hd : d ∈ (s.step maxUdpFlows event).1.sending) :
    d ∈ s.sending ∨ ∃ bytes, event = .downlink bytes ∧ s.lookup bytes = some d := by
  cases event with
  | uplink socket leaseId clientAddr payload now draws maxDatagramSize =>
    left
    rw [← sending_flowOf maxUdpFlows s socket leaseId clientAddr now draws]
    simp only [FlowSession.step] at hd
    split at hd
    · next heq =>
      rw [heq]
      exact hd
    · next heq =>
      rw [heq]
      exact hd
  | downlink bytes =>
    cases mem_append.1 hd with
    | inl hold => exact .inl hold
    | inr hnew => exact .inr ⟨bytes, rfl, Option.mem_toList.1 hnew⟩
  | send i now sent =>
    left
    simp only [FlowSession.step] at hd
    split at hd
    · exact hd
    · split at hd
      · exact mem_of_mem_eraseIdx hd
      · exact mem_of_mem_eraseIdx hd
  | sweep now => exact .inl hd
  | endLease leaseId => exact .inl hd
  | remove i =>
    left
    simp only [FlowSession.step] at hd
    split at hd
    · exact hd
    · exact hd

theorem mem_sending_of_toClient
    (hd : (s.step maxUdpFlows event).2.toClient = some d) : d ∈ s.sending := by
  cases event with
  | send i now sent =>
    simp only [FlowSession.step] at hd
    split at hd
    · cases hd
    · next delivery hi =>
      split at hd
      · cases hd
        exact mem_of_getElem? hi
      · cases hd
  | uplink socket leaseId clientAddr payload now draws maxDatagramSize =>
    simp only [FlowSession.step] at hd
    split at hd <;> cases hd
  | downlink bytes => cases hd
  | sweep now => cases hd
  | endLease leaseId => cases hd
  | remove i =>
    simp only [FlowSession.step] at hd
    split at hd <;> cases hd

/-- What holds of a session along its history. -/
structure Sound (maxUdpFlows : Nat) (s : FlowSession) (hist : List (FlowEvent × FlowAnswer)) : Prop where
  kept : Kept maxUdpFlows s.tables hist
  justified : ∀ d ∈ s.sending, Justified hist d

theorem Sound.step (h : Sound maxUdpFlows s hist) (event : FlowEvent) :
    Sound maxUdpFlows (s.step maxUdpFlows event).1 (hist ++ [(event, (s.step maxUdpFlows event).2)]) := by
  refine ⟨h.kept.change (step_change s event), fun d hd => ?_⟩
  cases mem_sending_step hd with
  | inl hold => exact (h.justified d hold).concat _
  | inr hnew =>
    obtain ⟨bytes, rfl, hlookup⟩ := hnew
    exact justified_lookup h.kept hlookup _

theorem sound_run (maxUdpFlows : Nat) (events : List FlowEvent) :
    Sound maxUdpFlows (runState (FlowSession.step maxUdpFlows) {} events)
      (runTrace (FlowSession.step maxUdpFlows) {} events) := by
  have hinit : Sound maxUdpFlows {} [] := ⟨kept_empty, by simp⟩
  exact @run_induction _ _ _ (FlowSession.step maxUdpFlows) (Sound maxUdpFlows)
    (fun _ _ event h => h.step event) _ _ hinit events

/-- After any sequence of events the two tables are inverse to each other and within
the limit of the node, and whatever is sent to a client next answers a datagram from
the node, over the socket and to the client that opened the flow it names. -/
theorem flows_inverse (maxUdpFlows : Nat) (events : List FlowEvent) :
    let s := runState (FlowSession.step maxUdpFlows) {} events
    (∀ leaseId clientAddr id, s.tables.byKey.get? (leaseId, clientAddr) = some id ↔
        ∃ flow, s.tables.byId.get? (leaseId, id) = some flow ∧ flow.clientAddr = clientAddr) ∧
      (s.tables.byKey.len ≤ maxUdpFlows ∧ s.tables.byId.len ≤ maxUdpFlows) ∧
      ∀ event d, (s.step maxUdpFlows event).2.toClient = some d →
        ∃ before bytes after, events = before ++ .downlink bytes :: after ∧
          Datagram.parse bytes = .ok (.downlink d.leaseId d.flowId d.payload) ∧
          openedBy (runTrace (FlowSession.step maxUdpFlows) {} before) d.leaseId d.flowId =
            some (d.flow.clientAddr, d.flow.socket) := by
  intro s
  have h := sound_run maxUdpFlows events
  refine ⟨h.kept.inverse, ⟨h.kept.len_eq ▸ h.kept.len_le, h.kept.len_le⟩, fun event d hd => ?_⟩
  obtain ⟨before, bytes, answer, after, htrace, hparse, hopened⟩ := h.justified d (mem_sending_of_toClient hd)
  obtain ⟨earlier, later, hevents, rfl, -⟩ := runTrace_eq_append_cons htrace
  exact ⟨earlier, bytes, later, hevents, hparse, hopened⟩

end Rove.Ingress.Flows
