/-
The UDP relays of one TUIC connection (`relay_uplink`, `open_association` and
`spawn_return_pump` of `inbound/tuic/mod.rs`), with everything that holds one: the
association table, a packet that is on its way, and the pump that returns packets to
the client. A relay is open as long as something holds it.

The lock of the table is held for one step at a time, so that packets, openings and
commands interleave between the steps. `relays_accounted_iff` says which
interleavings leave a relay open that the table does not hold.
-/
import Rove.Inbound.UdpAssociation
import Rove.Reverse.Udp

namespace Rove.Inbound.Tuic

open List
open Model (Decision)
open Outbound (Course connectUdp)
open Reverse (ReturnPacket)

/-- A `UdpRelay`, by how many were opened before it, and its hop. -/
structure UdpRelay where
  number : Nat
  hop : Str
  deriving DecidableEq

/-- A task of `spawn_return_pump`. -/
structure Pump where
  relay : UdpRelay
  assocId : BitVec 16
  pktId : BitVec 16 := 0
  aborted : Bool := false
  deriving DecidableEq

/-- A connection: the association table, the packets whose relay is being opened,
those whose relay is about to be entered in the table, those that hold a relay to send
on, and the pumps that have not ended. -/
structure Conn where
  opened : Nat := 0
  assoc : HashMap (BitVec 16) UdpRelay := ∅
  opening : List Packet := []
  entering : List (Packet × UdpRelay) := []
  sending : List (Packet × UdpRelay) := []
  pumps : List Pump := []

inductive Event where
  /-- a command comes in, with the identity of the connection at that time -/
  | command (identity : Option Str) (bytes : Bytes)
  /-- `connect_udp` returns -/
  | opened (k : Nat) (course : Course)
  /-- the relay is entered in the table -/
  | entered (k : Nat)
  /-- `send_to` returns -/
  | sent (k : Nat)
  | dissociate (assocId : BitVec 16)
  /-- a hop returns a packet, which fits a datagram or not, and the client is there or not -/
  | returned (k : Nat) (packet : ReturnPacket) (fits sends : Bool)
  /-- the runtime drops a task that was aborted -/
  | reaped (k : Nat)
  /-- the loops of the connection have ended -/
  | ended

/-- A packet that leaves: to a hop, or to the client. -/
inductive Sent where
  | uplink (forward : Forward)
  | downlink (assocId pktId : BitVec 16) (packet : ReturnPacket)

/-- `UdpAssoc::drop`, for the associations with these relays. -/
def abort (dropped : UdpRelay → Bool) (pumps : List Pump) : List Pump :=
  pumps.map fun pump => if dropped pump.relay then { pump with aborted := true } else pump

namespace Conn

variable (decide : Str → Str → Decision)

/-- `relay_uplink`, up to the opening of a relay. -/
def relayUplink (s : Conn) (p : Packet) : Conn :=
  if decide p.user p.host = .block then s
  else
    match s.assoc.get? p.assocId with
    | some relay => { s with sending := s.sending ++ [(p, relay)] }
    | none => { s with opening := s.opening ++ [p] }

/-- `open_association`, up to the table: the pump is running by then. -/
def connected (s : Conn) (p : Packet) (course : Course) : Conn :=
  match connectUdp course (decide p.user p.host) with
  | .error _ => s
  | .ok (hop, _) =>
    let relay : UdpRelay := ⟨s.opened, hop⟩
    { s with
      opened := s.opened + 1
      entering := s.entering ++ [(p, relay)]
      pumps := s.pumps ++ [{ relay, assocId := p.assocId }] }

/-- The end of `open_association`. An entry that is there stays, and the handle of
the pump is dropped with the closure: that detaches the task, it does not abort it. -/
def enter (s : Conn) (p : Packet) (relay : UdpRelay) : Conn :=
  match s.assoc.get? p.assocId with
  | some entry => { s with sending := s.sending ++ [(p, entry)] }
  | none => { s with assoc := s.assoc.insert p.assocId relay, sending := s.sending ++ [(p, relay)] }

/-- A `Dissociate`. -/
def dissociate (s : Conn) (assocId : BitVec 16) : Conn :=
  match s.assoc.get? assocId with
  | none => s
  | some relay => { s with assoc := s.assoc.erase assocId, pumps := abort (· = relay) s.pumps }

/-- `assoc.clear()`. -/
def clear (s : Conn) : Conn :=
  { s with assoc := ∅, pumps := abort (fun relay => s.assoc.entries.any (·.2 = relay)) s.pumps }

def pump (s : Conn) (k : Nat) (pump : Pump) (packet : ReturnPacket) (fits sends : Bool) : Conn × Option Sent :=
  let next := { s with pumps := s.pumps.set k { pump with pktId := pump.pktId + 1 } }
  if !fits then (next, none)
  else if sends then (next, some (.downlink pump.assocId pump.pktId packet))
  else ({ s with pumps := s.pumps.eraseIdx k }, none)

/-- One event, with the packet that leaves. -/
def step (s : Conn) : Event → Conn × Option Sent
  | .command identity bytes =>
    match (TuicEvent.command identity bytes).packet with
    | none => (s, none)
    | some p => (s.relayUplink decide p, none)
  | .opened k course =>
    match s.opening[k]? with
    | none => (s, none)
    | some p => ({ s with opening := s.opening.eraseIdx k }.connected decide p course, none)
  | .entered k =>
    match s.entering[k]? with
    | none => (s, none)
    | some (p, relay) => ({ s with entering := s.entering.eraseIdx k }.enter p relay, none)
  | .sent k =>
    match s.sending[k]? with
    | none => (s, none)
    | some (p, relay) => ({ s with sending := s.sending.eraseIdx k }, some (.uplink (p.forward relay.hop)))
  | .dissociate assocId => (s.dissociate assocId, none)
  | .returned k packet fits sends =>
    match s.pumps[k]? with
    | none => (s, none)
    | some pump => s.pump k pump packet fits sends
  | .reaped k =>
    match s.pumps[k]? with
    | none => (s, none)
    | some pump => if pump.aborted then ({ s with pumps := s.pumps.eraseIdx k }, none) else (s, none)
  | .ended => (s.clear, none)

/-! ## What is to hold -/

def Associated (s : Conn) (relay : UdpRelay) : Prop := ∃ assocId, s.assoc.get? assocId = some relay

/-- Something holds the relay, and so it is open. -/
def Open (s : Conn) (relay : UdpRelay) : Prop :=
  s.Associated relay ∨ (∃ e ∈ s.entering, e.2 = relay) ∨ (∃ e ∈ s.sending, e.2 = relay) ∨
  ∃ pump ∈ s.pumps, pump.relay = relay

/-- No packet is on its way with a relay, and what was aborted has ended. -/
def Quiet (s : Conn) : Prop := s.entering = [] ∧ s.sending = [] ∧ ∀ pump ∈ s.pumps, pump.aborted = false

/-- A pump that goes on is the one of its association, or of a packet that is about
to enter it; with nothing on its way, the relays that are open are those of the table. -/
structure Accounted (s : Conn) : Prop where
  pump : ∀ pump ∈ s.pumps, pump.aborted = false →
    s.assoc.get? pump.assocId = some pump.relay ∨ ∃ e ∈ s.entering, e.1.assocId = pump.assocId ∧ e.2 = pump.relay
  exact : s.Quiet → ∀ relay, s.Open relay ↔ s.Associated relay

/-- A relay that is entered finds no other for its association, or its pump has ended
by itself. -/
def NoRace (s : Conn) : Event → Prop
  | .entered k => ∀ e, s.entering[k]? = some e → s.assoc.get? e.1.assocId = none ∨ ∀ pump ∈ s.pumps, pump.relay ≠ e.2
  | _ => True

/-! ## What an event does -/

def SamePumps (s s' : Conn) : Prop :=
  ∀ pump ∈ s'.pumps, ∃ old ∈ s.pumps, pump.relay = old.relay ∧ pump.assocId = old.assocId ∧ pump.aborted = old.aborted

/-- What an event does to the table, the relays about to be entered, and the pumps. -/
inductive Change (s : Conn) : Event → Conn → Prop
  | kept {event : Event} {s' : Conn} : s'.opened = s.opened → s'.assoc = s.assoc →
      s'.entering = s.entering → s.SamePumps s' →
      Change s event s'
  | connected {event : Event} {s' : Conn} {p : Packet} {relay : UdpRelay} : relay.number = s.opened →
      s'.opened = s.opened + 1 →
      s'.assoc = s.assoc → s'.entering = s.entering ++ [(p, relay)] →
      s'.pumps = s.pumps ++ [{ relay, assocId := p.assocId }] → Change s event s'
  | taken {k : Nat} {s' : Conn} {e : Packet × UdpRelay} : s.entering[k]? = some e → s'.opened = s.opened →
      s.assoc.get? e.1.assocId ≠ none → s'.assoc = s.assoc → s'.entering = s.entering.eraseIdx k → s'.pumps = s.pumps →
      Change s (.entered k) s'
  | entered {k : Nat} {s' : Conn} {e : Packet × UdpRelay} : s.entering[k]? = some e → s'.opened = s.opened →
      s.assoc.get? e.1.assocId = none → s'.assoc = s.assoc.insert e.1.assocId e.2 →
      s'.entering = s.entering.eraseIdx k →
      s'.pumps = s.pumps → Change s (.entered k) s'
  | dropped {event : Event} {s' : Conn} {ids : BitVec 16 → Bool} {gone : UdpRelay → Bool} : s'.opened = s.opened →
      (∀ assocId, s'.assoc.get? assocId = if ids assocId then none else s.assoc.get? assocId) →
      (∀ relay, gone relay = true ↔ ∃ assocId, ids assocId = true ∧ s.assoc.get? assocId = some relay) →
      s'.entering = s.entering → s'.pumps = abort gone s.pumps → Change s event s'

variable {s : Conn} {event : Event}

theorem samePumps_refl {s'} (h : s'.pumps = s.pumps) : s.SamePumps s' := by
  intro pump hpump
  rw [h] at hpump
  exact ⟨pump, hpump, rfl, rfl, rfl⟩

theorem samePumps_eraseIdx {s' k} (h : s'.pumps = s.pumps.eraseIdx k) : s.SamePumps s' := by
  intro pump hpump
  rw [h] at hpump
  exact ⟨pump, mem_of_mem_eraseIdx hpump, rfl, rfl, rfl⟩

theorem samePumps_set {s' k pump} (hpump : s.pumps[k]? = some pump)
    (h : s'.pumps = s.pumps.set k { pump with pktId := pump.pktId + 1 }) : s.SamePumps s' := by
  intro pump' hpump'
  rw [h] at hpump'
  rcases mem_or_eq_of_mem_set hpump' with hold | rfl
  · exact ⟨pump', hold, rfl, rfl, rfl⟩
  · exact ⟨pump, mem_of_getElem? hpump, rfl, rfl, rfl⟩

theorem change_of_eq : s.Change event s := .kept rfl rfl rfl (samePumps_refl rfl)

theorem change_connected {s₀ : Conn} (p : Packet) (course : Course) (hopened : s₀.opened = s.opened)
    (hassoc : s₀.assoc = s.assoc) (hentering : s₀.entering = s.entering) (hpumps : s₀.pumps = s.pumps) :
    s.Change event (s₀.connected decide p course) := by
  rw [connected]
  split
  · exact .kept hopened hassoc hentering (samePumps_refl hpumps)
  · next hop _ _ =>
    refine @Change.connected s event _ p ⟨s₀.opened, hop⟩ hopened ?_ hassoc ?_ ?_
    · rw [hopened]
    · rw [hentering]
    · rw [hpumps]

theorem change_dissociate (s : Conn) (assocId : BitVec 16) (event : Event) : s.Change event (s.dissociate assocId) := by
  rw [dissociate]
  split
  · exact change_of_eq
  · next relay hget =>
    refine @Change.dropped s event _ (· = assocId) (· = relay) rfl (fun id => ?_) (fun relay' => ?_) rfl rfl
    · rw [HashMap.get?_erase]
      simp
    · simp only [decide_eq_true_eq, exists_eq_left, hget, Option.some.injEq]
      exact eq_comm

theorem change_clear (s : Conn) (event : Event) : s.Change event s.clear := by
  refine @Change.dropped s event _ (fun _ => true) (fun relay => s.assoc.entries.any (·.2 = relay)) rfl (fun id => rfl)
    (fun relay => ?_) rfl rfl
  simp only [any_eq_true, decide_eq_true_eq, Prod.exists, exists_eq_right, true_and, HashMap.get?_eq_some_iff]

theorem step_change (s : Conn) (event : Event) : s.Change event (s.step decide event).1 := by
  cases event with
  | command identity bytes =>
    simp only [step]
    split
    · exact change_of_eq
    · simp only [relayUplink]
      split
      · exact change_of_eq
      · split <;> exact .kept rfl rfl rfl (samePumps_refl rfl)
  | opened k course =>
    simp only [step]
    split
    · exact change_of_eq
    · exact change_connected decide _ course rfl rfl rfl rfl
  | entered k =>
    simp only [step]
    split
    · exact change_of_eq
    · next p relay hk =>
      simp only [enter]
      split
      · next entry hget => exact .taken hk rfl (by rw [hget]; simp) rfl rfl rfl
      · next hget => exact .entered hk rfl hget rfl rfl rfl
  | sent k =>
    simp only [step]
    split
    · exact change_of_eq
    · exact .kept rfl rfl rfl (samePumps_refl rfl)
  | dissociate assocId => exact change_dissociate s assocId _
  | returned k packet fits sends =>
    simp only [step]
    split
    · exact change_of_eq
    · next pump hpump =>
      simp only [Conn.pump]
      split
      · exact .kept rfl rfl rfl (samePumps_set hpump rfl)
      · split
        · exact .kept rfl rfl rfl (samePumps_set hpump rfl)
        · exact .kept rfl rfl rfl (samePumps_eraseIdx rfl)
  | reaped k =>
    simp only [step]
    split
    · exact change_of_eq
    · split
      · exact .kept rfl rfl rfl (samePumps_eraseIdx rfl)
      · exact change_of_eq
  | ended => exact change_clear s _

/-! ## Relays do not turn up twice -/

/-- Every relay was opened once: those about to be entered are different, no
association has one of them, and their pumps have not been aborted. -/
structure Fresh (s : Conn) : Prop where
  table : ∀ {assocId relay}, s.assoc.get? assocId = some relay → relay.number < s.opened
  entering : ∀ e ∈ s.entering, e.2.number < s.opened
  pumps : ∀ pump ∈ s.pumps, pump.relay.number < s.opened
  nodup : (s.entering.map Prod.snd).Nodup
  apart : ∀ {assocId relay}, s.assoc.get? assocId = some relay → ∀ e ∈ s.entering, e.2 ≠ relay
  pump : ∀ e ∈ s.entering, ∀ pump ∈ s.pumps, pump.relay = e.2 → pump.aborted = false ∧ pump.assocId = e.1.assocId

theorem fresh_empty : Fresh {} := by
  constructor <;> simp

/-- Relays that are let go, and pumps that are aborted with their association. -/
theorem Fresh.mono {s' : Conn} (h : s.Fresh) (hopened : s'.opened = s.opened)
    (hentering : s'.entering.Sublist s.entering)
    (htable : ∀ {assocId relay}, s'.assoc.get? assocId = some relay → s.assoc.get? assocId = some relay)
    (hpumps : ∀ pump ∈ s'.pumps, ∃ old ∈ s.pumps, pump.relay = old.relay ∧ pump.assocId = old.assocId ∧
      (pump.aborted = old.aborted ∨ s.Associated old.relay)) : s'.Fresh := by
  constructor
  · intro assocId relay hget
    exact hopened ▸ h.table (htable hget)
  · intro e he
    exact hopened ▸ h.entering e (hentering.subset he)
  · intro pump hpump
    obtain ⟨old, hold, hrelay, -⟩ := hpumps pump hpump
    exact hopened ▸ hrelay ▸ h.pumps old hold
  · exact h.nodup.sublist (hentering.map _)
  · intro assocId relay hget e he
    exact h.apart (htable hget) e (hentering.subset he)
  · intro e he pump hpump hrelay
    obtain ⟨old, hold, hsame, hid, haborted⟩ := hpumps pump hpump
    obtain ⟨hrunning, hassoc⟩ := h.pump e (hentering.subset he) old hold (hsame ▸ hrelay)
    refine ⟨?_, hid.trans hassoc⟩
    rcases haborted with haborted | ⟨assocId, hget⟩
    · exact haborted.trans hrunning
    · exact absurd (hrelay.symm.trans hsame) (h.apart hget e (hentering.subset he))

theorem Fresh.connected {s s' : Conn} (h : s.Fresh) {p : Packet} {relay : UdpRelay} (hnumber : relay.number = s.opened)
    (hopened : s'.opened = s.opened + 1) (hassoc : s'.assoc = s.assoc)
    (hentering : s'.entering = s.entering ++ [(p, relay)])
    (hpumps : s'.pumps = s.pumps ++ [{ relay, assocId := p.assocId }]) : s'.Fresh := by
  -- the new relay has a number that no other one has
  have hnew : ∀ old : UdpRelay, old.number < s.opened → old ≠ relay := by
    rintro old hlt rfl
    omega
  have hlt : ∀ {n : Nat}, n < s.opened → n < s'.opened := fun hn => by omega
  constructor
  · intro assocId relay' hget
    rw [hassoc] at hget
    exact hlt (h.table hget)
  · rw [hentering, forall_mem_append, forall_mem_singleton]
    exact ⟨fun e he => hlt (h.entering e he), by dsimp only; omega⟩
  · rw [hpumps, forall_mem_append, forall_mem_singleton]
    exact ⟨fun pump hpump => hlt (h.pumps pump hpump), by dsimp only; omega⟩
  · rw [hentering, map_append, map_singleton, nodup_append]
    refine ⟨h.nodup, nodup_singleton _, fun old hold new hmem => ?_⟩
    obtain ⟨e, he, rfl⟩ := mem_map.1 hold
    rw [mem_singleton.1 hmem]
    exact hnew e.2 (h.entering e he)
  · intro assocId relay' hget
    rw [hassoc] at hget
    rw [hentering, forall_mem_append, forall_mem_singleton]
    exact ⟨h.apart hget, (hnew relay' (h.table hget)).symm⟩
  · rw [hentering, hpumps, forall_mem_append, forall_mem_singleton]
    simp only [forall_mem_append, forall_mem_singleton]
    refine ⟨fun e he => ⟨h.pump e he, fun heq => ?_⟩, fun pump hpump heq => ?_, fun _ => ⟨trivial, trivial⟩⟩
    · exact absurd heq.symm (hnew e.2 (h.entering e he))
    · exact absurd heq (hnew pump.relay (h.pumps pump hpump))

/-- What is taken out of a list without repetition is not in it any more. -/
theorem Fresh.not_mem_eraseIdx (h : s.Fresh) {k e} (hk : s.entering[k]? = some e) :
    ∀ e' ∈ s.entering.eraseIdx k, e'.2 ≠ e.2 := by
  intro e' he' heq
  obtain ⟨j, hj, hget⟩ := mem_eraseIdx_iff_getElem?.1 he'
  have hlt : j < (s.entering.map Prod.snd).length := by
    rw [length_map]
    exact (List.getElem?_eq_some_iff.1 hget).1
  refine hj ((getElem?_inj hlt h.nodup).1 ?_)
  rw [getElem?_map, getElem?_map, hget, hk, Option.map_some, Option.map_some, heq]

theorem Fresh.entered {s s' : Conn} (h : s.Fresh) {k : Nat} {e : Packet × UdpRelay} (hk : s.entering[k]? = some e)
    (hopened : s'.opened = s.opened) (hassoc : s'.assoc = s.assoc.insert e.1.assocId e.2)
    (hentering : s'.entering = s.entering.eraseIdx k) (hpumps : s'.pumps = s.pumps) : s'.Fresh := by
  have hmem : ∀ e' ∈ s'.entering, e' ∈ s.entering := fun e' he' => mem_of_mem_eraseIdx (hentering ▸ he')
  have htable : ∀ {assocId relay}, s'.assoc.get? assocId = some relay → relay = e.2 ∨
    s.assoc.get? assocId = some relay := by
    intro assocId relay hget
    rw [hassoc, HashMap.get?_insert] at hget
    split at hget
    · exact .inl (Option.some.inj hget).symm
    · exact .inr hget
  constructor
  · intro assocId relay hget
    rw [hopened]
    rcases htable hget with rfl | hold
    · exact h.entering e (mem_of_getElem? hk)
    · exact h.table hold
  · exact fun e' he' => hopened ▸ h.entering e' (hmem e' he')
  · rw [hpumps, hopened]
    exact h.pumps
  · rw [hentering]
    exact h.nodup.sublist ((eraseIdx_sublist _ _).map _)
  · intro assocId relay hget e' he'
    rcases htable hget with rfl | hold
    · exact h.not_mem_eraseIdx hk e' (hentering ▸ he')
    · exact h.apart hold e' (hmem e' he')
  · rw [hpumps]
    exact fun e' he' => h.pump e' (hmem e' he')

theorem Fresh.change {s' : Conn} (h : s.Fresh) (hchange : s.Change event s') : s'.Fresh := by
  cases hchange with
  | kept hopened hassoc hentering hpumps =>
    refine h.mono hopened (hentering ▸ List.Sublist.refl _) (fun hget => hassoc ▸ hget) fun pump hpump => ?_
    obtain ⟨old, hold, hrelay, hid, haborted⟩ := hpumps pump hpump
    exact ⟨old, hold, hrelay, hid, .inl haborted⟩
  | connected hnumber hopened hassoc hentering hpumps => exact h.connected hnumber hopened hassoc hentering hpumps
  | taken hk hopened _ hassoc hentering hpumps =>
    refine h.mono hopened (hentering ▸ eraseIdx_sublist _ _) (fun hget => hassoc ▸ hget) fun pump hpump => ?_
    exact ⟨pump, hpumps ▸ hpump, rfl, rfl, .inl rfl⟩
  | entered hk hopened _ hassoc hentering hpumps => exact h.entered hk hopened hassoc hentering hpumps
  | dropped hopened htable hgone hentering hpumps =>
    refine h.mono hopened (hentering ▸ List.Sublist.refl _) (fun {assocId relay} hget => ?_) fun pump hpump => ?_
    · rw [htable] at hget
      split at hget
      · cases hget
      · exact hget
    · rw [hpumps] at hpump
      obtain ⟨old, hold, rfl⟩ := mem_map.1 hpump
      refine ⟨old, hold, ?_⟩
      split
      · next hdropped =>
        obtain ⟨assocId, -, hget⟩ := (hgone _).1 hdropped
        exact ⟨rfl, rfl, .inr ⟨assocId, hget⟩⟩
      · exact ⟨rfl, rfl, .inl rfl⟩

/-! ## Every relay is accounted for -/

/-- With nothing on its way, a relay that is open has a pump that goes on. -/
theorem accounted_of_pump (h : ∀ pump ∈ s.pumps, pump.aborted = false →
    s.assoc.get? pump.assocId = some pump.relay ∨ ∃ e ∈ s.entering, e.1.assocId = pump.assocId ∧ e.2 = pump.relay) :
    s.Accounted := by
  refine ⟨h, fun hquiet relay => ⟨?_, .inl⟩⟩
  obtain ⟨hentering, hsending, hrunning⟩ := hquiet
  rintro (hassoc | ⟨e, he, -⟩ | ⟨e, he, -⟩ | ⟨pump, hpump, rfl⟩)
  · exact hassoc
  · rw [hentering] at he
    cases he
  · rw [hsending] at he
    cases he
  · rcases h pump hpump (hrunning pump hpump) with hget | ⟨e, he, -⟩
    · exact ⟨_, hget⟩
    · rw [hentering] at he
      cases he

theorem Accounted.change {s'} (h : s.Accounted) (hchange : s.Change event s')
    (hrace : s.NoRace event) : s'.Accounted := by
  refine accounted_of_pump fun pump hpump hrunning => ?_
  cases hchange with
  | kept _ hassoc hentering hpumps =>
    obtain ⟨old, hold, hrelay, hid, haborted⟩ := hpumps pump hpump
    rw [hassoc, hentering, hrelay, hid]
    exact h.pump old hold (haborted ▸ hrunning)
  | @connected _ _ p relay _ _ hassoc hentering hpumps =>
    rw [hassoc, hentering]
    rw [hpumps, mem_append, mem_singleton] at hpump
    rcases hpump with hold | rfl
    · rcases h.pump pump hold hrunning with hget | ⟨e, he, heq⟩
      · exact .inl hget
      · exact .inr ⟨e, mem_append_left _ he, heq⟩
    · exact .inr ⟨(p, relay), mem_append_right _ (mem_singleton_self _), rfl, rfl⟩
  | @taken k _ e hk _ hsome hassoc hentering hpumps =>
    rw [hpumps] at hpump
    rw [hassoc, hentering]
    rcases h.pump pump hpump hrunning with hget | ⟨e', he', hid, hrelay⟩
    · exact .inl hget
    · rcases eq_or_mem_eraseIdx hk he' with rfl | hleft
      · exact absurd hrelay.symm (((hrace e' hk).resolve_left hsome) pump hpump)
      · exact .inr ⟨e', hleft, hid, hrelay⟩
  | @entered k _ e hk _ hnone hassoc hentering hpumps =>
    rw [hpumps] at hpump
    rw [hassoc, hentering, HashMap.get?_insert]
    rcases h.pump pump hpump hrunning with hget | ⟨e', he', hid, hrelay⟩
    · rw [if_neg]
      · exact .inl hget
      · intro heq
        rw [heq, hnone] at hget
        cases hget
    · rcases eq_or_mem_eraseIdx hk he' with rfl | hleft
      · exact .inl (by rw [if_pos hid.symm, hrelay])
      · exact .inr ⟨e', hleft, hid, hrelay⟩
  | dropped _ htable hgone hentering hpumps =>
    rw [hpumps] at hpump
    obtain ⟨old, hold, rfl⟩ := mem_map.1 hpump
    split at hrunning
    · cases hrunning
    · next hkept =>
      rw [if_neg hkept, htable, hentering]
      rcases h.pump old hold hrunning with hget | hentered
      · refine .inl ?_
        rw [if_neg]
        · exact hget
        · exact fun hid => hkept ((hgone _).2 ⟨_, hid, hget⟩)
      · exact .inr hentered

/-- A relay that finds another one in its place leaves its pump behind. -/
theorem noRace_of_accounted (h : s.Fresh) (haccounted : (s.step decide event).1.Accounted) :
    s.NoRace event := by
  cases event with
  | entered k =>
    intro e hk
    by_contra hrace
    rw [not_or] at hrace
    obtain ⟨hsome, hpump⟩ := hrace
    obtain ⟨entry, hget⟩ := Option.ne_none_iff_exists'.1 hsome
    simp only [not_forall, not_not] at hpump
    obtain ⟨pump, hmem, hrelay⟩ := hpump
    obtain ⟨hrunning, hid⟩ := h.pump e (mem_of_getElem? hk) pump hmem hrelay
    have hstep : (s.step decide (.entered k)).1 =
        { s with entering := s.entering.eraseIdx k, sending := s.sending ++ [(e.1, entry)] } := by
      simp only [step, hk, enter, hget]
    rw [hstep] at haccounted
    rcases haccounted.pump pump hmem hrunning with hassoc | ⟨e', he', -, heq⟩
    · exact h.apart hassoc e (mem_of_getElem? hk) hrelay.symm
    · exact h.not_mem_eraseIdx hk e' he' (heq.trans hrelay)
  | _ => exact trivial

/-- Over every interleaving: each step leaves every relay accounted for if and only if
no relay is entered that finds another one in its place. -/
theorem relays_accounted_iff (events : List Event) :
    EveryStep (step decide) (fun s event => (s.step decide event).1.Accounted) {} events ↔
      EveryStep (step decide) NoRace {} events := by
  refine @everyStep_iff _ _ _ (step decide) (fun s => s.Fresh ∧ s.Accounted) _ _ ?_ ?_ _
    ⟨fresh_empty, accounted_of_pump (by simp)⟩ events
  · rintro s event ⟨hfresh, haccounted⟩
    exact ⟨noRace_of_accounted decide hfresh, haccounted.change (step_change decide s event)⟩
  · rintro s event ⟨hfresh, haccounted⟩ hrace
    exact ⟨hfresh.change (step_change decide s event), haccounted.change (step_change decide s event) hrace⟩

/-- Two packets of association 5 whose relays are opened at the same time, both
entered and sent on; then the association is given up. -/
def racingEvents : List Event :=
  let packet := Event.command (some "u")
    ([5, 2, 0, 5, 0, 1, 1, 0, 0, 1, 0, 9] ++ utf8Bytes "a.example" ++ [0, 53, 7])
  [packet, packet, .opened 0 openCourse, .opened 0 openCourse, .entered 0, .entered 0, .sent 0,
    .sent 0, .dissociate 5, .reaped 0]

/-- Nothing is on its way and the table is empty, but the second relay is open and
its pump sends to the client under association 5. -/
theorem losing_relay_stays_open :
    let s := runState (step hopSnapshot.decide) {} racingEvents
    let packet : ReturnPacket := ⟨"a.example", 53, [9]⟩
    s.Quiet ∧ s.assoc.entries = [] ∧ s.Open ⟨1, "h1"⟩ ∧
      (s.step hopSnapshot.decide (.returned 0 packet true true)).2 = some (.downlink 5 0 packet) := by
  intro s packet
  have hquiet : s.entering = [] ∧ s.sending = [] := by decide +kernel
  refine ⟨⟨hquiet.1, hquiet.2, ?_⟩, by decide +kernel,
    .inr (.inr (.inr ⟨{ relay := ⟨1, "h1"⟩, assocId := 5 }, ?_, rfl⟩)), ?_⟩
  · decide
  · exact mem_singleton_self _
  · rfl

end Conn

end Rove.Inbound.Tuic
