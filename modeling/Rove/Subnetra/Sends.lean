/-
What a reactor puts on the wire (`subnetra/reactor.rs`), in every state it reaches:
each datagram goes to the endpoint that its table has for a configured peer, whose
key opens it to an inner packet with no flag or to an empty keepalive. That is what
`HonestSeal` asks of a peer.
-/
import Rove.Subnetra.Forwarding

namespace Rove.Subnetra

open PeerTable (Configured)

def PeerTable.endpointAt (t : PeerTable) (i : Nat) : Option SocketAddr := t.peers[i]?.bind (·.endpoint)

section
variable (prims : Primitives) (cfg : RuntimeConfig) (localEpoch : BitVec 64)

/-- A reactor of the configuration, in any state. -/
structure Reactor.Runs (r : Reactor) : Prop where
  mode : r.mode = cfg.mode
  conf : Configured prims cfg r.table
  tx : r.table.Transmits prims cfg localEpoch

/-- The datagram is for a configured peer, goes to the endpoint known for it, and
opens under its key to flags and a packet with a property. -/
def Reactor.Delivers (r : Reactor) (P : UInt8 → Bytes → Prop) (id : BitVec 16)
    (datagram : Bytes) (endpoint : SocketAddr) : Prop :=
  ∃ i p header inner, cfg.peers[i]? = some p ∧ p.id = id ∧ r.table.endpointAt i = some endpoint ∧
    openDatagram prims (linkKey prims p.psk cfg.localId p.id) cfg.obfuscate datagram = some (header, inner) ∧
    P header.flags inner

/-- Why the reactor sends something: a keepalive, or a packet that is routed to the
peer and came from the local stack, or to a hub in an accepted datagram. -/
def Reactor.Origin (r : Reactor) (event : Event) (id : BitVec 16) (flags : UInt8) (inner : Bytes) : Prop :=
  (flags = keepalive ∧ inner = []) ∨ flags = 0 ∧ (∃ dst, ipv4Dst inner = some dst ∧ r.table.route dst = some id) ∧
    (event = .outbound inner ∨ cfg.mode = .hub ∧ ∃ raw src i p, event = .inbound raw src ∧
      AcceptedFrom prims r.table raw i p inner)

/-- A step of the reactor, and what it says of each datagram. -/
def Reactor.Sends (P : BitVec 16 → UInt8 → Bytes → Prop) (out : Reactor × List Effect) : Prop :=
  out.1.Runs prims cfg localEpoch ∧ ∀ id flags inner datagram endpoint,
    .send id flags inner datagram endpoint ∈ out.2 → out.1.Delivers prims cfg (P id) id datagram endpoint

end

variable {prims : Primitives} {cfg : RuntimeConfig} {localEpoch : BitVec 64}

theorem PeerTable.endpointAt_setTx (t : PeerTable) (i : Nat) (tx : TxSession) (j : Nat) :
    (t.setTx i tx).endpointAt j = t.endpointAt j := by
  rw [endpointAt, setTx, getElem?_modifyPeer]
  cases hj : t.peers[j]? with
  | none => simp [endpointAt, hj]
  | some p => by_cases hij : i = j <;> simp [endpointAt, hj, hij]

namespace Reactor

variable {r : Reactor} {P : BitVec 16 → UInt8 → Bytes → Prop}

theorem sends_nothing (hr : r.Runs prims cfg localEpoch) : Sends prims cfg localEpoch P (r, []) :=
  ⟨hr, fun _ _ _ _ _ h => absurd h List.not_mem_nil⟩

/-- Sealing keeps the endpoints, and what was sealed opens again. -/
theorem sealAndSend_sends (haead : AeadCorrect prims) (hr : r.Runs prims cfg localEpoch) {id flags inner}
    (h : P id flags inner) : Sends prims cfg localEpoch P (r.sealAndSend prims id flags inner) ∧
      ∀ i, (r.sealAndSend prims id flags inner).1.table.endpointAt i = r.table.endpointAt i := by
  have hconf := hr.conf.sealFor id flags inner
  have htx := hr.tx.sealFor id flags inner
  unfold sealAndSend
  split
  · next table datagram endpoint heq =>
    rw [heq] at hconf htx
    obtain ⟨j, q, -, -, -, -, htable⟩ := PeerTable.sealFor_eq_some heq
    have hkeeps : ∀ i, table.endpointAt i = r.table.endpointAt i := fun i => htable ▸ PeerTable.endpointAt_setTx _ _ _ i
    obtain ⟨i, p, peer, hp, hid, hpeer, hendpoint, hopen⟩ := PeerTable.openDatagram_sealFor haead hr.conf hr.tx heq
    refine ⟨⟨⟨hr.mode, hconf, htx⟩, fun _ _ _ _ _ hmem => ?_⟩, hkeeps⟩
    obtain ⟨rfl, -, -, rfl, rfl⟩ := Effect.send.inj (List.mem_singleton.1 hmem)
    exact ⟨i, p, _, inner, hp, hid, (hkeeps i).trans (by rw [PeerTable.endpointAt, hpeer]; exact hendpoint), hopen, h⟩
  · next table heq =>
    obtain rfl := PeerTable.sealFor_eq_none heq
    exact ⟨sends_nothing hr, fun _ => rfl⟩

/-- Over the loop of `send_keepalives` too; no endpoint changes, so what was sent
first is still for the endpoint known. -/
theorem keepaliveTo_sends (haead : AeadCorrect prims) (hP : ∀ id, P id keepalive []) (hr : r.Runs prims cfg localEpoch)
    (ids : List (BitVec 16)) : Sends prims cfg localEpoch P (r.keepaliveTo prims ids) ∧
      ∀ i, (r.keepaliveTo prims ids).1.table.endpointAt i = r.table.endpointAt i := by
  induction ids generalizing r with
  | nil => exact ⟨sends_nothing hr, fun _ => rfl⟩
  | cons id ids ih =>
    obtain ⟨⟨hruns, hfirst⟩, hkeeps⟩ := sealAndSend_sends haead hr (hP id)
    obtain ⟨⟨hruns', hrest⟩, hkeeps'⟩ := ih hruns
    refine ⟨⟨hruns', fun id flags inner datagram endpoint hmem => ?_⟩, fun i => (hkeeps' i).trans (hkeeps i)⟩
    rcases List.mem_append.1 hmem with hmem | hmem
    · obtain ⟨i, p, header, opened, hp, hid, hendpoint, hopen⟩ := hfirst id flags inner datagram endpoint hmem
      exact ⟨i, p, header, opened, hp, hid, (hkeeps' i).trans hendpoint, hopen⟩
    · exact hrest id flags inner datagram endpoint hmem

theorem step_sends (haead : AeadCorrect prims) (hr : r.Runs prims cfg localEpoch) (event : Event) :
    Sends prims cfg localEpoch (r.Origin prims cfg event) (r.step prims event) := by
  cases event with
  | inbound raw src =>
    have hconf := hr.conf.ingest raw src
    have htx := hr.tx.ingest raw src
    simp only [step, handleInbound]
    split
    · next table peerId inner heq =>
      rw [heq] at hconf htx
      have hruns : Runs prims cfg localEpoch { r with table } := ⟨hr.mode, hconf, htx⟩
      split
      · exact sends_nothing hruns
      rename_i dst hdst
      split
      · exact ⟨hruns, by simp⟩
      split
      · next hhub =>
        unfold relay
        split
        · exact sends_nothing hruns
        rename_i toPeer hroute
        split
        · exact sends_nothing hruns
        obtain ⟨i, p, hacc, -⟩ := hr.conf.accepted_of_data heq
        refine (sealAndSend_sends haead hruns (.inr ⟨rfl, ⟨dst, hdst, ?_⟩,
          .inr ⟨hr.mode.symm.trans hhub, raw, src, i, p, rfl, hacc⟩⟩)).1
        exact (hr.conf.route_eq hconf dst).trans hroute
      · exact sends_nothing hruns
    · next table _ _ heq =>
      rw [heq] at hconf htx
      exact sends_nothing ⟨hr.mode, hconf, htx⟩
  | outbound packet =>
    simp only [step, handleOutbound]
    split
    · exact sends_nothing hr
    rename_i dst hdst
    split
    · exact sends_nothing hr
    rename_i toPeer hroute
    exact (sealAndSend_sends haead hr (.inr ⟨rfl, ⟨dst, hdst, hroute⟩, .inl rfl⟩)).1
  | tick =>
    simp only [step]
    split
    · exact (keepaliveTo_sends haead (fun _ => .inl ⟨rfl, rfl⟩) hr _).1
    · exact sends_nothing hr

theorem runs_new (cfg : RuntimeConfig) (localEpoch : BitVec 64) :
    (new prims cfg localEpoch).Runs prims cfg localEpoch :=
  ⟨rfl, PeerTable.configured_new cfg localEpoch, PeerTable.transmits_reach cfg localEpoch []⟩

/-- In every state of a reactor and at every event, each datagram that it sends
goes where its table has a configured peer, and opens for that peer to what
`HonestSeal` asks for. -/
theorem sends_honestly (haead : AeadCorrect prims) (cfg : RuntimeConfig) (localEpoch : BitVec 64) (before : List Event)
    (event : Event) : let out := (runState (step prims) (new prims cfg localEpoch) before).step prims event
    ∀ id flags inner datagram endpoint, .send id flags inner datagram endpoint ∈ out.2 →
      out.1.Delivers prims cfg HonestSeal id datagram endpoint := by
  intro out id flags inner datagram endpoint hsent
  have hruns : (runState (step prims) (new prims cfg localEpoch) before).Runs prims cfg localEpoch :=
    @runState_induction _ _ _ (step prims) (Runs prims cfg localEpoch) (fun _ e hr => (step_sends haead hr e).1) _
      (runs_new cfg localEpoch) before
  obtain ⟨i, p, header, opened, hp, hid, hendpoint, hopen, horigin⟩ :=
    (step_sends haead hruns event).2 id flags inner datagram endpoint hsent
  refine ⟨i, p, header, opened, hp, hid, hendpoint, hopen, horigin.elim .inr ?_⟩
  rintro ⟨hflags, ⟨dst, hdst, -⟩, -⟩
  exact .inl ⟨hflags, by rw [hdst]; rfl⟩

/-- A spoke with one peer, whose endpoint it knows. -/
def oneSpoke : RuntimeConfig :=
  { hubConfig false with mode := .spoke, peers := [⟨2, [], .ofLen 0 0, some (.v4 0 1), []⟩] }

theorem sends_honestly_tick : let out := (new taggedPrimitives oneSpoke 7).step taggedPrimitives .tick
    ∃ datagram, .send 2 keepalive [] datagram (.v4 0 1) ∈ out.2 ∧
      out.1.Delivers taggedPrimitives oneSpoke HonestSeal 2 datagram (.v4 0 1) := by
  let link := linkKey taggedPrimitives [] 1 2
  let datagram := sealDatagram taggedPrimitives link (sessionKey taggedPrimitives link 7) 1 7 1 keepalive [] false
  have hsent : .send 2 keepalive [] datagram (.v4 0 1) ∈
      ((new taggedPrimitives oneSpoke 7).step taggedPrimitives .tick).2 := by decide +kernel
  exact ⟨datagram, hsent, sends_honestly aeadCorrect_tagged oneSpoke 7 [] .tick 2 keepalive [] _ _ hsent⟩

end Reactor

end Rove.Subnetra
