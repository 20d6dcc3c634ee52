/-
The pump of a TUN device (`subnetra/device/mod.rs`) with the reactor at the other
end of its channels: whatever the host writes to the device and the network sends,
no packet leaves the node with a source that is not its sender's.
-/
import Rove.Subnetra.Sends

namespace Rove.Subnetra

structure PumpPolicy where
  overlayIp : Ipv4Addr
  overlayNet : Ipv4Net
  mtu : Nat

inductive Verdict where
  | forward | dropNotIpv4 | dropTooBig | dropSpoofedSrc | dropOffOverlay
  deriving DecidableEq

def egressVerdict (pkt : Bytes) (policy : PumpPolicy) : Verdict :=
  let ihl := (pkt.getD 0 0 &&& 0x0f).toNat * 4
  let totalLen := ofBeBytes ((pkt.drop 2).take 2)
  let addr (offset : Nat) : Ipv4Addr := BitVec.ofNat 32 (ofBeBytes ((pkt.drop offset).take 4))
  if pkt.length < 20 then .dropNotIpv4
  else if pkt.getD 0 0 >>> 4 ≠ 4 then .dropNotIpv4
  else if ihl < 20 ∨ ihl > pkt.length then .dropNotIpv4
  else if totalLen < 20 ∨ totalLen > pkt.length then .dropNotIpv4
  else if pkt.length > policy.mtu ∨ totalLen > policy.mtu then .dropTooBig
  else if addr 12 ≠ policy.overlayIp then .dropSpoofedSrc
  else if !policy.overlayNet.contains (addr 16) then .dropOffOverlay
  else .forward

/-- `PumpCounters`, as numbers without a bound. -/
structure PumpCounters where
  toMesh : Nat := 0
  toDevice : Nat := 0
  dropNotIpv4 : Nat := 0
  dropTooBig : Nat := 0
  dropSpoofedSrc : Nat := 0
  dropOffOverlay : Nat := 0
  deviceErrors : Nat := 0

def channelDepth : Nat := 1024

/-- The reactor, its two channels, and the packet with which the pump waits for
room in the first. -/
structure Tun where
  reactor : Reactor
  toMesh : List Bytes := []
  toLocal : List Bytes := []
  holding : Option Bytes := none
  counters : PumpCounters := {}

/-- What the tasks of `run_pump` and the reactor do next. -/
inductive TunEvent where
  | read (res : Option Bytes)
  | sendInner
  | outbound
  | inbound (datagram : Bytes) (src : SocketAddr)
  | tick
  | write (succeeds : Bool)

namespace Tun

variable (prims : Primitives) (cfg : RuntimeConfig)

def start (localEpoch : BitVec 64) : Tun := { reactor := Reactor.new prims cfg localEpoch }

def policy : PumpPolicy := ⟨cfg.overlayIp, cfg.overlay, cfg.mtu⟩

/-- The reactor takes an event; what is for the node goes into the second channel, if there is room. -/
def react (s : Tun) (event : Event) : Tun × List Effect :=
  let out := s.reactor.step prims event
  let inners := out.2.filterMap fun | .toLocal inner => some inner | .send .. => none
  ({ s with reactor := out.1, toLocal := (s.toLocal ++ inners).take channelDepth }, out.2)

def step (s : Tun) : TunEvent → Tun × List Effect
  | .read res =>
    if s.holding.isSome then (s, [])
    else
      let c := s.counters
      match res with
      | none => ({ s with counters := { c with deviceErrors := c.deviceErrors + 1 } }, [])
      | some pkt =>
        match egressVerdict pkt (policy cfg) with
        | .forward => ({ s with holding := some pkt }, [])
        | .dropNotIpv4 => ({ s with counters := { c with dropNotIpv4 := c.dropNotIpv4 + 1 } }, [])
        | .dropTooBig => ({ s with counters := { c with dropTooBig := c.dropTooBig + 1 } }, [])
        | .dropSpoofedSrc => ({ s with counters := { c with dropSpoofedSrc := c.dropSpoofedSrc + 1 } }, [])
        | .dropOffOverlay => ({ s with counters := { c with dropOffOverlay := c.dropOffOverlay + 1 } }, [])
  | .sendInner =>
    match s.holding with
    | some pkt =>
      if s.toMesh.length < channelDepth then
        ({ s with
            holding := none, toMesh := s.toMesh ++ [pkt]
            counters := { s.counters with toMesh := s.counters.toMesh + 1 } }, [])
      else (s, [])
    | none => (s, [])
  | .outbound =>
    match s.toMesh with
    | pkt :: rest => { s with toMesh := rest }.react prims (.outbound pkt)
    | [] => (s, [])
  | .inbound datagram src => s.react prims (.inbound datagram src)
  | .tick => s.react prims .tick
  | .write succeeds =>
    match s.toLocal with
    | _ :: rest =>
      let c := s.counters
      ({ s with toLocal := rest, counters := if succeeds then { c with toDevice := c.toDevice + 1 }
          else { c with deviceErrors := c.deviceErrors + 1 } }, [])
    | [] => (s, [])

end Tun

/-- A packet of the node itself: from its own address, into the overlay, and not too long. -/
def RuntimeConfig.Own (cfg : RuntimeConfig) (inner : Bytes) : Prop :=
  ipv4Src inner = some cfg.overlayIp ∧ (∃ dst, ipv4Dst inner = some dst ∧ cfg.overlay.contains dst = true) ∧
    inner.length ≤ cfg.mtu

variable {prims : Primitives} {cfg : RuntimeConfig}

theorem else_of_ne {α : Type} {c : Prop} [Decidable c] {a b x : α} (hne : a ≠ x)
    (h : (if c then a else b) = x) : ¬ c ∧ b = x := by
  split at h
  · exact absurd h hne
  · exact ⟨‹_›, h⟩

theorem own_of_forward {pkt} (h : egressVerdict pkt (Tun.policy cfg) = .forward) : cfg.Own pkt := by
  obtain ⟨hlen, h⟩ := else_of_ne (by decide) h
  obtain ⟨hversion, h⟩ := else_of_ne (by decide) h
  obtain ⟨-, h⟩ := else_of_ne (by decide) h
  obtain ⟨-, h⟩ := else_of_ne (by decide) h
  obtain ⟨hmtu, h⟩ := else_of_ne (by decide) h
  obtain ⟨hsrc, h⟩ := else_of_ne (by decide) h
  obtain ⟨hdst, -⟩ := else_of_ne (by decide) h
  have hat : ∀ offset, ipv4At offset pkt = some (BitVec.ofNat 32 (ofBeBytes ((pkt.drop offset).take 4))) := by
    intro offset
    simp only [ipv4At, hlen, not_not.1 hversion, decide_false, bne_self_eq_false, Bool.or_self,
      Bool.false_eq_true, if_false]
  exact ⟨(hat 12).trans (congrArg some (not_not.1 hsrc)), ⟨_, hat 16, by simpa [Tun.policy] using hdst⟩,
    Nat.le_of_not_gt fun h => hmtu (.inl h)⟩

namespace Tun

/-- What waits for the reactor is the node's own. -/
def Waits (cfg : RuntimeConfig) (s : Tun) : Prop := ∀ pkt ∈ s.toMesh ++ s.holding.toList, cfg.Own pkt

theorem waits_step (s : Tun) (e : TunEvent) (h : s.Waits cfg) : (s.step prims cfg e).1.Waits cfg := by
  cases e with
  | read res =>
    simp only [step]
    split
    · exact h
    · next hholding =>
      split
      · exact h
      · split
        · next pkt hverdict =>
          intro q hq
          rcases List.mem_append.1 hq with hq | hq
          · exact h q (List.mem_append_left _ hq)
          · rw [List.mem_singleton.1 hq]
            exact own_of_forward hverdict
        all_goals exact h
  | sendInner =>
    simp only [step]
    split
    · next pkt hpkt =>
      split
      · simpa [Waits, hpkt] using h
      · exact h
    · exact h
  | outbound =>
    simp only [step]
    split
    · next pkt rest hrest =>
      intro q hq
      exact h q (by rw [hrest]; exact List.mem_cons_of_mem _ hq)
    · exact h
  | write =>
    simp only [step]
    split <;> exact h
  | inbound | tick => exact h

/-- What an event makes the reactor do. -/
theorem step_cases (s : Tun) (e : TunEvent) :
    ((s.step prims cfg e).1.reactor = s.reactor ∧ (s.step prims cfg e).2 = []) ∨ ∃ event,
      (s.step prims cfg e).1.reactor = (s.reactor.step prims event).1 ∧
      (s.step prims cfg e).2 = (s.reactor.step prims event).2 ∧
      ((∃ pkt ∈ s.toMesh, event = .outbound pkt) ∨ (∃ raw src, e = .inbound raw src ∧ event = .inbound raw src) ∨
        event = .tick) := by
  cases e with
  | inbound raw src => exact .inr ⟨.inbound raw src, rfl, rfl, .inr (.inl ⟨raw, src, rfl, rfl⟩)⟩
  | tick => exact .inr ⟨.tick, rfl, rfl, .inr (.inr rfl)⟩
  | outbound =>
    simp only [step]
    split
    · next pkt rest hrest =>
      exact .inr ⟨.outbound pkt, rfl, rfl, .inl ⟨pkt, by rw [hrest]; exact List.mem_cons_self, rfl⟩⟩
    · exact .inl ⟨rfl, rfl⟩
  | read | sendInner | write =>
    simp only [step]
    repeat' split
    all_goals exact .inl ⟨rfl, rfl⟩

variable {localEpoch : BitVec 64}

theorem runs_step (haead : AeadCorrect prims) (s : Tun) (e : TunEvent) (h : s.reactor.Runs prims cfg localEpoch) :
    (s.step prims cfg e).1.reactor.Runs prims cfg localEpoch := by
  rcases step_cases s e with ⟨hreactor, -⟩ | ⟨event, hreactor, -, -⟩
  · rw [hreactor]
    exact h
  · rw [hreactor]
    exact (Reactor.step_sends haead h event).1

/-- What a node may send a peer: an empty keepalive, or a packet that is routed to
the peer and is the node's own or, if it is a hub, the one that another's datagram
was accepted with. -/
def Permits (prims : Primitives) (cfg : RuntimeConfig) (s : Tun) (e : TunEvent) (id : BitVec 16)
    (flags : UInt8) (inner : Bytes) : Prop :=
  (flags = keepalive ∧ inner = []) ∨
    flags = 0 ∧ (∃ dst, ipv4Dst inner = some dst ∧ s.reactor.table.route dst = some id) ∧
      (cfg.Own inner ∨ cfg.mode = .hub ∧ ∃ raw src i p, e = .inbound raw src ∧
        AcceptedFrom prims s.reactor.table raw i p inner)

/-- In every state of a node with a TUN device, whatever happens next: each datagram
goes where the table has a configured peer, and opens for it to what is permitted. -/
theorem sends_only_own_or_relayed (haead : AeadCorrect prims) (cfg : RuntimeConfig) (localEpoch : BitVec 64)
    (before : List TunEvent) (e : TunEvent) :
    let s := runState (step prims cfg) (start prims cfg localEpoch) before
    ∀ id flags inner datagram endpoint, .send id flags inner datagram endpoint ∈ (s.step prims cfg e).2 →
      (s.step prims cfg e).1.reactor.Delivers prims cfg (s.Permits prims cfg e id) id datagram endpoint := by
  intro s id flags inner datagram endpoint hsent
  have hwaits : s.Waits cfg := runState_induction waits_step (by simp [Waits, start]) before
  have hruns : s.reactor.Runs prims cfg localEpoch :=
    runState_induction (runs_step haead) (Reactor.runs_new cfg localEpoch) before
  rcases step_cases s e with ⟨-, hnone⟩ | ⟨event, hreactor, hout, hevent⟩
  · rw [hnone] at hsent
    exact absurd hsent List.not_mem_nil
  rw [hout] at hsent
  obtain ⟨i, p, header, opened, hp, hid, hendpoint, hopen, horigin⟩ :=
    (Reactor.step_sends haead hruns event).2 id flags inner datagram endpoint hsent
  refine ⟨i, p, header, opened, hp, hid, by rw [hreactor]; exact hendpoint, hopen, ?_⟩
  rcases horigin with hkeep | ⟨hflags, hrouted, rfl | ⟨hhub, raw, src, j, q, rfl, hacc⟩⟩
  · exact .inl hkeep
  · obtain ⟨pkt, hpkt, heq⟩ := hevent.resolve_right (by simp)
    cases heq
    exact .inr ⟨hflags, hrouted, .inl (hwaits _ (List.mem_append_left _ hpkt))⟩
  · obtain ⟨raw', src', he, heq⟩ := (hevent.resolve_left (by simp)).resolve_right (by simp)
    cases heq
    exact .inr ⟨hflags, hrouted, .inr ⟨hhub, raw, src, j, q, he, hacc⟩⟩

theorem sends_own_packet : let cfg := Reactor.oneSpoke
    let s := runState (step taggedPrimitives cfg) (start taggedPrimitives cfg 7)
      [.read (some (packetFrom 1)), .sendInner]
    let out := s.step taggedPrimitives cfg .outbound
    ∃ datagram, .send 2 0 (packetFrom 1) datagram (.v4 0 1) ∈ out.2 ∧
      out.1.reactor.Delivers taggedPrimitives cfg (s.Permits taggedPrimitives cfg .outbound 2) 2
        datagram (.v4 0 1) := by
  intro cfg s out
  let link := linkKey taggedPrimitives [] 1 2
  let datagram := sealDatagram taggedPrimitives link (sessionKey taggedPrimitives link 7) 1 7 1 0 (packetFrom 1) false
  have hsent : .send 2 0 (packetFrom 1) datagram (.v4 0 1) ∈ out.2 := by decide +kernel
  exact ⟨datagram, hsent, sends_only_own_or_relayed aeadCorrect_tagged cfg 7 _ .outbound 2 0 _ _ _ hsent⟩

end Tun

end Rove.Subnetra
