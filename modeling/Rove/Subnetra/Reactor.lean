/-
The task that owns a node's peer table (`subnetra/reactor.rs`): what it does
with a received datagram, with a packet of the local stack and at a keepalive
tick, and the timer of those ticks.

`keepalives_on_time_iff`: every timer it makes has a period that is not zero and
not longer than the configured one, unless a period of one second is to be
obfuscated.
-/
import Rove.Subnetra.Routing

namespace Rove.Subnetra

/-- `Reactor`: the table, the node's role and its inner address. -/
structure Reactor where
  table : PeerTable
  mode : Mode
  overlayIp : Ipv4Addr

inductive Event where
  | inbound (datagram : Bytes) (src : SocketAddr)
  | outbound (packet : Bytes)
  | tick

/-- What it does then: hand a packet to the local stack, or send what it sealed
for a peer. -/
inductive Effect where
  | toLocal (inner : Bytes)
  | send (peerId : BitVec 16) (flags : UInt8) (inner datagram : Bytes) (endpoint : SocketAddr)
  deriving DecidableEq

namespace Reactor

variable (prims : Primitives)

/-- `RuntimeConfig` and boot epoch to a reactor. -/
def new (cfg : RuntimeConfig) (localEpoch : BitVec 64) : Reactor :=
  ⟨PeerTable.new prims cfg localEpoch, cfg.mode, cfg.overlayIp⟩

/-- Seal for a peer and send, if its endpoint is known. -/
def sealAndSend (r : Reactor) (peerId : BitVec 16) (flags : UInt8) (inner : Bytes) : Reactor × List Effect :=
  match r.table.sealFor prims peerId flags inner with
  | (table, some (datagram, endpoint)) => ({ r with table }, [.send peerId flags inner datagram endpoint])
  | (table, none) => ({ r with table }, [])

def relay (r : Reactor) (fromPeer : BitVec 16) (dst : Ipv4Addr) (inner : Bytes) : Reactor × List Effect :=
  match r.table.route dst with
  | none => (r, [])
  | some toPeer => if toPeer = fromPeer then (r, []) else r.sealAndSend prims toPeer 0 inner

def handleInbound (r : Reactor) (datagram : Bytes) (src : SocketAddr) : Reactor × List Effect :=
  match r.table.ingest prims datagram src with
  | (table, .data peerId inner) =>
    match ipv4Dst inner with
    | none => ({ r with table }, [])
    | some dst =>
      if dst = r.overlayIp then ({ r with table }, [.toLocal inner])
      else if r.mode = .hub then relay prims { r with table } peerId dst inner
      else ({ r with table }, [])
  | (table, _) => ({ r with table }, [])

def handleOutbound (r : Reactor) (packet : Bytes) : Reactor × List Effect :=
  match ipv4Dst packet with
  | none => (r, [])
  | some dst =>
    match r.table.route dst with
    | none => (r, [])
    | some toPeer => r.sealAndSend prims toPeer 0 packet

/-- The loop of `send_keepalives`. -/
def keepaliveTo (r : Reactor) : List (BitVec 16) → Reactor × List Effect
  | [] => (r, [])
  | peerId :: ids =>
    let (r, sent) := r.sealAndSend prims peerId keepalive []
    let (r, rest) := keepaliveTo r ids
    (r, sent ++ rest)

def sendKeepalives (r : Reactor) : Reactor × List Effect :=
  r.keepaliveTo prims ((r.table.peers.filter (·.endpoint.isSome)).map (·.id))

/-- One event; only a spoke has keepalive ticks. -/
def step (r : Reactor) : Event → Reactor × List Effect
  | .inbound datagram src => r.handleInbound prims datagram src
  | .outbound packet => r.handleOutbound prims packet
  | .tick => if r.mode = .spoke then r.sendKeepalives prims else (r, [])

end Reactor

/-- `tokio::time::interval`, which panics at a period of zero. -/
def interval (period : BitVec 64) : Option (BitVec 64) := if period = 0 then none else some period

/-- `Reactor::run`: the reactor with its other two fields, and the period of its
keepalive timer. -/
structure Running where
  reactor : Reactor
  keepaliveSecs : BitVec 64
  obfuscate : Bool
  period : BitVec 64

/-- `keepalive_interval`, in seconds; `random` is what `random_u64` returns. -/
def keepaliveInterval (keepaliveSecs : BitVec 64) (obfuscate : Bool) (random : BitVec 64) : BitVec 64 :=
  let k := if keepaliveSecs < 1 then 1 else keepaliveSecs
  if obfuscate then
    let half := k / 2
    let jitter := if half > 0 then random % (k - half + 1) else 0
    half + jitter
  else k

namespace Running

def rearm (s : Running) (random : BitVec 64) : Option Running :=
  (interval (keepaliveInterval s.keepaliveSecs s.obfuscate random)).map ({ s with period := · })

/-- `run` before its loop. -/
def start (prims : Primitives) (cfg : RuntimeConfig) (localEpoch random : BitVec 64) : Option Running :=
  rearm ⟨Reactor.new prims cfg localEpoch, cfg.keepaliveSecs, cfg.obfuscate, 0⟩ random

/-- One turn of the loop; a spoke makes a new timer after each of its ticks. -/
def step (prims : Primitives) (s : Running) (event : Event) (random : BitVec 64) : Option Running :=
  let s' := { s with reactor := (s.reactor.step prims event).1 }
  match event with
  | .tick => if s.reactor.mode = .spoke then rearm s' random else some s'
  | _ => some s'

/-- The loop over some events, each with the random value at hand then. -/
def run (prims : Primitives) (s : Running) (events : List (Event × BitVec 64)) : Option Running :=
  events.foldlM (fun s e => s.step prims e.1 e.2) s

end Running

/-- A period that can be halved, or need not be. -/
def Halves (secs : BitVec 64) (obfuscate : Bool) : Prop := obfuscate = false ∨ 2 ≤ secs.toNat

/-- Half the period at least, the whole at most; it is zero for a period of one
second that is to be obfuscated. -/
theorem keepaliveInterval_bounds (secs : BitVec 64) (obfuscate : Bool) (random : BitVec 64) :
    (0 < (keepaliveInterval secs obfuscate random).toNat ↔ Halves secs obfuscate) ∧
      (keepaliveInterval secs obfuscate random).toNat ≤ max 1 secs.toNat ∧
      max 1 secs.toNat / 2 ≤ (keepaliveInterval secs obfuscate random).toNat := by
  unfold keepaliveInterval Halves
  have hk : (if secs < 1 then 1 else secs : BitVec 64).toNat = max 1 secs.toNat := by
    have hone : (1 : BitVec 64).toNat = 1 := rfl
    split
    · next h =>
      have := BitVec.lt_def.1 h
      omega
    · next h =>
      have := mt BitVec.lt_def.2 h
      omega
  generalize (if secs < 1 then 1 else secs : BitVec 64) = k at hk
  have hhalf : (k / 2).toNat = k.toNat / 2 := by simp
  cases obfuscate with
  | false =>
    simp only [Bool.false_eq_true, if_false, true_or, iff_true]
    omega
  | true =>
    have hzero : (k / 2 > 0) ↔ 0 < k.toNat / 2 := by rw [gt_iff_lt, BitVec.lt_def, hhalf]; rfl
    simp only [if_true, hzero, reduceCtorEq, false_or]
    split
    · -- no overflow: the jitter is at most `k - k / 2`
      have hspan : (k - k / 2 + 1).toNat = k.toNat - k.toNat / 2 + 1 := by
        rw [BitVec.toNat_add, BitVec.toNat_sub_of_le (BitVec.le_def.2 (by omega)), hhalf]
        exact Nat.mod_eq_of_lt (by simp; omega)
      have hjitter : (random % (k - k / 2 + 1)).toNat < k.toNat - k.toNat / 2 + 1 := by
        rw [BitVec.toNat_umod, hspan]
        exact Nat.mod_lt _ (Nat.succ_pos _)
      rw [BitVec.toNat_add, hhalf, Nat.mod_eq_of_lt (by omega)]
      omega
    · have hsum : (k / 2 + 0 : BitVec 64).toNat = k.toNat / 2 := by simp
      omega

namespace Running

/-- The timer fires, and not less often than the keepalives ask for. -/
def OnTime (secs : BitVec 64) (obfuscate : Bool) (s : Running) : Prop :=
  (s.keepaliveSecs = secs ∧ s.obfuscate = obfuscate) ∧ 0 < s.period.toNat ∧ s.period.toNat ≤ max 1 secs.toNat

section

variable {s : Running} {secs : BitVec 64} {obfuscate : Bool} {prims : Primitives}

theorem exists_rearm (hs : s.keepaliveSecs = secs ∧ s.obfuscate = obfuscate) (hhalves : Halves secs obfuscate)
    (random : BitVec 64) : ∃ s', s.rearm random = some s' ∧ s'.OnTime secs obfuscate := by
  obtain ⟨rfl, rfl⟩ := hs
  obtain ⟨hpos, hle, _⟩ := keepaliveInterval_bounds s.keepaliveSecs s.obfuscate random
  have hpos := hpos.2 hhalves
  have hne : keepaliveInterval s.keepaliveSecs s.obfuscate random ≠ 0 := fun h => by simp [h] at hpos
  refine ⟨{ s with period := keepaliveInterval s.keepaliveSecs s.obfuscate random }, ?_, ⟨rfl, rfl⟩, hpos, hle⟩
  rw [rearm, interval, if_neg hne]
  rfl

theorem OnTime.step (h : s.OnTime secs obfuscate) (hhalves : Halves secs obfuscate)
    (event : Event) (random : BitVec 64) :
    ∃ s', s.step prims event random = some s' ∧ s'.OnTime secs obfuscate := by
  cases event with
  | inbound datagram src => exact ⟨_, rfl, h⟩
  | outbound packet => exact ⟨_, rfl, h⟩
  | tick =>
    rw [Running.step]
    split
    · refine exists_rearm ?_ hhalves random
      exact h.1
    · exact ⟨_, rfl, h⟩

theorem OnTime.run (h : s.OnTime secs obfuscate) (hhalves : Halves secs obfuscate) (events : List (Event × BitVec 64)) :
    ∃ s', s.run prims events = some s' ∧ s'.OnTime secs obfuscate := by
  induction events generalizing s with
  | nil => exact ⟨s, rfl, h⟩
  | cons e events ih =>
    obtain ⟨s₁, hstep, h₁⟩ := h.step hhalves e.1 e.2
    obtain ⟨s', hrun, h'⟩ := ih h₁
    refine ⟨s', ?_, h'⟩
    rw [Running.run, List.foldlM_cons, hstep]
    exact hrun

end

end Running

/-- With a configuration that is accepted, the next keepalive is due after at
least half the period asked for and at most all of it, whatever is drawn, and
over every run the timers can be made and none is slower than asked for,
exactly when a period to be obfuscated is longer than a second: `half` is zero
otherwise, and so is the period, at which the timer panics. -/
theorem keepalives_on_time_iff (prims : Primitives) (parseIpv4Net : Str → Res Ipv4Net) (mesh : SubnetraConfig)
    (cfg : RuntimeConfig) (hmesh : mesh.toRuntime parseIpv4Net = .ok cfg) :
    (∀ random, let period := (keepaliveInterval cfg.keepaliveSecs cfg.obfuscate random).toNat
      0 < period ∧ period ≤ max 1 mesh.keepaliveSecs.toNat ∧ max 1 mesh.keepaliveSecs.toNat / 2 ≤ period) ∧
      (∀ localEpoch random events, ∃ s s', Running.start prims cfg localEpoch random = some s ∧
        s.OnTime mesh.keepaliveSecs mesh.obfuscate ∧ s.run prims events = some s' ∧
        s'.OnTime mesh.keepaliveSecs mesh.obfuscate) ↔
      Halves mesh.keepaliveSecs mesh.obfuscate := by
  obtain ⟨_, hsecs, hobfuscate⟩ := toRuntime_spec hmesh
  rw [hsecs, hobfuscate]
  refine ⟨fun h => ((keepaliveInterval_bounds _ _ _).1.1 (h.1 0).1), fun hhalves => ⟨fun random => ?_, ?_⟩⟩
  · obtain ⟨hpos, hbounds⟩ := keepaliveInterval_bounds mesh.keepaliveSecs mesh.obfuscate random
    exact ⟨hpos.2 hhalves, hbounds⟩
  · intro localEpoch random events
    obtain ⟨s, hstart, hs⟩ :=
      @Running.exists_rearm ⟨Reactor.new prims cfg localEpoch, cfg.keepaliveSecs, cfg.obfuscate, 0⟩ _ _
        ⟨hsecs, hobfuscate⟩ hhalves random
    obtain ⟨s', hrun, hs'⟩ := hs.run hhalves events
    exact ⟨s, s', hstart, hs, hrun, hs'⟩

/-- A period of two seconds is one or two. -/
theorem keepalive_of_two_seconds :
    0 < (keepaliveInterval 2 true 41).toNat := by
  have hmesh : ({ nestedMesh with keepaliveSecs := 2, obfuscate := true } : SubnetraConfig).toRuntime readIpv4Net =
      .ok { nestedRuntime with keepaliveSecs := 2, obfuscate := true } := by decide +kernel
  exact (((keepalives_on_time_iff (solePrimitives (sampleKey 0x66 3) 1 (packetFrom 3)) readIpv4Net _ _ hmesh).2
    (.inr (by decide))).1 41).1

/-- A period of one second, obfuscated: the configuration is accepted, and
there is no timer. -/
theorem keepalive_of_one_second_panics :
    let mesh := { nestedMesh with keepaliveSecs := 1, obfuscate := true }
    let cfg := { nestedRuntime with keepaliveSecs := 1, obfuscate := true }
    mesh.toRuntime readIpv4Net = .ok cfg ∧ keepaliveInterval 1 true 41 = 0 ∧
      (Running.start (solePrimitives (sampleKey 0x66 3) 1 (packetFrom 3)) cfg 7 41).isNone = true := by
  refine ⟨by decide +kernel, by decide, ?_⟩
  rfl

end Rove.Subnetra
