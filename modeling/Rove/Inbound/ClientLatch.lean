/-
Who may use a SOCKS5 UDP association. The address of the client is that of the
first datagram, wherever it comes from, and is kept for good; the peer of the
control connection, who proved the identity, is not asked for.
`association_of_peer_iff` says when the two are the same host.
-/
import Rove.Inbound.UdpAssociation

namespace Rove.Inbound

open Model (Decision Snapshot)

/-- A datagram on the relay socket, with the snapshot that is served when it comes. -/
structure Received where
  snap : Snapshot
  arrival : Arrival

namespace Association

variable {decide : Str → Str → Decision} {user : Str} {s : Association} {a : Arrival}

/-- One datagram of an association that lives through changes of the snapshot. -/
def serve (user : Str) (s : Association) (r : Received) : Association × Option Forward :=
  s.receive r.snap.decide user r.arrival

theorem uplink_clientAddr (course : Outbound.Course) (dg : UdpDatagram) (payload : Bytes) :
    (s.uplink decide user course dg payload).1.clientAddr = s.clientAddr := by
  unfold uplink
  split
  · rfl
  · split <;> rfl

/-- What `receive` does with a datagram: it is of another source and dropped, or
its source is the one that is kept. -/
theorem receive_cases (decide : Str → Str → Decision) (user : Str) (s : Association) (a : Arrival) :
    (∃ addr, s.clientAddr = some addr ∧ s.receive decide user a = (s, none)) ∨
      (∀ addr, s.clientAddr = some addr → addr = a.src) ∧ (s.receive decide user a).1.clientAddr = some a.src := by
  unfold receive
  by_cases hother : s.clientAddr.any (· ≠ a.src) = true
  · rw [if_pos hother]
    cases hclient : s.clientAddr with
    | none => simp [hclient] at hother
    | some addr => exact .inl ⟨addr, rfl, rfl⟩
  · rw [if_neg hother]
    refine .inr ⟨fun addr haddr => by simpa [haddr] using hother, ?_⟩
    cases a.datagram with
    | none => rfl
    | some dg =>
      dsimp only
      split
      · rfl
      · exact uplink_clientAddr _ _ _

/-- Once there is an address it stays, and what is forwarded comes from it. -/
theorem serve_latched {addr r} (h : s.clientAddr = some addr) :
    (s.serve user r).1.clientAddr = some addr ∧ ((s.serve user r).2.isSome → r.arrival.src = addr) := by
  unfold serve
  rcases receive_cases r.snap.decide user s r.arrival with ⟨-, -, heq⟩ | ⟨hsrc, hnext⟩
  · rw [heq]
    exact ⟨h, fun hsome => by cases hsome⟩
  · rw [hnext, hsrc addr h]
    exact ⟨rfl, fun _ => rfl⟩

theorem serve_first (user : Str) (r : Received) : (serve user {} r).1.clientAddr = some r.arrival.src := by
  rcases receive_cases r.snap.decide user {} r.arrival with ⟨addr, hnone, -⟩ | ⟨-, hnext⟩
  · cases hnone
  · exact hnext

theorem run_latched {addr} (h : s.clientAddr = some addr) (received : List Received) :
    (runState (serve user) s received).clientAddr = some addr :=
  @runState_induction _ _ _ (serve user) (fun s => s.clientAddr = some addr)
  (fun _ _ hs => (serve_latched hs).1) s h received

end Association

open Association

/-- An association is used by the host of the control connection's peer only
(what is forwarded comes from there, and it is the address that is kept), exactly
when the first datagram came from there. -/
theorem association_of_peer_iff (user : Str) (peer : SocketAddr) (received : List Received) :
    ((∀ e ∈ runTrace (serve user) {} received, e.2.isSome → e.1.arrival.src.ip = peer.ip) ∧
        ∀ addr, (runState (serve user) {} received).clientAddr = some addr → addr.ip = peer.ip) ↔
      ∀ first, received.head? = some first → first.arrival.src.ip = peer.ip := by
  cases received with
  | nil => simp [runTrace, runState]
  | cons first rest =>
    have hfirst := serve_first user first
    have hlast : (runState (serve user) {} (first :: rest)).clientAddr =
      some first.arrival.src := run_latched hfirst rest
    refine ⟨fun hpeer r hr => ?_, fun h => ⟨fun e he hsome => ?_, fun addr haddr => ?_⟩⟩
    · cases hr
      exact hpeer.2 _ hlast
    · have hsame : e.1.arrival.src = first.arrival.src := by
        rcases List.mem_cons.1 he with rfl | he
        · rfl
        · exact @runTrace_induction _ _ _ (serve user) (fun s => s.clientAddr = some first.arrival.src) (fun _ => True)
            (fun e => e.2.isSome → e.1.arrival.src = first.arrival.src) (fun _ _ hs _ => serve_latched hs) _ hfirst _
            (fun _ _ => trivial) e he hsome
      rw [hsame]
      exact h first rfl
    · rw [← Option.some.inj (hlast.symm.trans haddr)]
      exact h first rfl

/-- The user's datagram for `a.example`, from some address. -/
def datagramFrom (src : SocketAddr) : Received := ⟨hopSnapshot, { datagramFor "a.example" with src := src }⟩

/-- A stranger who sends first is served as the user, and the user's own
datagrams are dropped from then on. -/
theorem stranger_captures_association :
    let peer : SocketAddr := .v4 1 5000
    let stranger : SocketAddr := .v4 2 4000
    stranger.ip ≠ peer.ip ∧
      (runTrace (serve "u") {} [datagramFrom stranger, datagramFrom (.v4 1 4000)]).map
          (fun e => (e.1.arrival.src, e.2.map Forward.hop)) =
        [(stranger, some "h1".toList), (.v4 1 4000, none)] := by
  refine ⟨by decide, by decide +kernel⟩

end Rove.Inbound
