/-
The local ports of outgoing connections (`next_ephemeral` and `connect` of
`netstack/mod.rs`). A connection asked for takes the next port of a counter
that goes round; it is live until its socket is removed from the set.
-/
import Rove.Base.Counter
import Rove.Base.SocketAddr
import Rove.Subnetra.SocketOwner

namespace Rove.Subnetra

open List

/-- An outgoing connection: how many were asked for before it, where it goes
and its local port. -/
structure Outgoing where
  number : Nat
  remote : SocketAddr
  localPort : Nat

/-- The stack, with the outgoing connections that are live, each under its socket. -/
structure Dialer where
  stack : Stack
  asked : Nat := 0
  outgoing : HashMap Handle Outgoing := ∅

namespace Dialer

variable {ν : Type} (net : Socket → ν → Socket)

/-- One event, with the address it is for if it is a connect. -/
def step (d : Dialer) (e : StackEvent ν × SocketAddr) : Dialer × Answer :=
  let (stack, answer) := d.stack.step net e.1
  match e.1, d.stack.phase with
  | .connect possible, .poll =>
    let connection : Outgoing := ⟨d.asked, e.2, d.stack.nextPort⟩
    let outgoing := if possible then d.outgoing.insert d.stack.sockets.next connection else d.outgoing
    ({ stack, asked := d.asked + 1, outgoing }, answer)
  | _, _ => ({ d with stack, outgoing := d.outgoing.retain fun h _ => (stack.sockets.get? h).isSome }, answer)

/-- The stack as it starts, with nothing connected. -/
def start (listenPort : Option Nat) : Dialer := { stack := Stack.start listenPort }

/-- No two live connections to one address and port have the same local port. -/
def Distinct (d : Dialer) : Prop :=
  ∀ h h' o o', d.outgoing.get? h = some o → d.outgoing.get? h' = some o' → o.remote = o'.remote →
    o.localPort = o'.localPort → h = h'

def portCount : Nat := 16384

/-- Of a step: a connection that is opened is not a whole number of rounds of the
ports away from a live one to the same address and port. -/
def Clear (d : Dialer) (e : StackEvent ν × SocketAddr) : Prop :=
  match e.1, d.stack.phase with
  | .connect true, .poll => ∀ h o, d.outgoing.get? h = some o → o.remote = e.2 →
      o.number % portCount ≠ d.asked % portCount
  | _, _ => True

end Dialer

/-! ## The counter -/

namespace Stack

theorem nextPort_foldl {op} (hop : ∀ s h, (op s h).nextPort = s.nextPort) (l : List Handle)
    (s : Stack) : (l.foldl op s).nextPort = s.nextPort := by
  induction l generalizing s with
  | nil => rfl
  | cons h l ih => rw [foldl_cons, ih, hop]

theorem nextPort_addListener (s : Stack) (port : Nat) : (s.addListener port).1.nextPort = s.nextPort := by
  obtain ⟨sockets, listeners, h⟩ := addListener_frame s port
  rw [h]

theorem nextPort_start (listenPort : Option Nat) : (start listenPort).nextPort = 49152 := by
  cases listenPort with
  | none => rfl
  | some port => exact nextPort_foldl (fun s _ => nextPort_addListener s port) _ _

theorem nextPort_resolve (s : Stack) : s.resolve.nextPort = s.nextPort := by
  obtain ⟨sockets, listeners, htop⟩ := topUpListeners_frame s
  show s.topUpListeners.resolveConnects.nextPort = s.nextPort
  rw [resolveConnects, nextPort_foldl, htop]
  intro s h
  obtain ⟨sockets, conns, pendingConnects, streams, hone⟩ := resolveConnect_frame s h
  rw [hone]

theorem nextPort_onStream {α : Type} (s : Stack) (id : Nat) (f : Stream → Stream × α) :
    (s.onStream id f).1.nextPort = s.nextPort := by
  obtain ⟨streams, h⟩ := onStream_frame s id f
  rw [h]

theorem nextPort_step {ν : Type} (net : Socket → ν → Socket) (s : Stack) (e : StackEvent ν)
    (hother : ∀ possible, e = .connect possible → s.phase ≠ .poll) : (s.step net e).1.nextPort = s.nextPort := by
  cases e with
  | connect possible =>
    rw [step]
    split
    · next hphase => exact absurd hphase (hother possible rfl)
    · rfl
  | net h e =>
    rw [step]
    split <;> rfl
  | beginPass =>
    rw [step]
    split
    · exact @nextPort_foldl removeListener (fun _ _ => rfl) _ s
    · rfl
  | promote h =>
    rw [step]
    split
    · split
      · show (s.promote h).nextPort = s.nextPort
        unfold promote
        dsimp only
        split <;> rfl
      · rfl
    · rfl
  | resolve =>
    rw [step]
    split
    · exact nextPort_resolve s
    · rfl
  | service h slice =>
    rw [step]
    split
    · split
      · show (s.service _ _ h _ slice).nextPort = s.nextPort
        unfold service
        split <;> rfl
      · rfl
    · rfl
  | reap =>
    rw [step]
    split
    · exact @nextPort_foldl reapOne (fun _ _ => rfl) _ s
    · rfl
  | accept =>
    rw [step]
    split <;> rfl
  | closeAccept => rfl
  | cancelConnect h =>
    rw [step]
    split <;> rfl
  | read id remaining => rw [step_read, nextPort_onStream]
  | write id data => rw [step_write, nextPort_onStream]
  | flush id => rw [step_flush, nextPort_onStream]
  | shutdown id => rw [step_shutdown, nextPort_onStream]
  | drop id => exact nextPort_onStream s id dropStream

end Stack

namespace Dialer

/-- The local port that is next after so many connections asked for. -/
def portAt (n : Nat) : Nat := roundDraw 49152 portCount n

theorem nextEphemeral_portAt (n : Nat) : Stack.nextEphemeral (portAt n) = portAt (n + 1) :=
  (@roundDraw_succ 49152 portCount n (by decide)).symm

/-- Every connection has the port of its turn and a socket, and no two to one
address and port share theirs. -/
structure Sound (d : Dialer) : Prop where
  next : d.stack.nextPort = portAt d.asked
  ports : ∀ h o, d.outgoing.get? h = some o → o.localPort = portAt o.number ∧ (d.stack.sockets.get? h).isSome = true
  distinct : d.Distinct

theorem sound_start (listenPort : Option Nat) : Sound (start listenPort) where
  next := (Stack.nextPort_start listenPort).trans (@roundDraw_zero 49152 portCount).symm
  ports := fun h o ho => by simp [start] at ho
  distinct := fun h h' o o' ho => by simp [start] at ho

variable {ν : Type} {net : Socket → ν → Socket}

variable {d : Dialer} {e : StackEvent ν × SocketAddr}

/-- An event that opens nothing leaves at most the connections there are. -/
theorem step_other
    (hother : ∀ possible, e.1 = .connect possible → d.stack.phase ≠ .poll) :
    (d.step net e).1 = { d with
      stack := (d.stack.step net e.1).1
      outgoing := d.outgoing.retain fun h _ => ((d.stack.step net e.1).1.sockets.get? h).isSome } := by
  unfold step
  dsimp only
  split
  · next possible heq hphase => exact absurd hphase (hother possible heq)
  · rfl

theorem step_connect (hphase : d.stack.phase = .poll) (possible : Bool) (remote : SocketAddr) :
    (d.step net (.connect possible, remote)).1 =
      { stack := d.stack.connect possible
        asked := d.asked + 1
        outgoing := if possible then d.outgoing.insert d.stack.sockets.next ⟨d.asked, remote, d.stack.nextPort⟩
          else d.outgoing } := by
  simp only [step, Stack.step, hphase]

theorem Sound.other (hd : Sound d)
    (hother : ∀ possible, e.1 = .connect possible → d.stack.phase ≠ .poll) : Sound (d.step net e).1 := by
  have hkept : ∀ {h o}, (d.step net e).1.outgoing.get? h = some o →
      d.outgoing.get? h = some o ∧ ((d.step net e).1.stack.sockets.get? h).isSome = true := by
    intro h o ho
    rw [step_other hother] at ho ⊢
    rw [HashMap.get?_retain, Option.filter_eq_some_iff] at ho
    exact ho
  refine ⟨?_, fun h o ho => ⟨(hd.ports h o (hkept ho).1).1, (hkept ho).2⟩, fun h h' o o' ho ho' => ?_⟩
  · rw [step_other hother]
    exact (Stack.nextPort_step net d.stack e.1 hother).trans hd.next
  · exact hd.distinct h h' o o' (hkept ho).1 (hkept ho').1

/-- What is live after a connect: the new connection, at a socket of its own, and those before it. -/
theorem get?_connected (hd : Sound d) {remote h o} :
    (d.outgoing.insert d.stack.sockets.next ⟨d.asked, remote, d.stack.nextPort⟩).get? h = some o ↔
      (h = d.stack.sockets.next ∧ o = ⟨d.asked, remote, d.stack.nextPort⟩) ∨ d.outgoing.get? h = some o := by
  rw [HashMap.get?_insert]
  split
  · next heq =>
    subst heq
    have hfree : d.outgoing.get? d.stack.sockets.next = none := by
      cases hget : d.outgoing.get? d.stack.sockets.next with
      | none => rfl
      | some o' =>
        have hsome := (hd.ports _ o' hget).2
        rw [Slots.get?_next] at hsome
        cases hsome
    rw [hfree]
    simp [eq_comm]
  · next hne => simp [hne]

/-- A connection keeps the ports distinct if and only if it is clear of the live ones. -/
theorem distinct_connect_iff (hd : Sound d) (hphase : d.stack.phase = .poll) (remote : SocketAddr) :
    (d.step net (.connect true, remote)).1.Distinct ↔ d.Clear
    ((.connect true, remote) : StackEvent ν × SocketAddr) := by
  have hport : ∀ h o, d.outgoing.get? h = some o →
      (o.localPort = d.stack.nextPort ↔ o.number % portCount = d.asked % portCount) := by
    intro h o ho
    rw [(hd.ports h o ho).1, hd.next]
    exact roundDraw_eq_iff
  rw [step_connect hphase]
  unfold Clear Distinct
  simp only [hphase, if_true]
  constructor
  · intro hdistinct h o ho hremote hround
    have hsame := hdistinct h d.stack.sockets.next o _ ((get?_connected hd).2 (.inr ho))
      ((get?_connected hd).2 (.inl ⟨rfl, rfl⟩)) hremote ((hport h o ho).2 hround)
    have hsome := (hd.ports h o ho).2
    rw [hsame, Slots.get?_next] at hsome
    cases hsome
  · intro hclear h h' o o' ho ho' hremote hlocal
    rcases (get?_connected hd).1 ho with ⟨rfl, rfl⟩ | ho <;> rcases (get?_connected hd).1 ho' with ⟨rfl, rfl⟩ | ho'
    · rfl
    · exact absurd ((hport h' o' ho').1 hlocal.symm) (hclear h' o' ho' hremote.symm)
    · exact absurd ((hport h o ho).1 hlocal) (hclear h o ho hremote)
    · exact hd.distinct h h' o o' ho ho' hremote hlocal

theorem sound_connect (hd : Sound d) (hphase : d.stack.phase = .poll) (possible : Bool) (remote : SocketAddr)
    (hdistinct : (d.step net (.connect possible, remote)).1.Distinct) :
    Sound (d.step net (.connect possible, remote)).1 := by
  refine ⟨?_, ?_, hdistinct⟩
  · rw [step_connect hphase]
    show (d.stack.connect possible).nextPort = portAt (d.asked + 1)
    rw [← nextEphemeral_portAt, ← hd.next]
    cases possible <;> rfl
  · rw [step_connect hphase]
    cases possible with
    | false => exact hd.ports
    | true =>
      intro h o ho
      show o.localPort = _ ∧ ((d.stack.sockets.add Socket.connecting).get? h).isSome = true
      rw [Slots.get?_add]
      rcases (get?_connected hd).1 ho with ⟨rfl, rfl⟩ | ho
      · exact ⟨hd.next, by simp⟩
      · refine ⟨(hd.ports h o ho).1, ?_⟩
        split
        · rfl
        · exact (hd.ports h o ho).2

/-- Every event either asks for a connection between passes or opens nothing. -/
theorem connects_or_other (d : Dialer) (e : StackEvent ν × SocketAddr) :
    (d.stack.phase = .poll ∧ ∃ possible, e = (.connect possible, e.2)) ∨
      ((∀ possible, e.1 = .connect possible → d.stack.phase ≠ .poll) ∧ d.Clear e) := by
  obtain ⟨e, remote⟩ := e
  by_cases hconnect : d.stack.phase = .poll ∧ ∃ possible, e = .connect possible
  · obtain ⟨hphase, possible, rfl⟩ := hconnect
    exact .inl ⟨hphase, possible, rfl⟩
  · have hother : ∀ possible, e = .connect possible → d.stack.phase ≠ .poll :=
      fun possible he hphase => hconnect ⟨hphase, possible, he⟩
    refine .inr ⟨hother, ?_⟩
    unfold Clear
    split
    · next heq hphase => exact absurd hphase (hother true heq)
    · trivial

theorem step_distinct_iff {d} (hd : Sound d) (e : StackEvent ν × SocketAddr) :
    (d.step net e).1.Distinct ↔ d.Clear e := by
  obtain ⟨hphase, possible, he⟩ | ⟨hother, hclear⟩ := d.connects_or_other e
  · rw [he]
    cases possible with
    | true => exact distinct_connect_iff hd hphase e.2
    | false =>
      rw [step_connect hphase]
      exact iff_of_true hd.distinct trivial
  · exact iff_of_true (hd.other hother).distinct hclear

theorem sound_step (hd : Sound d) (hclear : d.Clear e) :
    Sound (d.step net e).1 := by
  have hdistinct := (@step_distinct_iff _ net d hd e).2 hclear
  obtain ⟨hphase, possible, he⟩ | ⟨hother, -⟩ := d.connects_or_other e
  · rw [he] at hdistinct ⊢
    exact sound_connect hd hphase possible e.2 hdistinct
  · exact hd.other hother

end Dialer

/-- Over every run of the stack, whatever is opened and closed in whatever order:
after every step no two live outgoing connections to one address and port share
a local port, if and only if no connection is opened while another to the same
address and port is live that was asked for a multiple of 16384 connects
before. -/
theorem local_ports_distinct_iff {ν : Type} (net : Socket → ν → Socket) (listenPort : Option Nat)
    (events : List (StackEvent ν × SocketAddr)) :
    EveryStep (Dialer.step net) (fun d e => (d.step net e).1.Distinct) (Dialer.start listenPort) events ↔
      EveryStep (Dialer.step net) Dialer.Clear (Dialer.start listenPort) events :=
  @everyStep_iff _ _ _ (Dialer.step net) Dialer.Sound _ _ (fun _ e hd => Dialer.step_distinct_iff hd e)
    (fun _ _ hd hclear => Dialer.sound_step hd hclear) _ (Dialer.sound_start listenPort) events

/-! ## A port that comes round -/

namespace Dialer

/-- A pass of the driver that services the connection at socket 0. -/
def onePass : List (StackEvent NetEvent) := [.beginPass, .resolve, .service 0 List.length, .reap]

/-- A connection is asked for and established at socket 0. -/
def established : List (StackEvent NetEvent) := [.connect true, .net 0 .handshake] ++ onePass

/-- Another is asked for and refused by the peer. -/
def refused : List (StackEvent NetEvent) := [.connect true, .net 1 .rst] ++ onePass

def peer : SocketAddr := .v4 1 1080

/-- A last connection that is established at socket 1. -/
def another : List (StackEvent NetEvent) := [.connect true, .net 1 .handshake]

/-- The stack with one connection established, another socket come and gone, and
so many connections asked for. -/
def oneEstablished (asked nextPort : Nat) : Dialer where
  stack :=
    { sockets := ⟨[some { state := .established }, none]⟩
      conns := HashMap.insert ∅ 0 0
      streams := [{ holder := .app }]
      listenPort := none
      nextPort }
  asked
  outgoing := HashMap.insert ∅ 0 ⟨0, peer, 49152⟩

theorem run_established :
    runState (step Socket.net) (start none) ((established ++ refused).map (·, peer)) = oneEstablished 2 (portAt 2) := by
  rfl

/-- The same with one more connection asked for, whose socket was reset. -/
def resetPending (asked localPort nextPort : Nat) : Dialer where
  stack :=
    { (oneEstablished asked nextPort).stack with
      sockets := ⟨[some { state := .established }, some { state := .closed, wasReset := true }]⟩
      pendingConnects := HashMap.insert ∅ 1 true }
  asked := asked + 1
  outgoing := (oneEstablished asked nextPort).outgoing.insert 1 ⟨asked, peer, localPort⟩

theorem run_reset (n port : Nat) :
    runState (step Socket.net) (oneEstablished n port) [(.connect true, peer), (.net 1 .rst, peer)] =
      resetPending n port (Stack.nextEphemeral port) := rfl

/-- The one connection is still to be serviced in a pass. -/
def servicing (asked nextPort : Nat) : Dialer :=
  { oneEstablished asked nextPort with
    stack := { (oneEstablished asked nextPort).stack with phase := .conns [(0, 0)] [] } }

theorem run_resolve (n port port' : Nat) :
    runState (step Socket.net) (resetPending n port port') [(.beginPass, peer), (.resolve, peer)] =
      servicing (n + 1) port' := rfl

theorem run_service (n port : Nat) :
    runState (step Socket.net) (servicing n port) [(.service 0 List.length, peer), (.reap, peer)] =
      oneEstablished n port := rfl

theorem run_refused_one (n port : Nat) :
    runState (step Socket.net) (oneEstablished n port) (refused.map (·, peer)) =
      oneEstablished (n + 1) (Stack.nextEphemeral port) := by
  have hsplit : refused.map (·, peer) = [(.connect true, peer), (.net 1 .rst, peer)] ++
      ([(.beginPass, peer), (.resolve, peer)] ++ [(.service 0 List.length, peer), (.reap, peer)]) := rfl
  rw [hsplit, runState_append, run_reset, runState_append, run_resolve, run_service]

theorem run_refused (n k : Nat) :
    runState (step Socket.net) (oneEstablished n (portAt n)) ((replicate k refused).flatten.map (·, peer)) =
      oneEstablished (n + k) (portAt (n + k)) := by
  induction k generalizing n with
  | zero => rfl
  | succ k ih =>
    rw [replicate_succ, flatten_cons, map_append, runState_append, run_refused_one,
      nextEphemeral_portAt, ih, Nat.add_assoc, Nat.add_comm 1]

theorem run_another (n port : Nat) :
    let d := runState (step Socket.net) (oneEstablished n port) (another.map (·, peer))
    d.outgoing.get? 0 = some ⟨0, peer, 49152⟩ ∧ d.outgoing.get? 1 = some ⟨n, peer, port⟩ ∧
      d.stack.stateOf 0 = some .established ∧ d.stack.stateOf 1 = some .established := ⟨rfl, rfl, rfl, rfl⟩

end Dialer

/-- One connection stays established while the peer refuses the others of a
round of ports; the next one to that peer gets its local port. -/
theorem local_port_comes_round :
    let d := runState (Dialer.step Socket.net) (Dialer.start none)
      ((Dialer.established ++ Dialer.refused ++ (replicate 16382 Dialer.refused).flatten ++ Dialer.another).map
        (·, Dialer.peer))
    d.outgoing.get? 0 = some ⟨0, Dialer.peer, 49152⟩ ∧ d.outgoing.get? 1 = some ⟨16384, Dialer.peer, 49152⟩ ∧
      d.stack.stateOf 0 = some .established ∧ d.stack.stateOf 1 = some .established := by
  have hround : Dialer.portAt (2 + 16382) = 49152 := by decide
  rw [map_append, map_append, runState_append, runState_append, Dialer.run_established, Dialer.run_refused,
    hround]
  exact Dialer.run_another 16384 49152

end Rove.Subnetra
