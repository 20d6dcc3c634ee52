/-
The user-space TCP stack over the overlay (`subnetra/netstack/mod.rs`): the
driver task that owns the sockets, the streams it hands to the application, and
what either can do to the other.

The driver and the applications are tasks of their own, so a pass of `service`
is taken apart into the steps between which others can run: each connection
that is handed out, and each one that is serviced under its lock, is one event.
An event that is not possible in a state changes nothing, so every list of
events is a history. In which order a hash set or map is walked is left to the
events, as is what `poll` does to the sockets.

Wakers are kept as the fact that one is registered. What is not modelled: the
interface and the device below the sockets, the bound on passes per wake (any
number may follow), the peer address of a stream, which is for logging, and the
notification that wakes the driver (it may run at any time).
-/
import Rove.Base.HashMap
import Rove.Base.Run
import Rove.Base.Slots
import Rove.Subnetra.TcpSocket

namespace Rove.Subnetra

def connBufCap : Nat := 256 * 1024

def listenBacklog : Nat := 8

def maxListenSockets : Nat := 128

def acceptCapacity : Nat := 64

/-! ## Streams -/

structure ConnShared where
  rx : Bytes := []
  tx : Bytes := []
  appShutdown : Bool := false
  netClosed : Bool := false
  aborted : Bool := false
  readWaker : Bool := false
  writeWaker : Bool := false

inductive Poll (α : Type) where
  | pending
  | ready (a : α)

inductive IoErrorKind where
  | connectionReset
  | brokenPipe

/-- `io::Error`. -/
structure IoError where
  kind : IoErrorKind
  message : String

abbrev IoResult (α : Type) := Except IoError α

namespace ConnShared

def resetError : IoError := ⟨.connectionReset, "subnetra connection reset"⟩

/-- `poll_read` into a buffer with some room: what was put there. Nothing put
into a buffer with room is the end of the stream. -/
def pollRead (g : ConnShared) (remaining : Nat) : ConnShared × Poll (IoResult Bytes) :=
  if g.rx ≠ [] then
    let n := min remaining g.rx.length
    ({ g with rx := g.rx.drop n }, .ready (.ok (g.rx.take n)))
  else if g.aborted then (g, .ready (.error resetError))
  else if g.netClosed then (g, .ready (.ok []))
  else ({ g with readWaker := true }, .pending)

def pollWrite (g : ConnShared) (data : Bytes) : ConnShared × Poll (IoResult Nat) :=
  if g.aborted then (g, .ready (.error resetError))
  else if g.appShutdown then (g, .ready (.error ⟨.brokenPipe, "write after shutdown"⟩))
  else
    let space := connBufCap - g.tx.length
    if space = 0 then ({ g with writeWaker := true }, .pending)
    else
      let n := min data.length space
      ({ g with tx := g.tx ++ data.take n }, .ready (.ok n))

def pollFlush (g : ConnShared) : ConnShared × Poll (IoResult Unit) :=
  if g.aborted then (g, .ready (.error resetError))
  else if g.tx = [] then (g, .ready (.ok ()))
  else ({ g with writeWaker := true }, .pending)

def pollShutdown (g : ConnShared) : ConnShared × Poll (IoResult Unit) :=
  if g.aborted ∨ (g.netClosed ∧ g.tx = []) then ({ g with appShutdown := true }, .ready (.ok ()))
  else if g.tx ≠ [] then ({ g with writeWaker := true }, .pending)
  else ({ g with appShutdown := true }, .ready (.ok ()))

/-- `Drop`. -/
def dropped (g : ConnShared) : ConnShared := { g with appShutdown := true }

end ConnShared

/-- Where a stream is: in the accept channel, with the application, or gone. -/
inductive Holder where
  | queued
  | app
  | gone
  deriving DecidableEq

/-- A stream. What the application read from it, and whether it saw a clean
end, is history. -/
structure Stream where
  shared : ConnShared := {}
  holder : Holder
  taken : Bytes := []
  sawEof : Bool := false

/-! ## The driver -/

abbrev Handle := Nat

/-- Where the driver is in a pass of `service`. -/
inductive Phase where
  /-- Outside of a pass. -/
  | poll
  /-- In `promote_listeners`, with these still to be handed out. -/
  | promote (ready : List Handle)
  /-- In `service_conns`, with these still to be serviced and those to be removed. -/
  | conns (items : List (Handle × Nat)) (dead : List Handle)
  deriving DecidableEq

/-- The driver, the streams and the accept channel. A connection is a number in
`streams`; the sockets that were removed with their connections are history. -/
structure Stack where
  sockets : Slots Socket := .empty
  listeners : HashMap Handle Unit := ∅
  conns : HashMap Handle Nat := ∅
  /-- The requests that wait, each with whether its caller still does. -/
  pendingConnects : HashMap Handle Bool := ∅
  streams : List Stream := []
  acceptQueue : List Nat := []
  acceptOpen : Bool := true
  listenPort : Option Nat
  nextPort : Nat := 49152
  phase : Phase := .poll
  reaped : List (Nat × Socket) := []

namespace Stack

def addListener (s : Stack) (port : Nat) : Stack × Bool :=
  match Socket.listen port with
  | none => (s, false)
  | some sock =>
    ({ s with sockets := s.sockets.add sock, listeners := s.listeners.insert s.sockets.next () }, true)

/-- The loop of `top_up_listeners`, with the number of spare sockets that are
missing. -/
def addListeners (s : Stack) (port : Nat) : Nat → Stack
  | 0 => s
  | missing + 1 =>
    if s.listeners.len < maxListenSockets then
      match s.addListener port with
      | (s, true) => s.addListeners port missing
      | (s, false) => s
    else s

/-- The state of the socket of a handle. -/
def stateOf (s : Stack) (h : Handle) : Option TcpState := (s.sockets.get? h).map (·.state)

def topUpListeners (s : Stack) : Stack :=
  match s.listenPort with
  | none => s
  | some port =>
    let spare := (s.listeners.keys.filter fun h => s.stateOf h = some .listen).length
    s.addListeners port (listenBacklog - spare)

/-- The driver as `run` starts it. -/
def start (listenPort : Option Nat) : Stack :=
  match listenPort with
  | none => { listenPort }
  | some port => (List.range listenBacklog).foldl (fun s _ => (s.addListener port).1) { listenPort }

/-- Take a socket out of the set and out of the listeners. -/
def removeListener (s : Stack) (h : Handle) : Stack :=
  { s with listeners := s.listeners.erase h, sockets := s.sockets.remove h }

/-- The first half of `promote_listeners`: the closed listeners go, and those
that are past their handshake are ready. -/
def beginPass (s : Stack) : Stack :=
  let dead := s.listeners.keys.filter fun h => s.stateOf h = some .closed
  let ready := s.listeners.keys.filter fun h =>
    s.stateOf h ≠ some .closed ∧ s.stateOf h ≠ some .listen ∧ s.stateOf h ≠ some .synReceived
  { dead.foldl removeListener s with phase := .promote ready }

/-- Hand out one connection: `try_send` fails when the channel is full or
nobody receives from it, and the stream is dropped with it. -/
def promote (s : Stack) (h : Handle) : Stack :=
  let s := { s with listeners := s.listeners.erase h }
  if s.acceptOpen ∧ s.acceptQueue.length < acceptCapacity then
    { s with
      conns := s.conns.insert h s.streams.length
      streams := s.streams ++ [{ holder := .queued }]
      acceptQueue := s.acceptQueue ++ [s.streams.length] }
  else
    { s with
      sockets := s.sockets.modify h Socket.abort
      conns := (s.conns.insert h s.streams.length).erase h
      streams := s.streams ++ [{ shared := ConnShared.dropped {}, holder := .gone }] }

def resolveConnect (s : Stack) (h : Handle) : Stack :=
  match s.pendingConnects.get? h with
  | none => s
  | some waiting =>
    let s := { s with pendingConnects := s.pendingConnects.erase h }
    if s.stateOf h = some .established then
      let stream : Stream := if waiting then { holder := .app }
        else { shared := ConnShared.dropped {}, holder := .gone }
      { s with conns := s.conns.insert h s.streams.length, streams := s.streams ++ [stream] }
    else { s with sockets := s.sockets.remove h }

def resolveConnects (s : Stack) : Stack :=
  let resolved := s.pendingConnects.keys.filter fun h => s.stateOf h = some .established ∨ s.stateOf h = some .closed
  resolved.foldl resolveConnect s

/-- From the last connection handed out to the first one serviced. -/
def resolve (s : Stack) : Stack :=
  let s := s.topUpListeners.resolveConnects
  { s with phase := .conns s.conns.entries [] }

end Stack

/-- The loop that copies received bytes to the application buffer. `slice` is
how much of the queue lies in one piece, at least one byte. -/
def drainRx (slice : Bytes → Nat) : Nat → Socket → Bytes → Socket × Bytes
  | 0, sock, rx => (sock, rx)
  | fuel + 1, sock, rx =>
    if sock.canRecv ∧ rx.length < connBufCap then
      let data := sock.rx.take (max 1 (slice sock.rx))
      let take := min data.length (connBufCap - rx.length)
      drainRx slice fuel (sock.dequeue take) (rx ++ data.take take)
    else (sock, rx)

/-- The loop that moves bytes of the application to the socket; the last
answer is whether any was moved. -/
def fillTx : Nat → Socket → Bytes → Socket × Bytes × Bool
  | 0, sock, tx => (sock, tx, false)
  | fuel + 1, sock, tx =>
    if sock.canSend ∧ tx ≠ [] then
      match sock.sendSlice tx with
      | (sock', n) =>
        if n = 0 then (sock', tx, false)
        else
          let (sock', tx', _) := fillTx fuel sock' (tx.drop n)
          (sock', tx', true)
    else (sock, tx, false)

/-- `net -> app`. Each round moves a byte, so the length bounds the rounds. -/
def netToApp (slice : Bytes → Nat) (sock : Socket) (g : ConnShared) : Socket × ConnShared :=
  let (sock, rx) := drainRx slice sock.rx.length sock g.rx
  (sock, if rx.length = g.rx.length then g else { g with rx, readWaker := false })

/-- `app -> net`. -/
def appToNet (sock : Socket) (g : ConnShared) : Socket × ConnShared :=
  let (sock, tx, moved) := fillTx g.tx.length sock g.tx
  (sock, if moved then { g with tx, writeWaker := false } else g)

/-- The application requested shutdown and everything is flushed: send FIN. -/
def sendFin (sock : Socket) (g : ConnShared) : Socket :=
  if g.appShutdown ∧ g.tx = [] ∧ sock.maySend then sock.close else sock

def noteClosed (sock : Socket) (g : ConnShared) : ConnShared :=
  if sock.mayRecv = false ∧ g.netClosed = false then { g with netClosed := true, readWaker := false } else g

def isOver (sock : Socket) : Bool := sock.state = .closed ∨ (sock.state = .timeWait ∧ sock.canRecv = false)

/-- The body of the loop of `service_conns`, under the lock: the socket, the
shared state, and whether the connection is over. -/
def serviceConn (slice : Bytes → Nat) (sock : Socket) (g : ConnShared) : Socket × ConnShared × Bool :=
  let (sock, g) := netToApp slice sock g
  let (sock, g) := appToNet sock g
  let sock := sendFin sock g
  let g := noteClosed sock g
  if isOver sock then (sock, { g with netClosed := true, readWaker := false, writeWaker := false }, true)
  else (sock, g, false)

/-! ## Events -/

/-- What can happen. `ν` is what can happen to a socket below. -/
inductive StackEvent (ν : Type) where
  -- the driver, in and between passes
  | net (h : Handle) (e : ν)
  | connect (possible : Bool)
  | beginPass
  | promote (h : Handle)
  | resolve
  | service (h : Handle) (slice : Bytes → Nat)
  | reap
  -- the applications
  | accept
  | closeAccept
  | cancelConnect (h : Handle)
  | read (id remaining : Nat)
  | write (id : Nat) (data : Bytes)
  | flush (id : Nat)
  | shutdown (id : Nat)
  | drop (id : Nat)

inductive Answer where
  | nothing
  | accepted (id : Nat)
  | read (remaining : Nat) (result : Poll (IoResult Bytes))
  | write (result : Poll (IoResult Nat))
  | flush (result : Poll (IoResult Unit))
  | shutdown (result : Poll (IoResult Unit))

namespace Stack

def nextEphemeral (port : Nat) : Nat := if port = 65535 then 49152 else port + 1

/-- `connect`; whether the stack can reach the address is decided below. -/
def connect (s : Stack) (possible : Bool) : Stack :=
  let s := { s with nextPort := nextEphemeral s.nextPort }
  if possible then
    { s with
      sockets := s.sockets.add Socket.connecting
      pendingConnects := s.pendingConnects.insert s.sockets.next true }
  else s

def service (s : Stack) (items : List (Handle × Nat)) (dead : List Handle) (h : Handle)
    (id : Nat) (slice : Bytes → Nat) :
    Stack :=
  match s.sockets.get? h, s.streams[id]? with
  | some sock, some stream =>
    let (sock, g, ended) := serviceConn slice sock stream.shared
    { s with
      sockets := s.sockets.modify h fun _ => sock
      streams := s.streams.set id { stream with shared := g }
      phase := .conns (items.erase (h, id)) (if ended then dead ++ [h] else dead) }
  | _, _ => s

/-- Remove one connection and its socket. -/
def reapOne (s : Stack) (h : Handle) : Stack :=
  let gone := match s.conns.get? h, s.sockets.get? h with
    | some id, some sock => [(id, sock)]
    | _, _ => []
  { s with conns := s.conns.erase h, sockets := s.sockets.remove h, reaped := s.reaped ++ gone }

/-- Change the shared state of a stream the application holds. -/
def onStream {α : Type} (s : Stack) (id : Nat) (f : Stream → Stream × α) : Stack × Option α :=
  match s.streams[id]? with
  | some stream =>
    if stream.holder = .app then
      let (stream, a) := f stream
      ({ s with streams := s.streams.set id stream }, some a)
    else (s, none)
  | none => (s, none)

/-- The application's part of `poll_read`: it remembers what it got. -/
def readStream (remaining : Nat) (stream : Stream) : Stream × Poll (IoResult Bytes) :=
  let (shared, result) := stream.shared.pollRead remaining
  match result with
  | .ready (.ok bytes) =>
    ({ stream with
        shared
        taken := stream.taken ++ bytes
        sawEof := stream.sawEof || (decide (0 < remaining) && bytes.isEmpty) }, result)
  | _ => ({ stream with shared }, result)

/-- A poll that only looks at the shared state. -/
def onShared {α : Type} (f : ConnShared → ConnShared × α) (stream : Stream) : Stream × α :=
  ({ stream with shared := (f stream.shared).1 }, (f stream.shared).2)

def dropStream (stream : Stream) : Stream × Unit :=
  ({ stream with shared := stream.shared.dropped, holder := .gone }, ())

/-- The accept channel's receiver goes, and with it the streams in the channel. -/
def closeAccept (s : Stack) : Stack :=
  { s with
    acceptOpen := false
    acceptQueue := []
    streams := s.streams.map fun stream =>
      if stream.holder = .queued then { stream with shared := stream.shared.dropped, holder := .gone } else stream }

variable {ν : Type} (net : Socket → ν → Socket)

def step (s : Stack) : StackEvent ν → Stack × Answer
  | .net h e =>
    match s.phase with
    | .poll => ({ s with sockets := s.sockets.modify h fun sock => net sock e }, .nothing)
    | _ => (s, .nothing)
  | .connect possible =>
    match s.phase with
    | .poll => (s.connect possible, .nothing)
    | _ => (s, .nothing)
  | .beginPass =>
    match s.phase with
    | .poll => (s.beginPass, .nothing)
    | _ => (s, .nothing)
  | .promote h =>
    match s.phase with
    | .promote ready => if h ∈ ready then ({ s.promote h with phase := .promote (ready.erase h) }, .nothing)
        else (s, .nothing)
    | _ => (s, .nothing)
  | .resolve =>
    match s.phase with
    | .promote [] => (s.resolve, .nothing)
    | _ => (s, .nothing)
  | .service h slice =>
    match s.phase with
    | .conns items dead =>
      match items.find? (·.1 = h) with
      | some (_, id) => (s.service items dead h id slice, .nothing)
      | none => (s, .nothing)
    | _ => (s, .nothing)
  | .reap =>
    match s.phase with
    | .conns [] dead => ({ dead.foldl reapOne s with phase := .poll }, .nothing)
    | _ => (s, .nothing)
  | .accept =>
    match s.acceptQueue with
    | [] => (s, .nothing)
    | id :: queue =>
      ({ s with acceptQueue := queue, streams := s.streams.modify id fun stream => { stream with holder := .app } },
        .accepted id)
  | .closeAccept => (s.closeAccept, .nothing)
  | .cancelConnect h =>
    match s.pendingConnects.get? h with
    | some _ => ({ s with pendingConnects := s.pendingConnects.insert h false }, .nothing)
    | none => (s, .nothing)
  | .read id remaining =>
    match s.onStream id (readStream remaining) with
    | (s, some result) => (s, .read remaining result)
    | (s, none) => (s, .nothing)
  | .write id data =>
    match s.onStream id (onShared (·.pollWrite data)) with
    | (s, some result) => (s, .write result)
    | (s, none) => (s, .nothing)
  | .flush id =>
    match s.onStream id (onShared (·.pollFlush)) with
    | (s, some result) => (s, .flush result)
    | (s, none) => (s, .nothing)
  | .shutdown id =>
    match s.onStream id (onShared (·.pollShutdown)) with
    | (s, some result) => (s, .shutdown result)
    | (s, none) => (s, .nothing)
  | .drop id => ((s.onStream id dropStream).1, .nothing)

variable {net}

theorem step_read (s : Stack) (id remaining : Nat) :
    (s.step net (.read id remaining)).1 = (s.onStream id (readStream remaining)).1 := by
  rw [step]
  split <;> next h => rw [h]

theorem step_write (s : Stack) (id : Nat) (data : Bytes) :
    (s.step net (.write id data)).1 = (s.onStream id (onShared (·.pollWrite data))).1 := by
  rw [step]
  split <;> next h => rw [h]

theorem step_flush (s : Stack) (id : Nat) :
    (s.step net (.flush id)).1 = (s.onStream id (onShared (·.pollFlush))).1 := by
  rw [step]
  split <;> next h => rw [h]

theorem step_shutdown (s : Stack) (id : Nat) :
    (s.step net (.shutdown id)).1 = (s.onStream id (onShared (·.pollShutdown))).1 := by
  rw [step]
  split <;> next h => rw [h]

variable (net)

def run (listenPort : Option Nat) (events : List (StackEvent ν)) : Stack :=
  runState (step net) (start listenPort) events

end Stack

end Rove.Subnetra
