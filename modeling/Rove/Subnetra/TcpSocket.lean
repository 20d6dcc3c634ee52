/-
A TCP socket of the user-space stack (`smoltcp::socket::tcp::Socket`) as far as
its driver can tell: an in-order receive queue, a send queue and a TCP state.
What segments and timers do to it is `Socket.net`; reassembly, windows and
retransmission are below this.

Two fields are history: what the socket received, and whether a reset ended it.
No operation reads them.
-/
import Rove.Base.Utf8

namespace Rove.Subnetra

def socketBuf : Nat := 64 * 1024

/-- `tcp::State`. -/
inductive TcpState where
  | closed
  | listen
  | synSent
  | synReceived
  | established
  | finWait1
  | finWait2
  | closeWait
  | closing
  | lastAck
  | timeWait
  deriving DecidableEq

structure Socket where
  state : TcpState := .closed
  rx : Bytes := []
  tx : Bytes := []
  /-- It was opened with `listen`. -/
  passive : Bool := false
  received : Bytes := []
  wasReset : Bool := false

namespace Socket

def mayRecv (s : Socket) : Bool :=
  match s.state with
  | .established | .finWait1 | .finWait2 => true
  | _ => !s.rx.isEmpty

def maySend (s : Socket) : Bool :=
  match s.state with
  | .established | .closeWait => true
  | _ => false

def canRecv (s : Socket) : Bool := s.mayRecv && !s.rx.isEmpty

def canSend (s : Socket) : Bool := s.maySend && decide (s.tx.length < socketBuf)

/-- `recv`, when the callback takes `n` bytes. -/
def dequeue (s : Socket) (n : Nat) : Socket := { s with rx := s.rx.drop n }

/-- `send_slice`: how many bytes were taken. -/
def sendSlice (s : Socket) (data : Bytes) : Socket × Nat :=
  if s.maySend then
    let n := min data.length (socketBuf - s.tx.length)
    ({ s with tx := s.tx ++ data.take n }, n)
  else (s, 0)

def close (s : Socket) : Socket :=
  match s.state with
  | .listen | .synSent => { s with state := .closed }
  | .synReceived | .established => { s with state := .finWait1 }
  | .closeWait => { s with state := .lastAck }
  | _ => s

def abort (s : Socket) : Socket := { s with state := .closed }

/-- `listen` on a new socket; port 0 is refused. -/
def listen (port : Nat) : Option Socket :=
  if port = 0 then none else some { state := .listen, passive := true }

/-- A new socket after `connect`. -/
def connecting : Socket := { state := .synSent }

end Socket

/-- What a segment or a timer does to a socket. -/
inductive NetEvent where
  | syn
  | handshake
  | data (bytes : Bytes)
  | fin
  | finAcked
  | acked (n : Nat)
  | rst
  | expire

/-- One such change; in a state that does not expect it, nothing happens. -/
def Socket.net (s : Socket) : NetEvent → Socket
  | .syn =>
    match s.state with
    | .listen | .synSent => { s with state := .synReceived }
    | _ => s
  | .handshake =>
    match s.state with
    | .synSent | .synReceived => { s with state := .established }
    | _ => s
  | .data bytes =>
    match s.state with
    | .established | .finWait1 | .finWait2 =>
      let bytes := bytes.take (socketBuf - s.rx.length)
      { s with rx := s.rx ++ bytes, received := s.received ++ bytes }
    | _ => s
  | .fin =>
    match s.state with
    | .synReceived | .established => { s with state := .closeWait }
    | .finWait1 => { s with state := .closing }
    | .finWait2 => { s with state := .timeWait }
    | _ => s
  | .finAcked =>
    match s.state with
    | .finWait1 => { s with state := .finWait2 }
    | .closing => { s with state := .timeWait }
    | .lastAck => { s with state := .closed }
    | _ => s
  | .acked n => { s with tx := s.tx.drop n }
  | .rst =>
    match s.state with
    | .closed | .listen => s
    | .synReceived => if s.passive then { s with state := .listen } else { s with state := .closed, wasReset := true }
    | _ => { s with state := .closed, wasReset := true }
  | .expire =>
    match s.state with
    | .timeWait => { s with state := .closed }
    | _ => s

end Rove.Subnetra
