/-
A request through a subnetra egress, down to the driver of the stack: the
outbound side reads the host as an IPv4 address, the driver opens a socket to
it. Neither looks at the prefix of the overlay.

`fails_closed_iff`: which requests are refused before there is any connection, as
the comment of `subnetra_connect` says of all hosts outside the overlay.
-/
import Rove.Outbound.Connect
import Rove.Subnetra.Netstack

namespace Rove.Subnetra

open Outbound (ProxyError Network subnetraConnect)

section
-- `tcp::Socket::connect` of a new socket: destination, port, local port.
variable (socketConnect : Ipv4Addr → Nat → Nat → Except String Unit)

/-- `Driver::connect`. The caller waits, unless the socket cannot be set up. -/
def Stack.handleConnect (s : Stack) (dst : Ipv4Addr) (port : Nat) : Stack × Except String Unit :=
  match socketConnect dst port s.nextPort with
  | .ok _ => (s.connect true, .ok ())
  | .error e => (s.connect false, .error s!"subnetra connect setup failed: {e}")

/-- The overlay side of the `EgressContext`. -/
structure Overlay where
  subnetraTun : Bool
  stack : Option Stack

/-- `subnetra_connect` up to where it waits for the driver. -/
def Overlay.request (o : Overlay) (host : Str) (port : Nat) : Overlay × Except ProxyError Unit :=
  let target := Str.display host
  if o.subnetraTun then
    (o, .error (.upstream (s!"subnetra egress requested for {target}:{port} but subnetra is running in TUN mode; " ++
      "use direct egress so kernel routes packets into the overlay")))
  else
    match o.stack with
    | none => (o, .error (.upstream s!"subnetra egress requested for {target}:{port} but subnetra is not enabled"))
    | some s =>
      match parseIpv4Addr host with
      | none => (o, .error (.upstream s!"subnetra egress target {target} is not an overlay IPv4 address"))
      | some ip =>
        let (s, result) := s.handleConnect socketConnect ip port
        ({ o with stack := some s }, result.mapError fun e => .upstream s!"subnetra connect {target}:{port}: {e}")

/-- The host is an address of the overlay. -/
def InOverlay (net : Ipv4Net) (host : Str) : Prop := ∃ ip, parseIpv4Addr host = some ip ∧ net.contains ip = true

/-- The sockets, the connects that wait and the connections of the stack. -/
def Stack.connections (s : Stack) : Slots Socket × HashMap Handle Bool × HashMap Handle Nat × List Stream :=
  (s.sockets, s.pendingConnects, s.conns, s.streams)

/-- A host outside the overlay is refused, and there is no connection for it. -/
def Overlay.FailsClosed (o : Overlay) (net : Ipv4Net) (host : Str) (port : Nat) : Prop :=
  ¬ InOverlay net host → (∃ e, (o.request socketConnect host port).2 = .error e) ∧
    (o.request socketConnect host port).1.stack.map Stack.connections = o.stack.map Stack.connections

/-- Whatever the host network does, a request goes over the overlay or fails, as
the driver has answered. -/
def StaysOnOverlay (o : Overlay) (host : Str) (port : Nat) : Prop :=
  ∀ (net : Network) (answer : Ipv4Addr → Nat → Except String Unit),
    (subnetraConnect { net with
        subnetraTun := o.subnetraTun
        subnetra := o.stack.map fun s ip port =>
          (s.handleConnect socketConnect ip port).2.bind fun _ => answer ip port } host port) =
      ([], (o.request socketConnect host port).2.bind fun _ =>
        match (parseIpv4Addr host).elim (.ok ()) fun ip => answer ip port with
        | .error e => .error (.upstream s!"subnetra connect {Str.display host}:{port}: {e}")
        | .ok _ => .ok .subnetra)

theorem staysOnOverlay (o : Overlay) (host : Str) (port : Nat) : StaysOnOverlay socketConnect o host port := by
  intro net answer
  obtain ⟨tun, stack⟩ := o
  cases tun with
  | true => simp [subnetraConnect, Overlay.request, Except.bind]
  | false =>
    cases stack with
    | none => simp [subnetraConnect, Overlay.request, Except.bind]
    | some s =>
      cases hip : parseIpv4Addr host with
      | none => simp [subnetraConnect, Overlay.request, hip, Except.bind]
      | some ip =>
        simp only [subnetraConnect, Overlay.request, hip, Option.map_some, Option.elim]
        cases (s.handleConnect socketConnect ip port).2 <;> cases answer ip port <;> simp [Except.bind, Except.mapError]

/-- A host outside the overlay is refused before there is any connection exactly
if it is no IPv4 address, or there is no stack to ask, or the socket cannot be set
up. No request falls back to the host network. -/
theorem fails_closed_iff (o : Overlay) (net : Ipv4Net) (host : Str) (port : Nat) :
    (o.FailsClosed socketConnect net host port ∧ StaysOnOverlay socketConnect o host port) ↔
      ∀ ip, parseIpv4Addr host = some ip → net.contains ip = true ∨ o.subnetraTun = true ∨
        ∀ s, o.stack = some s → ∃ e, socketConnect ip port s.nextPort = .error e := by
  obtain ⟨tun, stack⟩ := o
  refine ⟨fun h ip hip => ?_, fun h => ⟨fun hout => ?_, staysOnOverlay socketConnect _ host port⟩⟩
  · by_contra hnot
    simp only [not_or, not_forall] at hnot
    obtain ⟨hnet, htun, s, rfl, hopens⟩ := hnot
    obtain ⟨⟨e, he⟩, -⟩ := h.1 fun ⟨ip', hip', hin⟩ => hnet (Option.some.inj (hip.symm.trans hip') ▸ hin)
    cases hconnect : socketConnect ip port s.nextPort with
    | error e => exact hopens ⟨e, hconnect⟩
    | ok _ => simp [Overlay.request, htun, hip, Stack.handleConnect, hconnect, Except.mapError] at he
  · cases tun with
    | true => exact ⟨⟨_, rfl⟩, rfl⟩
    | false =>
      cases stack with
      | none => exact ⟨⟨_, rfl⟩, rfl⟩
      | some s =>
        cases hip : parseIpv4Addr host with
        | none => simp [Overlay.request, hip]
        | some ip =>
          obtain ⟨e, he⟩ : ∃ e, socketConnect ip port s.nextPort = .error e := by
            simpa using (h ip hip).resolve_left fun hin => hout ⟨ip, hip, hin⟩
          simp [Overlay.request, hip, Stack.handleConnect, he, Stack.connect, Stack.connections, Except.mapError]

end

/-- `8.8.8.8` is no address of `10.0.0.0/24`, and yet there is a socket for it where
`connect` takes it. -/
theorem outside_overlay_connects :
    let o : Overlay := ⟨false, some (Stack.start none)⟩
    let answer := o.request (fun _ _ _ => .ok ()) "8.8.8.8" 443
    ¬ InOverlay (.ofLen (Ipv4Addr.new 10 0 0 2) 24) "8.8.8.8" ∧ answer.2 = .ok () ∧
      answer.1.stack.map (fun s => (s.pendingConnects.len, s.stateOf 0)) = some (1, some .synSent) := by
  have hip : parseIpv4Addr "8.8.8.8" = some (Ipv4Addr.new 8 8 8 8) := by decide +kernel
  refine ⟨fun ⟨ip, hparse, hin⟩ => ?_, by rfl, by rfl⟩
  obtain rfl := Option.some.inj (hip.symm.trans hparse)
  revert hin
  decide

end Rove.Subnetra
