/-
The uplink of UDP associations: SOCKS5 UDP ASSOCIATE (`inbound/socks5_udp.rs`)
and TUIC (`inbound/tuic/mod.rs`). Each datagram has its own target and its own
policy decision; the relay is opened once and then carries all of them.

A SOCKS5 association is one task. TUIC packets run side by side: opening a
relay takes time, and other packets come in between, so that opening and what
follows it are two events.

`udp_leaves_as_decided` is about every history of either.
-/
import Rove.Base.Run
import Rove.Base.SocketAddr
import Rove.Inbound.Target
import Rove.Model.Compile
import Rove.Outbound.ConnectUdp

namespace Rove.Inbound

open List
open Model (Decision Snapshot)
open Outbound (Course connectUdp Selects)

/-- A packet handed to a relay with `send_to`. -/
structure Forward where
  user : Str
  host : Str
  port : Nat
  payload : Bytes
  hop : Str

/-! ## SOCKS5 -/

structure UdpDatagram where
  frag : UInt8
  host : Str
  port : Nat
  dataOffset : Nat

/-- The host of a datagram and the offset after it. -/
def udpHost (buf : Bytes) (atyp : UInt8) : Option (Str × Nat) :=
  if atyp = 0x01 then
    if buf.length < 8 then none else some ((ipv4OfBytes ((buf.drop 4).take 4)).toText, 8)
  else if atyp = 0x04 then
    if buf.length < 20 then none else some ((ipv6OfBytes ((buf.drop 4).take 16)).toText, 20)
  else if atyp = 0x03 then do
    let l ← buf[4]?
    if l.toNat = 0 ∨ buf.length < 5 + l.toNat then none
    else some (fromUtf8Lossy ((buf.drop 5).take l.toNat), 5 + l.toNat)
  else none

def parseUdpDatagram (buf : Bytes) : Option UdpDatagram :=
  if buf.length < 4 then none
  else do
    let (host, off) ← udpHost buf (buf.getD 3 0)
    if buf.length < off + 2 then none
    else some ⟨buf.getD 2 0, host, ofBeBytes ((buf.drop off).take 2), off + 2⟩

/-- A datagram on the relay socket, and what opening a relay would meet then. -/
structure Arrival where
  bytes : Bytes
  src : SocketAddr
  course : Course

/-- What the loop of `serve_associate` keeps between datagrams. -/
structure Association where
  clientAddr : Option SocketAddr := none
  relay : Option Str := none

def Arrival.datagram (a : Arrival) : Option UdpDatagram := (parseUdpDatagram a.bytes).filter (·.frag = 0)

section Socks5

variable (decide : Str → Str → Decision) (user : Str)

/-- A datagram that is not blocked: open the relay if there is none, and send. -/
def Association.uplink (s : Association) (course : Course) (dg : UdpDatagram) (payload : Bytes) :
    Association × Option Forward :=
  match s.relay with
  | some hop => (s, some ⟨user, dg.host, dg.port, payload, hop⟩)
  | none =>
    match connectUdp course (decide user dg.host) with
    | .ok (hop, _) => ({ s with relay := some hop }, some ⟨user, dg.host, dg.port, payload, hop⟩)
    | .error _ => (s, none)

/-- One datagram in the loop of `serve_associate`. -/
def Association.receive (s : Association) (a : Arrival) : Association × Option Forward :=
  if s.clientAddr.any (· ≠ a.src) then (s, none)
  else
    let s := { s with clientAddr := some a.src }
    match a.datagram with
    | none => (s, none)
    | some dg =>
      if decide user dg.host = .block then (s, none)
      else s.uplink decide user a.course dg (a.bytes.drop dg.dataOffset)

/-- What an association forwards, in order. -/
def socks5Forwarded (arrivals : List Arrival) : List Forward :=
  (runTrace (Association.receive decide user) {} arrivals).filterMap Prod.snd

/-- The decisions for the datagrams that an association forwards. -/
def socks5Decisions (arrivals : List Arrival) : List Decision :=
  (socks5Forwarded decide user arrivals).map fun f => decide f.user f.host

end Socks5

/-! ## TUIC -/

structure PacketHeader where
  assocId : BitVec 16
  pktId : BitVec 16
  fragTotal : UInt8
  fragId : UInt8
  size : BitVec 16
  addr : Address

inductive DatagramCommand where
  | packet (header : PacketHeader) (payload : Bytes)
  | heartbeat

/-- `u16::from_be_bytes` of the two bytes at an offset. -/
def be16 (buf : Bytes) (offset : Nat) : BitVec 16 := BitVec.ofNat 16 (ofBeBytes ((buf.drop offset).take 2))

/-- `parse_packet_header`: the header and the number of bytes it takes. -/
def parsePacketHeader (buf : Bytes) : Res (PacketHeader × Nat) := do
  ensure (8 ≤ buf.length) "tuic: packet header too short"
  let (addr, addrLen) ← parseAddress (buf.drop 8)
  return (⟨be16 buf 0, be16 buf 2, buf.getD 4 0, buf.getD 5 0, be16 buf 6, addr⟩, 8 + addrLen)

def parseDatagram (buf : Bytes) : Res DatagramCommand := do
  ensure (2 ≤ buf.length) "tuic: datagram too short"
  ensure (buf.getD 0 0 = 0x05) "tuic: datagram bad version"
  if buf.getD 1 0 = 0x04 then return .heartbeat
  else if buf.getD 1 0 = 0x02 then
    let (header, off) ← parsePacketHeader (buf.drop 2)
    ensure (2 + off + header.size.toNat ≤ buf.length) "tuic: packet payload truncated"
    return .packet header ((buf.drop (2 + off)).take header.size.toNat)
  else throw "tuic: unsupported datagram command"

/-- A packet that `relay_uplink` is called with, and the identity it finds. -/
structure Packet where
  user : Str
  assocId : BitVec 16
  host : Str
  port : Nat
  payload : Bytes
  deriving DecidableEq

/-- What happens on a connection: a command comes in as a datagram (or as the
body of a stream, framed as one), with the identity of the connection at that
time; the opening of a relay ends; an association is given up. -/
inductive TuicEvent where
  | command (identity : Option Str) (bytes : Bytes)
  | opened (k : Nat) (course : Course)
  | dissociate (assocId : BitVec 16)

/-- The packet of an event, if it is a whole one of an authenticated client. -/
def TuicEvent.packet : TuicEvent → Option Packet
  | .command (some user) bytes =>
    match parseDatagram bytes with
    | .ok (.packet header payload) =>
      if header.fragTotal ≠ 1 then none
      else header.addr.hostPort.map fun (host, port) => ⟨user, header.assocId, host, port, payload⟩
    | _ => none
  | _ => none

/-- The associations of a connection, and the packets whose relay is being opened. -/
structure Associations where
  assoc : HashMap (BitVec 16) Str := ∅
  opening : List Packet := []

def Packet.forward (p : Packet) (hop : Str) : Forward := ⟨p.user, p.host, p.port, p.payload, hop⟩

section Tuic

variable (decide : Str → Str → Decision)

/-- `relay_uplink`, up to the opening of a relay: the packet that is sent, and the hop. -/
def Associations.relayUplink (s : Associations) (p : Packet) : Associations × Option (Packet × Str) :=
  if decide p.user p.host = .block then (s, none)
  else
    match s.assoc.get? p.assocId with
    | some hop => (s, some (p, hop))
    | none => ({ s with opening := s.opening ++ [p] }, none)

/-- The end of `open_association`, and of `relay_uplink` after it: the relay is
entered unless another one was in the meantime. -/
def Associations.enter (s : Associations) (p : Packet) (course : Course) : Associations × Option (Packet × Str) :=
  match connectUdp course (decide p.user p.host) with
  | .error _ => (s, none)
  | .ok (hop, _) =>
    match s.assoc.get? p.assocId with
    | some entry => (s, some (p, entry))
    | none => ({ s with assoc := s.assoc.insert p.assocId hop }, some (p, hop))

def Associations.step (s : Associations) (e : TuicEvent) : Associations × Option (Packet × Str) :=
  match e with
  | .command _ _ =>
    match e.packet with
    | none => (s, none)
    | some p => s.relayUplink decide p
  | .opened k course =>
    match s.opening[k]? with
    | none => (s, none)
    | some p => Associations.enter decide { s with opening := s.opening.eraseIdx k } p course
  | .dissociate assocId => ({ s with assoc := s.assoc.erase assocId }, none)

/-- The packets that the associations of a connection send, in order, each with its hop. -/
def tuicSent (events : List TuicEvent) : List (Packet × Str) :=
  (runTrace (Associations.step decide) {} events).filterMap Prod.snd

def tuicForwarded (events : List TuicEvent) : List Forward :=
  (tuicSent decide events).map fun sent => sent.1.forward sent.2

/-- The decisions for the packets that are sent of one association id. -/
def tuicDecisions (events : List TuicEvent) (assocId : BitVec 16) : List Decision :=
  ((tuicSent decide events).filter (·.1.assocId = assocId)).map fun sent => decide sent.1.user sent.1.host

end Tuic

/-! ## One decision for an association -/

def SameDecision (ds : List Decision) : Prop := ∀ d ∈ ds, ∀ d' ∈ ds, d = d'

section Relays

variable {σ ι ο κ : Type} {step : σ → ι → σ × Option ο} (relay : σ → κ → Option Str) (key : ο → κ) (hop : ο → Str)
  (decision : ο → Decision)

/-- What a step sends goes to the relay of its key, or to one that its own decision
selects, and so does every relay that is entered. -/
def Enters (s : σ) (out : Option ο) (s' : σ) : Prop :=
  (∀ o, out = some o → relay s (key o) = some (hop o) ∨ Selects (decision o) (hop o)) ∧
    ∀ k h, relay s' k = some h → relay s k = some h ∨ ∃ o, out = some o ∧ key o = k ∧ Selects (decision o) h

/-- Something was sent with the key by whose decision the hop is selected. -/
def Picked (sent : List ο) (k : κ) (h : Str) : Prop := ∃ o ∈ sent, key o = k ∧ Selects (decision o) h

variable {relay key hop decision} {s s' : σ} {o : ο}

theorem Enters.nothing (hsame : ∀ k h, relay s' k = some h → relay s k = some h) :
    Enters relay key hop decision s none s' := ⟨nofun, fun k h hget => .inl (hsame k h hget)⟩

theorem Enters.through (hget : relay s (key o) = some (hop o))
    (hsame : ∀ k h, relay s' k = some h → relay s k = some h) :
    Enters relay key hop decision s (some o) s' :=
  ⟨fun _ ho => .inl (Option.some.inj ho ▸ hget), fun k h hget => .inl (hsame k h hget)⟩

theorem Enters.opened (hselects : Selects (decision o) (hop o))
    (hentered : ∀ k h, relay s' k = some h → relay s k = some h ∨ key o = k ∧ hop o = h) :
    Enters relay key hop decision s (some o) s' := by
  refine ⟨fun _ ho => .inr (Option.some.inj ho ▸ hselects), fun k h hget => (hentered k h hget).imp_right ?_⟩
  rintro ⟨hkey, rfl⟩
  exact ⟨o, rfl, hkey, hselects⟩

theorem Picked.append {sent : List ο} {k h} (hpicked : Picked key decision sent k h) (later : List ο) :
    Picked key decision (sent ++ later) k h := by
  obtain ⟨o, ho, hselects⟩ := hpicked
  exact ⟨o, mem_append_left _ ho, hselects⟩

/-- Everything that a run sends goes to a hop that was selected for something sent with its key. -/
theorem picked_of_run (hstep : ∀ s i, Enters relay key hop decision s (step s i).2 (step s i).1) {s : σ}
    (hempty : ∀ k, relay s k = none) (is : List ι) :
    ∀ o ∈ (runTrace step s is).filterMap Prod.snd,
      Picked key decision ((runTrace step s is).filterMap Prod.snd) (key o) (hop o) := by
  let Inv (s : σ) (hist : List (ι × Option ο)) : Prop :=
    (∀ k h, relay s k = some h → Picked key decision (hist.filterMap Prod.snd) k h) ∧
      ∀ o ∈ hist.filterMap Prod.snd, Picked key decision (hist.filterMap Prod.snd) (key o) (hop o)
  refine (@run_induction _ _ _ step Inv (fun s hist i hinv => ?_) s [] ⟨fun k h hget => ?_, nofun⟩ is).2
  · obtain ⟨hrelays, hsent⟩ := hinv
    obtain ⟨hout, hentered⟩ := hstep s i
    have hlast : ∀ o, (step s i).2 = some o →
        o ∈ (hist ++ [(i, (step s i).2)]).filterMap Prod.snd := fun o ho => by simp [ho]
    refine ⟨fun k h hget => ?_, fun o ho => ?_⟩
    · rcases hentered k h hget with hold | ⟨o, ho, hselects⟩
      · rw [filterMap_append]
        exact (hrelays k h hold).append _
      · exact ⟨o, hlast o ho, hselects⟩
    · have hcases := ho
      rw [filterMap_append, mem_append] at hcases
      rcases hcases with hold | hnew
      · rw [filterMap_append]
        exact (hsent o hold).append _
      · have hnew : (step s i).2 = some o := by simpa using hnew
        rcases hout o hnew with hget | hselects
        · rw [filterMap_append]
          exact (hrelays _ _ hget).append _
        · exact ⟨o, hlast o hnew, rfl, hselects⟩
  · rw [hempty] at hget
    cases hget

end Relays

variable {decide : Str → Str → Decision}

/-- A datagram of an association goes to its relay, or opens one. -/
theorem Association.receive_enters (user : Str) (s : Association) (a : Arrival) :
    Enters (fun (s : Association) (_ : Unit) => s.relay) (fun _ => ()) Forward.hop (fun f => decide f.user f.host) s
      (s.receive decide user a).2 (s.receive decide user a).1 := by
  unfold Association.receive
  split
  · exact .nothing fun _ _ => id
  · cases a.datagram with
    | none => exact .nothing fun _ _ => id
    | some dg =>
      dsimp only
      split
      · exact .nothing fun _ _ => id
      · unfold Association.uplink
        cases hrelay : s.relay with
        | some hop => exact .through hrelay fun _ _ => hrelay.trans
        | none =>
          cases hopen : connectUdp a.course (decide user dg.host) with
          | error e => exact .nothing fun _ _ => hrelay.trans
          | ok out =>
            obtain ⟨hop, info⟩ := out
            exact .opened (Outbound.connectUdp_selects hopen) fun _ _ hget => .inr ⟨rfl, Option.some.inj hget⟩

/-- A packet goes to the relay of its association, or enters one. -/
theorem Associations.step_enters (s : Associations) (e : TuicEvent) :
    Enters (fun s => s.assoc.get?) (fun sent => sent.1.assocId) Prod.snd (fun sent => decide sent.1.user sent.1.host) s
      (s.step decide e).2 (s.step decide e).1 := by
  cases e with
  | command identity bytes =>
    rw [Associations.step]
    cases TuicEvent.packet (.command identity bytes) with
    | none => exact .nothing fun _ _ => id
    | some p =>
      dsimp only [relayUplink]
      split
      · exact .nothing fun _ _ => id
      · cases hget : s.assoc.get? p.assocId with
        | some hop => exact .through hget fun _ _ => id
        | none => exact .nothing fun _ _ => id
  | opened k course =>
    rw [Associations.step]
    cases s.opening[k]? with
    | none => exact .nothing fun _ _ => id
    | some p =>
      dsimp only [enter]
      cases hopen : connectUdp course (decide p.user p.host) with
      | error e => exact .nothing fun _ _ => id
      | ok out =>
        obtain ⟨hop, info⟩ := out
        cases hget : s.assoc.get? p.assocId with
        | some entry => exact .through hget fun _ _ => id
        | none =>
          refine .opened (Outbound.connectUdp_selects hopen) fun id h hid => ?_
          rw [HashMap.get?_insert] at hid
          split at hid
          · next heq => exact .inr ⟨heq.symm, Option.some.inj hid⟩
          · exact .inl hid
  | dissociate assocId => exact .nothing fun id hop h => HashMap.get?_of_erase h

/-- Under a fixed snapshot, in every history of a SOCKS5 association that forwards
datagrams of one decision, and of a TUIC connection where each association id
does, what is forwarded leaves through a hop that the decision for its own host
selects. The relay is opened by the decision for one datagram, and later ones are
asked only whether they are blocked. -/
theorem udp_leaves_as_decided (snap : Snapshot) :
    (∀ user arrivals, SameDecision (socks5Decisions snap.decide user arrivals) →
        ∀ f ∈ socks5Forwarded snap.decide user arrivals, Selects (snap.decide f.user f.host) f.hop) ∧
      ∀ events, (∀ id, SameDecision (tuicDecisions snap.decide events id)) →
        ∀ f ∈ tuicForwarded snap.decide events, Selects (snap.decide f.user f.host) f.hop := by
  refine ⟨fun user arrivals hsame f hf => ?_, fun events hsame f hf => ?_⟩
  · obtain ⟨f', hf', -, hselects⟩ := picked_of_run (Association.receive_enters user) (fun _ => rfl) arrivals f hf
    rwa [hsame _ (mem_map_of_mem hf) _ (mem_map_of_mem hf')]
  · obtain ⟨sent, hsent, rfl⟩ := mem_map.1 hf
    obtain ⟨sent', hsent', hid, hselects⟩ :=
      picked_of_run Associations.step_enters (fun id => HashMap.get?_empty id) events sent hsent
    have hmem : ∀ sent'' ∈ tuicSent snap.decide events, sent''.1.assocId = sent.1.assocId →
        snap.decide sent''.1.user sent''.1.host ∈ tuicDecisions snap.decide events sent.1.assocId :=
      fun sent'' h heq => mem_map.2 ⟨sent'', mem_filter.2 ⟨h, by simpa using heq⟩, rfl⟩
    have hdecision := hsame _ _ (hmem sent hsent rfl) _ (hmem sent' hsent' hid)
    exact hdecision ▸ hselects

/-- A user whose policy sends `a.example` through the hop `h1` and the rest out
directly. -/
def hopSnapshot : Snapshot where
  version := 1
  schemaVersion := 1
  users := HashMap.empty.insert "u" ⟨[], none, 0, 0, 0, "main", ∅⟩
  policies := HashMap.empty.insert "main" (.fromRoutes .keep
    [⟨{ Policy.RuleSet.empty with domains := Policy.DomainMatcher.empty.add "full:a.example" },
      ["full:a.example"], .egress ⟨"e", .upstream ⟨.reverse, "h1", none, none, false, false⟩⟩⟩] .direct)
  frontendIndex := ∅

/-- A network where every hop opens at once. -/
def openCourse : Course where
  net _ :=
    { tcpConnect := fun _ _ => .ok ()
      serverName := fun _ => .ok ()
      handshake := fun _ _ => .ok ()
      peer := fun _ => ⟨[], none⟩
      reverse := some ⟨fun _ _ _ => .ok (), fun _ => .ok ()⟩
      subnetra := none
      subnetraTun := false }
  elapsed _ := 0
  timesOut _ := none

/-- A SOCKS5 datagram of the client for a domain, with one byte of data. -/
def datagramFor (host : Str) : Arrival :=
  ⟨[0, 0, 0, 3, UInt8.ofNat (utf8Bytes host).length] ++ utf8Bytes host ++ [0, 53, 7], .v4 0 4000, openCourse⟩

/-- The TUIC packet of association 5 for a domain, with one byte of data. -/
def packetFor (host : Str) : TuicEvent :=
  .command (some "u")
    ([5, 2, 0, 5, 0, 1, 1, 0, 0, 1, 0, UInt8.ofNat (utf8Bytes host).length] ++ utf8Bytes host ++ [0, 53, 7])

theorem sameDecision_replicate (n : Nat) (d : Decision) : SameDecision (replicate n d) :=
  fun _ h _ h' => (eq_of_mem_replicate h).trans (eq_of_mem_replicate h').symm

/-- Two datagrams for one host, and between them one for another host that comes from elsewhere. -/
theorem udp_leaves_as_decided_one_host :
    let arrivals := [datagramFor "a.example", { datagramFor "b.example" with src := .v4 0 4001 },
      datagramFor "a.example"]
    (socks5Forwarded hopSnapshot.decide "u" arrivals).length = 2 ∧
      (∀ f ∈ socks5Forwarded hopSnapshot.decide "u" arrivals, Selects (hopSnapshot.decide f.user f.host) f.hop) ∧
      ∀ f ∈ tuicForwarded hopSnapshot.decide [packetFor "a.example", .opened 0 openCourse],
        Selects (hopSnapshot.decide f.user f.host) f.hop := by
  intro arrivals
  have hsocks5 : socks5Decisions hopSnapshot.decide "u" arrivals =
      replicate 2 (.via ⟨.reverse, "h1", none, none, false, false⟩) := by decide +kernel
  have hsent : tuicSent hopSnapshot.decide [packetFor "a.example", .opened 0 openCourse] =
      [((⟨"u", 5, "a.example", 53, [7]⟩ : Packet), "h1".toList)] := by decide +kernel
  obtain ⟨hs, ht⟩ := udp_leaves_as_decided hopSnapshot
  refine ⟨by decide +kernel, hs _ _ (hsocks5 ▸ sameDecision_replicate _ _), ht _ fun id d hd d' hd' => ?_⟩
  have hone : ∀ d ∈ tuicDecisions hopSnapshot.decide [packetFor "a.example", .opened 0 openCourse] id,
      d = hopSnapshot.decide "u" "a.example" := by
    intro d hd
    obtain ⟨sent, hmem, rfl⟩ := mem_map.1 hd
    have hmem := mem_of_mem_filter hmem
    rw [hsent, mem_singleton] at hmem
    rw [hmem]
  rw [hone d hd, hone d' hd']

/-- A second datagram that the policy sends out directly leaves through the hop
that the first one opened, with either front end. -/
theorem direct_datagram_leaves_through_hop :
    hopSnapshot.decide "u" "b.example" = .direct ∧
      (socks5Forwarded hopSnapshot.decide "u"
          [datagramFor "a.example", datagramFor "b.example"]).map (fun f => (f.host, f.hop)) =
        [("a.example".toList, "h1".toList), ("b.example".toList, "h1".toList)] ∧
      (tuicForwarded hopSnapshot.decide
          [packetFor "a.example", .opened 0 openCourse, packetFor "b.example"]).map
          (fun f => (f.host, f.hop)) =
        [("a.example".toList, "h1".toList), ("b.example".toList, "h1".toList)] := by
  refine ⟨by decide +kernel, by decide +kernel, by decide +kernel⟩

end Rove.Inbound
