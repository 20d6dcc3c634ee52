/-
What a node does with a received datagram (`handle_inbound` and `relay` of
`subnetra/reactor.rs`), in every state it reaches: a hub passes a packet on to
the one peer that owns its destination, as it was received, and a spoke passes
nothing on.
-/
import Rove.Subnetra.Reactor
import Rove.Subnetra.Sealing

namespace Rove.Subnetra

open List
open PeerTable (Configured Authentic)

section
variable (prims : Primitives) (cfg : RuntimeConfig) (t : PeerTable) (datagram : Bytes)

/-- The datagram was accepted as data from the peer at `i`, from whose prefix
the packet in it is. -/
def AcceptedFrom (i : Nat) (p : Peer) (inner : Bytes) : Prop :=
  ∃ header, t.Authentic prims datagram i p header inner ∧ header.isKeepalive = false ∧ p.Owns inner

/-- Why something is sent on: the packet was accepted, is for the prefix of
another peer, and is sealed for that peer alone. -/
structure Forwarded (peerId : BitVec 16) (inner sent : Bytes) (endpoint : SocketAddr) : Prop where
  hub : cfg.mode = .hub
  accepted : ∃ i p, AcceptedFrom prims t datagram i p inner ∧ p.id ≠ peerId
  routed : ∃ dst, ipv4Dst inner = some dst ∧ dst ≠ cfg.overlayIp ∧ t.route dst = some peerId
  sealed : ∃ (j : Nat) (r : RuntimePeer) (q : Peer) (header : Header), cfg.peers[j]? = some r ∧ r.id = peerId ∧
    (∀ s ∈ cfg.peers, s.id = peerId → s = r) ∧ t.peers[j]? = some q ∧ q.endpoint = some endpoint ∧
    openDatagram prims (linkKey prims r.psk cfg.localId r.id) cfg.obfuscate sent = some (header, inner)

/-- What an effect of a datagram must be. -/
def Effect.Justified : Effect → Prop
  | .toLocal inner => ipv4Dst inner = some cfg.overlayIp ∧ ∃ i p, AcceptedFrom prims t datagram i p inner
  | .send peerId flags inner sent endpoint => flags = 0 ∧ Forwarded prims cfg t datagram peerId inner sent endpoint

end

variable {prims : Primitives} {cfg : RuntimeConfig} {t t' : PeerTable}

theorem PeerTable.Configured.route_eq (h : Configured prims cfg t) (h' : Configured prims cfg t') (a : Ipv4Addr) :
    t.route a = t'.route a := by
  rcases h.route_spec a with ⟨hnone, hall⟩ | ⟨j, q, hq, hqa, hroute, hbest⟩
  · rcases h'.route_spec a with ⟨hnone', -⟩ | ⟨j', q', hq', hqa', -, -⟩
    · rw [hnone, hnone']
    · exact absurd (hqa'.symm.trans (hall q' (mem_of_getElem? hq'))) (by decide)
  · rcases h'.route_spec a with ⟨-, hall⟩ | ⟨j', q', hq', hqa', hroute', hbest'⟩
    · exact absurd (hqa.symm.trans (hall q (mem_of_getElem? hq))) (by decide)
    · obtain rfl := hbest.unique hbest' hq hq' hqa hqa'
      obtain rfl := Option.some.inj (hq.symm.trans hq')
      rw [hroute, hroute']

theorem PeerTable.Configured.peer_of_ingest (h : Configured prims cfg t) {datagram inner src i j p q' header}
    (hauth : t.Authentic prims datagram i p header inner) (hij : i ≠ j)
    (hq' : (t.ingest prims datagram src).1.peers[j]? = some q') : t.peers[j]? = some q' := by
  obtain ⟨r, hr, -⟩ := (h.ingest datagram src).exists_peer hq'
  obtain ⟨q, hq, -⟩ := h.exists_config hr
  rcases h.ingest_peer hq hq' with rfl | ⟨header', inner', hauth', -⟩
  · exact hq
  · exact absurd (Prod.mk.inj (Option.some.inj (hauth.1.symm.trans hauth'.1))).1 hij

theorem PeerTable.Configured.accepted_of_data (h : Configured prims cfg t) {datagram inner src peerId}
    (hdata : t.ingest prims datagram src = (t', .data peerId inner)) :
    ∃ i p, AcceptedFrom prims t datagram i p inner ∧ p.id = peerId := by
  rcases t.ingest_cases datagram src with heq | ⟨i, header, p, rx, found, hsel, hp, hacc,
    ⟨_, heq⟩ | ⟨hka, howns, heq⟩ | ⟨_, heq⟩⟩
  · rw [hdata] at heq
    cases heq
  · rw [hdata] at heq
    cases heq
  · rw [hdata] at heq
    obtain ⟨rfl, rfl⟩ := Ingest.data.inj (Prod.mk.inj heq).2
    exact ⟨i, p, ⟨header, h.authentic_iff.2 ⟨hsel, hp, rx, hacc⟩, hka, howns⟩, rfl⟩
  · rw [hdata] at heq
    cases heq

/-- Relaying to the peer that is routed to, if it is another one. -/
theorem Reactor.relay_justified (haead : AeadCorrect prims) {localEpoch datagram inner src peerId dst}
    (hnodup : (cfg.peers.map (·.id)).Nodup) (hconf : Configured prims cfg t)
    (htx : t.Transmits prims cfg localEpoch) (hdata : t.ingest prims datagram src = (t', .data peerId inner))
    (hhub : cfg.mode = .hub) (hdst : ipv4Dst inner = some dst) (hother : dst ≠ cfg.overlayIp) :
    let effects := (relay prims ⟨t', cfg.mode, cfg.overlayIp⟩ peerId dst inner).2
    effects.length ≤ 1 ∧ ∀ e ∈ effects, e.Justified prims cfg t datagram := by
  have ht' : (t.ingest prims datagram src).1 = t' := by rw [hdata]
  have hconf' : Configured prims cfg t' := ht' ▸ hconf.ingest datagram src
  have htx' : t'.Transmits prims cfg localEpoch := ht' ▸ htx.ingest datagram src
  have hnothing : ([] : List Effect).length ≤ 1 ∧ ∀ e ∈ ([] : List Effect), e.Justified prims cfg t datagram :=
    ⟨Nat.zero_le _, fun e he => absurd he not_mem_nil⟩
  rw [relay]
  split
  · exact hnothing
  · next toPeer hroute =>
    split
    · exact hnothing
    · next hreflect =>
      rw [sealAndSend]
      split
      · next table sent endpoint hseal =>
        refine ⟨Nat.le_refl _, fun e he => ?_⟩
        rw [mem_singleton.1 he]
        obtain ⟨i, p, haccepted, hid⟩ := hconf.accepted_of_data hdata
        obtain ⟨j, r, q, hr, hrid, hq, hendpoint, hopen⟩ := PeerTable.openDatagram_sealFor haead hconf' htx' hseal
        obtain ⟨header, hauth, hka, howns⟩ := haccepted
        have hij : i ≠ j := by
          rintro rfl
          obtain ⟨r', hr', hof⟩ := hconf.exists_peer hauth.2.1
          obtain rfl := Option.some.inj (hr.symm.trans hr')
          exact hreflect (hrid.symm.trans (hof.id.symm.trans hid))
        refine ⟨rfl, hhub, ⟨i, p, ⟨header, hauth, hka, howns⟩, fun heq => hreflect (heq.symm.trans hid)⟩,
          ⟨dst, hdst, hother, ?_⟩, j, r, q, _, hr, hrid, fun s hs hsid => ?_, ?_, hendpoint, hopen⟩
        · rw [hconf.route_eq hconf' dst]
          exact hroute
        · exact inj_on_of_nodup_map hnodup hs (mem_of_getElem? hr) (hsid.trans hrid.symm)
        · exact hconf.peer_of_ingest hauth hij (ht'.symm ▸ hq)
      · exact hnothing

/-- In every mesh that validation accepts and every state of a node, a received
datagram has one effect at most: the packet in it is handed up if it is for the
node itself, or a hub seals it as it is for the peer that owns its destination,
who is never the one it came from. -/
theorem inbound_forwards_only_routed (prims : Primitives) (haead : AeadCorrect prims) (parseIpv4Net : Str → Res Ipv4Net)
    (mesh : SubnetraConfig) (cfg : RuntimeConfig) (hmesh : mesh.toRuntime parseIpv4Net = .ok cfg)
    (localEpoch : BitVec 64)
    (ops : List TableOp) (datagram : Bytes) (src : SocketAddr) :
    let t := PeerTable.reach prims cfg localEpoch ops
    let effects := (Reactor.handleInbound prims ⟨t, cfg.mode, cfg.overlayIp⟩ datagram src).2
    effects.length ≤ 1 ∧ ∀ e ∈ effects, e.Justified prims cfg t datagram := by
  intro t effects
  have hconf : Configured prims cfg t := PeerTable.configured_reach cfg localEpoch ops
  have htx : t.Transmits prims cfg localEpoch := PeerTable.transmits_reach cfg localEpoch ops
  have hnothing : ([] : List Effect).length ≤ 1 ∧ ∀ e ∈ ([] : List Effect), e.Justified prims cfg t datagram :=
    ⟨Nat.zero_le _, fun e he => absurd he not_mem_nil⟩
  show (Reactor.handleInbound prims ⟨t, cfg.mode, cfg.overlayIp⟩ datagram src).2.length ≤ 1 ∧
    ∀ e ∈ (Reactor.handleInbound prims ⟨t, cfg.mode, cfg.overlayIp⟩ datagram src).2, e.Justified prims cfg t datagram
  rw [Reactor.handleInbound]
  dsimp only
  split
  · next t' peerId inner hdata =>
    split
    · exact hnothing
    · next dst hdst =>
      split
      · next hlocal =>
        refine ⟨Nat.le_refl _, fun e he => ?_⟩
        rw [mem_singleton.1 he]
        obtain ⟨i, p, haccepted, -⟩ := hconf.accepted_of_data hdata
        exact ⟨hlocal ▸ hdst, i, p, haccepted⟩
      · next hother =>
        split
        · next hhub => exact Reactor.relay_justified haead (toRuntime_peers hmesh).1 hconf htx hdata hhub hdst hother
        · exact hnothing
  · exact hnothing

/-- What the peer `id` of the nested mesh seals first in epoch 9, where `b` fills its key. -/
def taggedDatagram (b : UInt8) (id : BitVec 16) (flags : UInt8) (inner : Bytes) : Bytes :=
  let link := linkKey taggedPrimitives (replicate keyLen b) id 1
  sealDatagram taggedPrimitives link (sessionKey taggedPrimitives link 9) id 9 1 flags inner false

/-- An inner packet from `10.0.0.9` to `10.0.0.3`. -/
def packetToNarrow : Bytes := [0x45, 0, 0, 20, 0, 0, 0, 0, 64, 17, 0, 0, 10, 0, 0, 9, 10, 0, 0, 3]

/-- The narrow peer is known by a keepalive; a packet for it from the wide one
is sealed for it. -/
theorem inbound_forwards_narrow :
    let endpoint := SocketAddr.v4 (Ipv4Addr.new 198 51 100 9) 40000
    let t := PeerTable.reach taggedPrimitives nestedRuntime 7 [.ingest (taggedDatagram 0x66 3 keepalive []) endpoint]
    AeadCorrect taggedPrimitives ∧ nestedMesh.toRuntime readIpv4Net = .ok nestedRuntime ∧
      ∃ sent, Forwarded taggedPrimitives nestedRuntime t
      (taggedDatagram 0x55 2 0 packetToNarrow) 3 packetToNarrow sent endpoint := by
  intro endpoint t
  obtain ⟨-, hall⟩ := inbound_forwards_only_routed taggedPrimitives aeadCorrect_tagged
    readIpv4Net nestedMesh nestedRuntime toRuntime_nestedMesh 7 [.ingest (taggedDatagram 0x66 3 keepalive []) endpoint]
    (taggedDatagram 0x55 2 0 packetToNarrow)
    (.v4 (Ipv4Addr.new 198 51 100 7) 40001)
  let link := linkKey taggedPrimitives (replicate keyLen 0x66) 1 3
  let sent := sealDatagram taggedPrimitives link (sessionKey taggedPrimitives link 7) 1 7 1 0 packetToNarrow false
  have hsent : (Reactor.handleInbound taggedPrimitives ⟨t, .hub, Ipv4Addr.new 10 0 0 1⟩
      (taggedDatagram 0x55 2 0 packetToNarrow)
      (.v4 (Ipv4Addr.new 198 51 100 7) 40001)).2 = [.send 3 0 packetToNarrow sent endpoint] := by decide +kernel
  obtain ⟨-, hforwarded⟩ := hall (.send 3 0 packetToNarrow sent endpoint) (hsent ▸ mem_singleton_self _)
  exact ⟨aeadCorrect_tagged, toRuntime_nestedMesh, sent, hforwarded⟩

end Rove.Subnetra
