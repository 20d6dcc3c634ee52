/-
Which peer an address is routed to that was accepted as the source of an inner
packet (`PeerTable::ingest`, `PeerTable::route`), in every mesh that
`to_runtime` accepts. Prefixes may nest: a packet is accepted by the prefix of
its sender alone, and routed by the longest prefix of all.
-/
import Rove.Subnetra.Ingress

namespace Rove.Subnetra

open List

/-- No peer that owns the address has a longer prefix than the peer at `i`, and
none after it an equal one. -/
def LongestLast (peers : List RuntimePeer) (a : Ipv4Addr) (i : Nat) (r : RuntimePeer) : Prop :=
  ∀ (k : Nat) (s : RuntimePeer), peers[k]? = some s → s.allowedSrc.contains a = true →
    s.allowedSrc.prefixLen.val ≤ r.allowedSrc.prefixLen.val ∧
      (s.allowedSrc.prefixLen.val = r.allowedSrc.prefixLen.val → k ≤ i)

theorem LongestLast.unique {peers a i j r s}
    (hr : LongestLast peers a i r) (hs : LongestLast peers a j s) (hi : peers[i]? = some r) (hj : peers[j]? = some s)
    (hra : r.allowedSrc.contains a = true) (hsa : s.allowedSrc.contains a = true) : i = j := by
  obtain ⟨hle, hlast⟩ := hs i r hi hra
  obtain ⟨hle', hlast'⟩ := hr j s hj hsa
  have heq := Nat.le_antisymm hle hle'
  exact Nat.le_antisymm (hlast heq) (hlast' heq.symm)

namespace PeerTable

variable {prims : Primitives} {cfg : RuntimeConfig} {t : PeerTable}

theorem Configured.route_spec (h : Configured prims cfg t) (a : Ipv4Addr) :
    (t.route a = none ∧ ∀ r ∈ cfg.peers, r.allowedSrc.contains a = false) ∨
      ∃ (j : Nat) (q : RuntimePeer), cfg.peers[j]? = some q ∧ q.allowedSrc.contains a = true ∧
        t.route a = some q.id ∧ LongestLast cfg.peers a j q := by
  rcases maxByKey_filter (fun p : Peer => p.allowedSrc.prefixLen.val) (·.allowedSrc.contains a) t.peers with
    ⟨hnone, hall⟩ | ⟨j, m, hmax, hj, hm, hbest⟩
  · refine .inl ⟨by rw [route, hnone]; rfl, fun r hr => ?_⟩
    obtain ⟨k, hk⟩ := mem_iff_getElem?.1 hr
    obtain ⟨p, hp, hof⟩ := h.exists_config hk
    rw [← hof.allowedSrc]
    exact hall p (mem_of_getElem? hp)
  · obtain ⟨q, hq, hof⟩ := h.exists_peer hj
    refine .inr ⟨j, q, hq, hof.allowedSrc ▸ hm, by rw [route, hmax, Option.map_some, hof.id], fun k s hs hsa => ?_⟩
    obtain ⟨p, hp, hof'⟩ := h.exists_config hs
    have := hbest k p hp (by rw [hof'.allowedSrc]; exact hsa)
    rwa [hof'.allowedSrc, hof.allowedSrc] at this

end PeerTable

/-- In every mesh that validation accepts, an inner source address that was
accepted from a peer is routed, from then on, to the peer with the longest
prefix that has it, the last listed of equals. That is the sender exactly when
no other peer that has the address has a longer prefix, or an equal one and
comes later. -/
theorem route_of_ingest (prims : Primitives) (parseIpv4Net : Str → Res Ipv4Net) (mesh : SubnetraConfig)
    (cfg : RuntimeConfig) (hmesh : mesh.toRuntime parseIpv4Net = .ok cfg) (localEpoch : BitVec 64)
    (before later : List TableOp) (datagram : Bytes) (src : SocketAddr) (peer : BitVec 16) (packet : Bytes)
    (hdata : ((PeerTable.reach prims cfg localEpoch before).ingest prims datagram src).2 = .data peer packet) :
    let t := PeerTable.reach prims cfg localEpoch (before ++ .ingest datagram src :: later)
    ∃ (a : Ipv4Addr) (i j : Nat) (r q : RuntimePeer), ipv4Src packet = some a ∧
      cfg.peers[i]? = some r ∧ r.id = peer ∧ r.allowedSrc.contains a = true ∧
      cfg.peers[j]? = some q ∧ q.allowedSrc.contains a = true ∧ LongestLast cfg.peers a j q ∧ t.route a = some q.id ∧
      (t.route a = some peer ↔ LongestLast cfg.peers a i r) := by
  intro t
  have hconf : PeerTable.Configured prims cfg (PeerTable.reach prims cfg localEpoch before) :=
    PeerTable.configured_reach cfg localEpoch before
  have hconf' : PeerTable.Configured prims cfg t := PeerTable.configured_reach cfg localEpoch _
  rcases PeerTable.ingest_cases (PeerTable.reach prims cfg localEpoch before) datagram src with
    heq | ⟨i, header, p, rx, inner, _, hp, _, ⟨_, heq⟩ | ⟨_, ⟨a, ha, hin⟩, heq⟩ | ⟨_, heq⟩⟩
  · rw [heq] at hdata
    cases hdata
  · rw [heq] at hdata
    cases hdata
  · rw [heq] at hdata
    obtain ⟨rfl, rfl⟩ := Ingest.data.inj hdata
    obtain ⟨r, hr, hof⟩ := hconf.exists_peer hp
    rw [hof.allowedSrc] at hin
    rcases hconf'.route_spec a with ⟨_, hall⟩ | ⟨j, q, hq, hqa, hroute, hbest⟩
    · exact absurd (hin.symm.trans (hall r (mem_of_getElem? hr))) (by decide)
    · refine ⟨a, i, j, r, q, ha, hr, hof.id.symm, hin, hq, hqa, hbest, hroute, fun hsame => ?_, fun hlong => ?_⟩
      · -- ids are unique, so the peer with the sender's id is the sender
        have hids : (cfg.peers.map (·.id))[j]? = (cfg.peers.map (·.id))[i]? := by
          rw [getElem?_map, getElem?_map, hq, hr, Option.map_some, Option.map_some]
          exact congrArg some ((Option.some.inj (hroute.symm.trans hsame)).trans hof.id)
        have hj : j < (cfg.peers.map (·.id)).length := by
          rw [length_map]
          exact (List.getElem?_eq_some_iff.1 hq).1
        obtain rfl := (getElem?_inj hj (toRuntime_peers hmesh).1).1 hids
        obtain rfl := Option.some.inj (hq.symm.trans hr)
        exact hbest
      · obtain rfl := hbest.unique hlong hq hr hqa hin
        obtain rfl := Option.some.inj (hq.symm.trans hr)
        rw [hroute, hof.id]
  · rw [heq] at hdata
    cases hdata

/-- A reader of `addr/len`. -/
def readIpv4Net (s : Str) : Res Ipv4Net :=
  match IpText.parseWith (fun s => do
    let (a, s) ← IpText.readIpv4 s
    let s ← IpText.readGivenChar '/' s
    let (n, s) ← IpText.readNumber 10 2 true 33 s
    return (Ipv4Net.ofLen a n, s)) s with
  | some net => .ok net
  | none => .error "invalid IP address syntax"

/-- A hub where one peer owns the overlay and another one address of it. -/
def nestedMesh : SubnetraConfig where
  mode := "hub"
  localId := 1
  listen := "0.0.0.0:18020"
  overlayCidr := "10.0.0.1/24"
  obfuscate := false
  proxyProtocol := "http"
  proxyPort := 8080
  peers :=
    [⟨2, replicate 64 '5', "10.0.0.0/24", none, "wide"⟩,
      ⟨3, replicate 64 '6', "10.0.0.3/32", none, "narrow"⟩]

def nestedRuntime : RuntimeConfig where
  mode := .hub
  localId := 1
  listen := .v4 0 18020
  overlay := .ofLen (Ipv4Addr.new 10 0 0 1) 24
  obfuscate := false
  keepaliveSecs := 25
  mtu := innerMtu
  device := .netstack (some ("http", 8080))
  peers :=
    [⟨2, replicate 32 0x55, .ofLen (Ipv4Addr.new 10 0 0 0) 24, none, "wide"⟩,
      ⟨3, replicate 32 0x66, .ofLen (Ipv4Addr.new 10 0 0 3) 32, none, "narrow"⟩]

theorem toRuntime_nestedMesh : nestedMesh.toRuntime readIpv4Net = .ok nestedRuntime := by decide +kernel

theorem route_of_ingest_narrow :
    let prims := solePrimitives (sampleKey 0x66 3) 1 (packetFrom 3)
    (PeerTable.reach prims nestedRuntime 7
      [.ingest (sampleDatagram 0x66 3 0 (packetFrom 3) false) (.v4 (Ipv4Addr.new 198 51 100 9) 40000)]).route
        (Ipv4Addr.new 10 0 0 3) = some 3 := by
  intro prims
  obtain ⟨a, i, _, r, _, ha, hr, hid, _, _, _, _, _, hiff⟩ :=
    route_of_ingest prims readIpv4Net nestedMesh nestedRuntime toRuntime_nestedMesh 7 [] []
      (sampleDatagram 0x66 3 0 (packetFrom 3) false) (.v4 (Ipv4Addr.new 198 51 100 9) 40000) 3 (packetFrom 3)
      (by decide +kernel)
  have hsrc : ipv4Src (packetFrom 3) = some (Ipv4Addr.new 10 0 0 3) := by decide +kernel
  obtain rfl := Option.some.inj (ha.symm.trans hsrc)
  refine hiff.2 fun k s hs _ => ?_
  obtain _ | _ | i := i
  · cases hr
    cases hid
  · cases hr
    obtain _ | _ | k := k
    · cases hs
      decide
    · cases hs
      decide
    · cases hs
  · cases hr

/-- A packet of the narrow peer's address is accepted from the wide one; the
reply goes to the narrow one. -/
theorem reply_routed_to_other_peer :
    let prims := solePrimitives (sampleKey 0x55 2) 1 (packetFrom 3)
    let datagram := sampleDatagram 0x55 2 0 (packetFrom 3) false
    let src := SocketAddr.v4 (Ipv4Addr.new 198 51 100 9) 40000
    nestedMesh.toRuntime readIpv4Net = .ok nestedRuntime ∧
      ((PeerTable.reach prims nestedRuntime 7 []).ingest prims datagram src).2 = .data 2 (packetFrom 3) ∧
      ipv4Src (packetFrom 3) = some (Ipv4Addr.new 10 0 0 3) ∧
      (PeerTable.reach prims nestedRuntime 7 [.ingest datagram src]).route (Ipv4Addr.new 10 0 0 3) = some 3 := by
  exact ⟨toRuntime_nestedMesh, by decide +kernel, by decide +kernel, by decide +kernel⟩

end Rove.Subnetra
