/-
The peers of a mesh node (`subnetra/peer.rs`): which peer a datagram is from,
what it does to that peer, and which peer an inner address is routed to.

`ingest_cases` says once what a datagram can do, `configured_reach` what every
run of the table's operations keeps.
-/
import Rove.Base.HashMap
import Rove.Base.Lists
import Rove.Subnetra.Config
import Rove.Subnetra.Session

namespace Rove.Subnetra

open List

structure Peer where
  id : BitVec 16
  name : Str
  allowedSrc : Ipv4Net
  endpoint : Option SocketAddr
  rxLinkKey : Bytes
  rx : RxSession
  tx : TxSession

inductive Ingest where
  | data (peerId : BitVec 16) (inner : Bytes)
  | keepalive (peerId : BitVec 16)
  | drop
  deriving DecidableEq

/-- `PeerTable`. An id is looked up to the place of a peer with that id. -/
@[ext]
structure PeerTable where
  localId : BitVec 16
  obfuscate : Bool
  peers : List Peer
  byId : HashMap (BitVec 16) Nat
  index : ∀ id i, byId.get? id = some i → (peers.map (·.id))[i]? = some id

/-- The address at an offset of a complete inner IPv4 packet. -/
def ipv4At (offset : Nat) (packet : Bytes) : Option Ipv4Addr :=
  if packet.length < 20 || packet.getD 0 0 >>> 4 != 4 then none
  else some (BitVec.ofNat 32 (ofBeBytes ((packet.drop offset).take 4)))

def ipv4Src (packet : Bytes) : Option Ipv4Addr := ipv4At 12 packet

def ipv4Dst (packet : Bytes) : Option Ipv4Addr := ipv4At 16 packet

namespace PeerTable

/-! ## The table of a configuration -/

/-- The places of the peers by their ids; the last of equal ids stays. -/
def indexById (ids : List (BitVec 16)) : HashMap (BitVec 16) Nat :=
  ids.zipIdx.foldl (fun m entry => m.insert entry.1 entry.2) .empty

theorem get?_indexById {ids id i} (h : (indexById ids).get? id = some i) :
    ids[i]? = some id := by
  rcases HashMap.get?_foldl_insert h with h | h
  · simp [HashMap.get?, HashMap.empty] at h
  · exact mem_zipIdx_iff_getElem?.1 h

variable (prims : Primitives)

/-- The peer of a configuration entry, on a node with this id and boot epoch. -/
def newPeer (cfg : RuntimeConfig) (localEpoch : BitVec 64) (p : RuntimePeer) : Peer :=
  let rxLinkKey := linkKey prims p.psk p.id cfg.localId
  let txLinkKey := linkKey prims p.psk cfg.localId p.id
  { id := p.id
    name := p.name
    allowedSrc := p.allowedSrc
    endpoint := p.endpoint
    rxLinkKey
    rx := RxSession.new rxLinkKey
    tx := TxSession.new prims txLinkKey cfg.localId localEpoch cfg.obfuscate }

def new (cfg : RuntimeConfig) (localEpoch : BitVec 64) : PeerTable where
  localId := cfg.localId
  obfuscate := cfg.obfuscate
  peers := cfg.peers.map (newPeer prims cfg localEpoch)
  byId := indexById (cfg.peers.map (·.id))
  index := fun id i h => by
    have hids : (cfg.peers.map (newPeer prims cfg localEpoch)).map (·.id) = cfg.peers.map (·.id) := by
      rw [map_map]
      rfl
    rw [hids]
    exact get?_indexById h

/-! ## The operations -/

/-- The table with one peer changed, but for its id. -/
def modifyPeer (t : PeerTable) (i : Nat) (f : Peer → Peer) (hf : ∀ p, (f p).id = p.id) : PeerTable :=
  { t with
    peers := t.peers.modify i f
    index := fun id j h => by
      have hids : (t.peers.modify i f).map (·.id) = t.peers.map (·.id) := by
        refine ext_getElem? fun k => ?_
        rw [getElem?_map, getElem?_map, getElem?_modify]
        cases t.peers[k]? with
        | none => rfl
        | some p =>
          by_cases hik : i = k
          · simp [hik, hf]
          · simp [hik]
      rw [hids]
      exact t.index id j h }

/-- `self.peers[idx].rx = rx`. -/
def setRx (t : PeerTable) (i : Nat) (rx : RxSession) : PeerTable := t.modifyPeer i ({ · with rx }) fun _ => rfl

/-- `self.peers[idx].endpoint = Some(src)`. -/
def setEndpoint (t : PeerTable) (i : Nat) (src : SocketAddr) : PeerTable :=
  t.modifyPeer i ({ · with endpoint := some src }) fun _ => rfl

/-- `self.peers[idx].tx = tx`. -/
def setTx (t : PeerTable) (i : Nat) (tx : TxSession) : PeerTable := t.modifyPeer i ({ · with tx }) fun _ => rfl

/-- The trial over the peers of `select`: the first one under whose pad the
header is that peer's own. -/
def selectMasked (datagram tag : Bytes) : List (Peer × Nat) → Option (Nat × Header)
  | [] => none
  | (p, i) :: rest => do
    let header ← Header.parse (demaskHeader (datagram.take headerLen) (obfuscationPad prims p.rxLinkKey tag))
    if header.version = wireVersion ∧ header.keyId = p.id ∧ header.isValid = true then some (i, header)
    else selectMasked datagram tag rest

def select (t : PeerTable) (datagram tag : Bytes) : Option (Nat × Header) :=
  if t.obfuscate then selectMasked prims datagram tag t.peers.zipIdx
  else do
    let header ← Header.parse (datagram.take headerLen)
    let idx ← t.byId.get? header.keyId
    if header.isValid then some (idx, header) else none

/-- The peer a datagram is from and its header: none also for a datagram too
short to have a tag. -/
def selected (t : PeerTable) (datagram : Bytes) : Option (Nat × Header) := do
  let tag ← datagramTag datagram
  t.select prims datagram tag

/-- The end of `ingest`, for a datagram that was taken in. -/
def learn (t : PeerTable) (idx : Nat) (peer : Peer) (header : Header) (inner : Bytes) (src : SocketAddr) :
    PeerTable × Ingest :=
  if header.isKeepalive then (t.setEndpoint idx src, .keepalive peer.id)
  else
    match ipv4Src inner with
    | none => (t, .drop)
    | some innerSrc =>
      if peer.allowedSrc.contains innerSrc then (t.setEndpoint idx src, .data peer.id inner) else (t, .drop)

def ingest (t : PeerTable) (datagram : Bytes) (src : SocketAddr) : PeerTable × Ingest :=
  match t.selected prims datagram with
  | none => (t, .drop)
  | some (idx, header) =>
    match t.peers[idx]? with
    | none => (t, .drop)  -- never: `select` gives the place of a peer
    | some peer =>
      match peer.rx.accept prims header (datagram.drop headerLen) with
      | (rx, .accept inner) => (t.setRx idx rx).learn idx peer header inner src
      | (rx, .drop) => (t.setRx idx rx, .drop)

def route (t : PeerTable) (dst : Ipv4Addr) : Option (BitVec 16) :=
  (maxByKey (·.allowedSrc.prefixLen.val) (t.peers.filter (·.allowedSrc.contains dst))).map (·.id)

def sealFor (t : PeerTable) (peerId : BitVec 16) (flags : UInt8) (inner : Bytes) :
    PeerTable × Option (Bytes × SocketAddr) :=
  match t.byId.get? peerId with
  | none => (t, none)
  | some idx =>
    match t.peers[idx]? with
    | none => (t, none)  -- never, by `index`
    | some peer =>
      match peer.endpoint with
      | none => (t, none)
      | some endpoint =>
        let (tx, datagram) := peer.tx.seal prims flags inner
        (t.setTx idx tx, some (datagram, endpoint))

/-! ## One datagram -/

variable {prims}

theorem getElem?_modifyPeer (t : PeerTable) (i : Nat) (f : Peer → Peer) (hf : ∀ p, (f p).id = p.id) (j : Nat) :
    (t.modifyPeer i f hf).peers[j]? = t.peers[j]?.map fun p => if i = j then f p else p := getElem?_modify ..

theorem setRx_self {t : PeerTable} {i : Nat} {peer : Peer} (h : t.peers[i]? = some peer) : t.setRx i peer.rx = t := by
  refine PeerTable.ext rfl rfl (ext_getElem? fun j => ?_) rfl
  rw [setRx, getElem?_modifyPeer]
  by_cases hij : i = j
  · rw [← hij, h, Option.map_some, if_pos rfl]
  · cases t.peers[j]? with
    | none => rfl
    | some p => rw [Option.map_some, if_neg hij]

/-- Everything `ingest` can do: drop the datagram and change nothing, or take it
in as the selected peer's and learn the endpoint from a keepalive or from a
packet of the peer's prefix. -/
theorem ingest_cases (t : PeerTable) (datagram : Bytes) (src : SocketAddr) :
    t.ingest prims datagram src = (t, .drop) ∨
      ∃ idx header peer rx inner, t.selected prims datagram = some (idx, header) ∧ t.peers[idx]? = some peer ∧
        peer.rx.accept prims header (datagram.drop headerLen) = (rx, .accept inner) ∧
        ((header.isKeepalive = true ∧ t.ingest prims datagram src =
            ((t.setRx idx rx).setEndpoint idx src, .keepalive peer.id)) ∨
          (header.isKeepalive = false ∧ (∃ a, ipv4Src inner = some a ∧ peer.allowedSrc.contains a = true) ∧
            t.ingest prims datagram src = ((t.setRx idx rx).setEndpoint idx src, .data peer.id inner)) ∨
          (header.isKeepalive = false ∧ t.ingest prims datagram src = (t.setRx idx rx, .drop))) := by
  unfold ingest
  cases hsel : t.selected prims datagram with
  | none => exact .inl rfl
  | some sel =>
    obtain ⟨idx, header⟩ := sel
    cases hpeer : t.peers[idx]? with
    | none => exact .inl (by simp only [hpeer])
    | some peer =>
      cases hacc : peer.rx.accept prims header (datagram.drop headerLen) with
      | mk rx outcome =>
        cases outcome with
        | drop =>
          obtain rfl := RxSession.accept_drop hacc
          exact .inl (by simp only [hpeer, hacc, setRx_self hpeer])
        | accept inner =>
          refine .inr ⟨idx, header, peer, rx, inner, rfl, hpeer, hacc, ?_⟩
          simp only [hpeer, hacc, learn]
          cases hka : header.isKeepalive with
          | true => exact .inl ⟨rfl, rfl⟩
          | false =>
            refine .inr ?_
            cases hsrc : ipv4Src inner with
            | none => exact .inr ⟨rfl, rfl⟩
            | some a =>
              cases hin : peer.allowedSrc.contains a with
              | true => exact .inl ⟨rfl, ⟨a, rfl, hin⟩, by simp only [hin]; rfl⟩
              | false => exact .inr ⟨rfl, by simp only [hin]; rfl⟩

theorem selectMasked_valid {datagram tag ps i header}
    (h : selectMasked prims datagram tag ps = some (i, header)) : header.isValid = true := by
  induction ps with
  | nil => cases h
  | cons p ps ih =>
    rw [selectMasked] at h
    obtain ⟨header', _, h⟩ := Option.bind_eq_some_iff.1 h
    split at h
    · next hvalid =>
      obtain ⟨_, rfl⟩ := Prod.mk.inj (Option.some.inj h)
      exact hvalid.2.2
    · exact ih h

/-- A datagram that is from some peer is at least a header and a tag, and the
header is valid. -/
theorem selected_valid {t : PeerTable} {datagram : Bytes} {i : Nat} {header : Header}
    (h : t.selected prims datagram = some (i, header)) :
    headerLen + tagLen ≤ datagram.length ∧ header.isValid = true := by
  obtain ⟨tag, htag, h⟩ := Option.bind_eq_some_iff.1 h
  have hlen : headerLen + tagLen ≤ datagram.length := by
    unfold datagramTag at htag
    split at htag
    · cases htag
    · next hlen => exact Nat.le_of_not_lt hlen
  refine ⟨hlen, ?_⟩
  unfold select at h
  split at h
  · exact selectMasked_valid h
  · obtain ⟨_, _, h⟩ := Option.bind_eq_some_iff.1 h
    obtain ⟨_, _, h⟩ := Option.bind_eq_some_iff.1 h
    split at h
    · next hvalid =>
      obtain ⟨_, rfl⟩ := Prod.mk.inj (Option.some.inj h)
      exact hvalid
    · cases h

end PeerTable

/-! ## Every run of a table -/

inductive TableOp where
  | ingest (datagram : Bytes) (src : SocketAddr)
  | sealFor (peerId : BitVec 16) (flags : UInt8) (inner : Bytes)

inductive TableAnswer where
  | ingested (outcome : Ingest)
  | sealed (datagram : Option (Bytes × SocketAddr))

namespace PeerTable

variable (prims)

def step (t : PeerTable) : TableOp → PeerTable × TableAnswer
  | .ingest datagram src => ((t.ingest prims datagram src).1, .ingested (t.ingest prims datagram src).2)
  | .sealFor peerId flags inner =>
    ((t.sealFor prims peerId flags inner).1, .sealed (t.sealFor prims peerId flags inner).2)

/-- The table after a run of a node with this configuration and boot epoch. -/
def reach (cfg : RuntimeConfig) (localEpoch : BitVec 64) (ops : List TableOp) : PeerTable :=
  runState (step prims) (new prims cfg localEpoch) ops

/-- A peer is the configured one: its id, prefix and key are, and its receive
session is one of that key. -/
structure OfConfig (cfg : RuntimeConfig) (r : RuntimePeer) (p : Peer) : Prop where
  id : p.id = r.id
  allowedSrc : p.allowedSrc = r.allowedSrc
  rxLinkKey : p.rxLinkKey = linkKey prims r.psk r.id cfg.localId
  rxKey : p.rx.rxLinkKey = p.rxLinkKey
  keyOK : p.rx.KeyOK prims

/-- The peers are the configured ones, in their order. -/
structure Configured (cfg : RuntimeConfig) (t : PeerTable) : Prop where
  length : t.peers.length = cfg.peers.length
  peer : ∀ {i : Nat} {r : RuntimePeer} {p : Peer}, cfg.peers[i]? = some r →
    t.peers[i]? = some p → OfConfig prims cfg r p

variable {prims} {cfg : RuntimeConfig} {t : PeerTable}

theorem Configured.exists_peer (h : Configured prims cfg t) {i : Nat} {p : Peer} (hp : t.peers[i]? = some p) :
    ∃ r, cfg.peers[i]? = some r ∧ OfConfig prims cfg r p := by
  have hi : i < cfg.peers.length := h.length ▸ (List.getElem?_eq_some_iff.1 hp).1
  exact ⟨_, getElem?_eq_getElem hi, h.peer (getElem?_eq_getElem hi) hp⟩

theorem Configured.exists_config (h : Configured prims cfg t) {i : Nat} {r : RuntimePeer}
    (hr : cfg.peers[i]? = some r) :
    ∃ p, t.peers[i]? = some p ∧ OfConfig prims cfg r p := by
  have hi : i < t.peers.length := h.length ▸ (List.getElem?_eq_some_iff.1 hr).1
  exact ⟨_, getElem?_eq_getElem hi, h.peer hr (getElem?_eq_getElem hi)⟩

theorem configured_new (cfg : RuntimeConfig) (localEpoch : BitVec 64) :
    Configured prims cfg (new prims cfg localEpoch) where
  length := length_map ..
  peer := by
    intro i r p hr hp
    rw [new, getElem?_map, hr] at hp
    cases hp
    exact ⟨rfl, rfl, rfl, rfl, rfl⟩

theorem Configured.modifyPeer (h : Configured prims cfg t) {i f hf}
    (hkeep : ∀ r p, t.peers[i]? = some p → OfConfig prims cfg r p → OfConfig prims cfg r (f p)) :
    Configured prims cfg (t.modifyPeer i f hf) where
  length := (length_modify ..).trans h.length
  peer := by
    intro j r p hr hp
    rw [getElem?_modifyPeer] at hp
    obtain ⟨q, hq, rfl⟩ := Option.map_eq_some_iff.1 hp
    split
    · next hij => exact hkeep r q (hij ▸ hq) (h.peer hr hq)
    · exact h.peer hr hq

theorem Configured.setRx (h : Configured prims cfg t) {i peer} (hpeer : t.peers[i]? = some peer)
    (header : Header) (body : Bytes) : Configured prims cfg (t.setRx i (peer.rx.accept prims header body).1) := by
  refine h.modifyPeer fun r p hp hof => ?_
  obtain rfl := Option.some.inj (hpeer.symm.trans hp)
  exact ⟨hof.id, hof.allowedSrc, hof.rxLinkKey, (RxSession.accept_rxLinkKey ..).trans hof.rxKey, hof.keyOK.accept ..⟩

theorem Configured.setEndpoint (h : Configured prims cfg t) (i : Nat) (src : SocketAddr) :
    Configured prims cfg (t.setEndpoint i src) :=
  h.modifyPeer fun _ _ _ hof => ⟨hof.id, hof.allowedSrc, hof.rxLinkKey, hof.rxKey, hof.keyOK⟩

theorem Configured.setTx (h : Configured prims cfg t) (i : Nat) (tx : TxSession) :
    Configured prims cfg (t.setTx i tx) :=
  h.modifyPeer fun _ _ _ hof => ⟨hof.id, hof.allowedSrc, hof.rxLinkKey, hof.rxKey, hof.keyOK⟩

theorem Configured.ingest (h : Configured prims cfg t) (datagram : Bytes) (src : SocketAddr) :
    Configured prims cfg (t.ingest prims datagram src).1 := by
  rcases t.ingest_cases datagram src with heq | ⟨idx, header, peer, rx, inner, _, hpeer, hacc, hcase⟩
  · rw [heq]
    exact h
  · have hrx : Configured prims cfg (t.setRx idx rx) := by
      have := h.setRx hpeer header (datagram.drop headerLen)
      rwa [hacc] at this
    rcases hcase with ⟨_, heq⟩ | ⟨_, _, heq⟩ | ⟨_, heq⟩
    · rw [heq]
      exact hrx.setEndpoint idx src
    · rw [heq]
      exact hrx.setEndpoint idx src
    · rw [heq]
      exact hrx

theorem Configured.sealFor (h : Configured prims cfg t) (peerId : BitVec 16) (flags : UInt8) (inner : Bytes) :
    Configured prims cfg (t.sealFor prims peerId flags inner).1 := by
  unfold PeerTable.sealFor
  split
  · exact h
  · split
    · exact h
    · split
      · exact h
      · exact h.setTx _ _

theorem configured_reach (cfg : RuntimeConfig) (localEpoch : BitVec 64) (ops : List TableOp) :
    Configured prims cfg (reach prims cfg localEpoch ops) := by
  refine runState_induction (fun t op h => ?_) (configured_new cfg localEpoch) ops
  cases op with
  | ingest datagram src => exact h.ingest datagram src
  | sealFor peerId flags inner => exact h.sealFor peerId flags inner

end PeerTable

end Rove.Subnetra
