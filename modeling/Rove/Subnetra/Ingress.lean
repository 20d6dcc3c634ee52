/-
What a received datagram can do to a node (`PeerTable::ingest`), in every state
the node reaches: whose endpoint it moves (`endpoint_safe_iff`), and whether it
is taken for what it was sealed as (`ingest_classifies_iff`). Both fail on one
kind of datagram: `is_keepalive` looks at a flag that the AEAD does not cover,
and nobody looks at the body.
-/
import Rove.Subnetra.Peer

namespace Rove.Subnetra

open List

/-! ## Learning the endpoint -/

/-- The AEAD adds the tag and nothing else to the length of a text. -/
def AeadLength (prims : Primitives) : Prop :=
  ∀ key n body plaintext, prims.openInPlace key n body = some plaintext → plaintext.length + tagLen = body.length

/-- The text is an IPv4 packet from the peer's prefix. -/
def Peer.Owns (p : Peer) (inner : Bytes) : Prop := ∃ a, ipv4Src inner = some a ∧ p.allowedSrc.contains a = true

namespace PeerTable

variable (prims)

/-- The datagram is from the peer at `i`, is sealed with that peer's key around
`inner`, and is fresh in its session. -/
def Authentic (t : PeerTable) (datagram : Bytes) (i : Nat) (p : Peer) (header : Header) (inner : Bytes) : Prop :=
  t.selected prims datagram = some (i, header) ∧ t.peers[i]? = some p ∧
    aeadOpen prims (sessionKey prims p.rxLinkKey header.epoch) header.seq (datagram.drop headerLen) = some inner ∧
    ¬ p.rx.Stale header.epoch header.seq

/-- A datagram moves an endpoint only if it is authentic, fresh, and an empty
keepalive or a packet of the peer's prefix; it changes no peer but the
selected one. -/
def EndpointSafe (t : PeerTable) (datagram : Bytes) (src : SocketAddr) : Prop :=
  ∀ (i : Nat) (p p' : Peer), t.peers[i]? = some p → (t.ingest prims datagram src).1.peers[i]? = some p' →
    (p'.endpoint ≠ p.endpoint → ∃ header inner, t.Authentic prims datagram i p header inner ∧
      ((header.isKeepalive = true ∧ inner = []) ∨ p.Owns inner)) ∧
    ((∀ header, t.selected prims datagram ≠ some (i, header)) → p' = p)

/-- The datagram is authentic and fresh, flagged as a keepalive, and has a body. -/
def FlaggedBody (t : PeerTable) (datagram : Bytes) (i : Nat) (p : Peer) (inner : Bytes) : Prop :=
  headerLen + tagLen < datagram.length ∧
    ∃ header, t.Authentic prims datagram i p header inner ∧ header.isKeepalive = true

variable {prims} {cfg : RuntimeConfig} {t : PeerTable}

variable {datagram inner : Bytes} {i : Nat} {p : Peer} {header : Header}

theorem Authentic.length (hlen : AeadLength prims) (h : t.Authentic prims datagram i p header inner) :
    inner.length + (headerLen + tagLen) = datagram.length := by
  obtain ⟨hsel, _, hopen, _⟩ := h
  obtain ⟨hmin, _⟩ := selected_valid hsel
  unfold aeadOpen at hopen
  split at hopen
  · cases hopen
  · have := hlen _ _ _ _ hopen
    rw [length_drop] at this
    omega

/-- A datagram is taken in exactly when it is authentic and fresh. -/
theorem Configured.authentic_iff (h : Configured prims cfg t) :
    t.Authentic prims datagram i p header inner ↔
      t.selected prims datagram = some (i, header) ∧ t.peers[i]? = some p ∧
        ∃ rx, p.rx.accept prims header (datagram.drop headerLen) = (rx, .accept inner) := by
  refine ⟨fun hauth => ?_, fun hacc => ?_⟩
  · obtain ⟨hsel, hp, hopen, hfresh⟩ := hauth
    obtain ⟨_, _, hof⟩ := h.exists_peer hp
    obtain ⟨_, hvalid⟩ := selected_valid hsel
    have hepoch : header.epoch ≠ 0 := by
      simp only [Header.isValid, Bool.and_eq_true, bne_iff_ne] at hvalid
      exact hvalid.2
    rw [← hof.rxKey] at hopen
    exact ⟨hsel, hp, hof.keyOK.accept_of_open hepoch hfresh hopen⟩
  · obtain ⟨hsel, hp, rx, hacc⟩ := hacc
    obtain ⟨_, _, hof⟩ := h.exists_peer hp
    obtain ⟨hfresh, hopen⟩ := hof.keyOK.of_accept hacc
    rw [hof.rxKey] at hopen
    exact ⟨hsel, hp, hopen, hfresh⟩

theorem getElem?_learned {j} (hp : t.peers[j]? = some p) (rx : RxSession) (src : SocketAddr) :
    ((t.setRx i rx).setEndpoint i src).peers[j]? =
      some (if i = j then { p with rx, endpoint := some src } else p) := by
  rw [setEndpoint, getElem?_modifyPeer, setRx, getElem?_modifyPeer, hp]
  by_cases hij : i = j
  · simp [hij]
  · simp [hij]

theorem getElem?_setRx {j} (hp : t.peers[j]? = some p) (rx : RxSession) :
    (t.setRx i rx).peers[j]? = some (if i = j then { p with rx } else p) := by
  rw [setRx, getElem?_modifyPeer, hp, Option.map_some]

theorem ingest_eq_learn {rx}
    (hsel : t.selected prims datagram = some (i, header)) (hp : t.peers[i]? = some p)
    (hacc : p.rx.accept prims header (datagram.drop headerLen) = (rx, .accept inner)) (src : SocketAddr) :
    t.ingest prims datagram src = (t.setRx i rx).learn i p header inner src := by
  simp only [PeerTable.ingest, hsel, hp, hacc]

/-- What a datagram can do to one peer: nothing, unless it is authentic and
fresh; then it may set the endpoint if it is flagged as a keepalive or is a
packet of the peer's prefix. -/
theorem Configured.ingest_peer (h : Configured prims cfg t) {src p'}
    (hp : t.peers[i]? = some p) (hp' : (t.ingest prims datagram src).1.peers[i]? = some p') :
    p' = p ∨ ∃ header inner, t.Authentic prims datagram i p header inner ∧
      (p'.endpoint = p.endpoint ∨ (p'.endpoint = some src ∧ (header.isKeepalive = true ∨ p.Owns inner))) := by
  rcases t.ingest_cases datagram src with heq | ⟨idx, header, peer, rx, inner, hsel, hpeer, hacc, hcase⟩
  · rw [heq] at hp'
    exact .inl (Option.some.inj (hp'.symm.trans hp))
  · have hauth := h.authentic_iff.2 ⟨hsel, hpeer, rx, hacc⟩
    by_cases hi : idx = i
    · subst hi
      obtain rfl := Option.some.inj (hpeer.symm.trans hp)
      refine .inr ⟨header, inner, hauth, ?_⟩
      rcases hcase with ⟨hka, heq⟩ | ⟨_, howns, heq⟩ | ⟨_, heq⟩
      · rw [heq, getElem?_learned hp, if_pos rfl] at hp'
        cases hp'
        exact .inr ⟨rfl, .inl hka⟩
      · rw [heq, getElem?_learned hp, if_pos rfl] at hp'
        cases hp'
        exact .inr ⟨rfl, .inr howns⟩
      · rw [heq, getElem?_setRx hp, if_pos rfl] at hp'
        cases hp'
        exact .inl rfl
    · left
      rcases hcase with ⟨_, heq⟩ | ⟨_, _, heq⟩ | ⟨_, heq⟩
      · rw [heq, getElem?_learned hp, if_neg hi] at hp'
        exact (Option.some.inj hp').symm
      · rw [heq, getElem?_learned hp, if_neg hi] at hp'
        exact (Option.some.inj hp').symm
      · rw [heq, getElem?_setRx hp, if_neg hi] at hp'
        exact (Option.some.inj hp').symm

/-- There is at most one peer, header and text a datagram is authentic with. -/
theorem Authentic.unique {inner' p' header'}
    (h : t.Authentic prims datagram i p header inner) (h' : t.Authentic prims datagram i p' header' inner') :
    header = header' ∧ p = p' ∧ inner = inner' := by
  obtain ⟨hsel, hp, hopen, _⟩ := h
  obtain ⟨hsel', hp', hopen', _⟩ := h'
  obtain ⟨_, rfl⟩ := Prod.mk.inj (Option.some.inj (hsel.symm.trans hsel'))
  obtain rfl := Option.some.inj (hp.symm.trans hp')
  exact ⟨rfl, rfl, Option.some.inj (hopen.symm.trans hopen')⟩

end PeerTable

/-- In every state a node reaches, a datagram moves an endpoint only as it may,
exactly when it is no datagram flagged as a keepalive whose body is something
else than a packet of the peer's prefix, from another address than the peer's:
`is_keepalive` looks at the flag and not at the body. -/
theorem endpoint_safe_iff (prims : Primitives) (hlen : AeadLength prims) (cfg : RuntimeConfig) (localEpoch : BitVec 64)
    (ops : List TableOp) (datagram : Bytes) (src : SocketAddr) :
    let t := PeerTable.reach prims cfg localEpoch ops
    t.EndpointSafe prims datagram src ↔
      ∀ i p inner, t.FlaggedBody prims datagram i p inner → p.Owns inner ∨ p.endpoint = some src := by
  intro t
  have hconf : PeerTable.Configured prims cfg t := PeerTable.configured_reach cfg localEpoch ops
  refine ⟨fun hsafe i p inner hflag => ?_, fun hcond i p p' hp hp' => ?_⟩
  · obtain ⟨hbody, header, hauth, hka⟩ := hflag
    obtain ⟨hsel, hp, rx, hacc⟩ := hconf.authentic_iff.1 hauth
    by_cases hsame : p.endpoint = some src
    · exact .inr hsame
    · have hlearn : (t.ingest prims datagram src).1.peers[i]? = some { p with rx, endpoint := some src } := by
        rw [PeerTable.ingest_eq_learn hsel hp hacc, PeerTable.learn, if_pos hka, PeerTable.getElem?_learned hp,
          if_pos rfl]
      obtain ⟨header', inner', hauth', hmay⟩ := (hsafe i p _ hp hlearn).1 (Ne.symm hsame)
      obtain ⟨_, _, rfl⟩ := hauth.unique hauth'
      rcases hmay with ⟨_, hnil⟩ | howns
      · have hlength := hauth.length hlen
        rw [hnil, length_nil, Nat.zero_add] at hlength
        exact absurd hlength (Nat.ne_of_lt hbody)
      · exact .inl howns
  · rcases hconf.ingest_peer hp hp' with rfl | ⟨header, inner, hauth, hend⟩
    · exact ⟨fun hne => absurd rfl hne, fun _ => rfl⟩
    · refine ⟨fun hne => ⟨header, inner, hauth, ?_⟩, fun hnot => absurd hauth.1 (hnot header)⟩
      obtain ⟨hend, hka | howns⟩ := hend.resolve_left hne
      · by_cases hnil : inner = []
        · exact .inl ⟨hka, hnil⟩
        · have hpos := length_pos_iff.2 hnil
          have hlength := hauth.length hlen
          refine .inr ((hcond i p inner ⟨by omega, header, hauth, hka⟩).resolve_right fun hsame => ?_)
          exact hne (hend.trans hsame.symm)
      · exact .inr howns

theorem aeadLength_sole (key : Bytes) (seq : BitVec 64) (plaintext : Bytes) :
    AeadLength (solePrimitives key seq plaintext) := by
  intro k n body text h
  simp only [solePrimitives] at h
  split at h
  · next hcond =>
    cases h
    rw [hcond.2.2, length_append, length_replicate]
  · cases h

/-- A hub with one spoke, which owns `10.0.0.2`. -/
def hubConfig (obfuscate : Bool) : RuntimeConfig where
  mode := .hub
  localId := 1
  listen := .v4 0 18020
  overlay := .ofLen (Ipv4Addr.new 10 0 0 1) 24
  obfuscate
  keepaliveSecs := 25
  mtu := innerMtu
  device := .netstack (some ("http", 8080))
  peers := [⟨2, replicate keyLen 0x5a, .ofLen (Ipv4Addr.new 10 0 0 2) 32, none, "spoke"⟩]

/-- The key of a peer's link to the node 1, where `b` fills the pre-shared key. -/
def sampleLinkKey (b : UInt8) (id : BitVec 16) : Bytes :=
  linkKey (solePrimitives [] 0 []) (replicate keyLen b) id 1

def sampleKey (b : UInt8) (id : BitVec 16) : Bytes := sessionKey (solePrimitives [] 0 []) (sampleLinkKey b id) 9

/-- The peer's first datagram in epoch 9. -/
def sampleDatagram (b : UInt8) (id : BitVec 16) (flags : UInt8) (inner : Bytes) (obfuscate : Bool) : Bytes :=
  sealDatagram (solePrimitives (sampleKey b id) 1 inner) (sampleLinkKey b id)
  (sampleKey b id) id 9 1 flags inner obfuscate

def spokeKey : Bytes := sampleKey 0x5a 2
def spokeDatagram : UInt8 → Bytes → Bool → Bytes := sampleDatagram 0x5a 2

/-- An inner packet from `10.0.0.d` to the hub. -/
def packetFrom (d : UInt8) : Bytes := [0x45, 0, 0, 20, 0, 0, 0, 0, 64, 17, 0, 0, 10, 0, 0, d, 10, 0, 0, 1]

/-- The datagram with the keepalive flag flipped on its way, masked or not. -/
def flipFlag (datagram : Bytes) : Bytes := datagram.modify 1 (· ^^^ keepalive)

theorem endpoint_safe_iff_empty_keepalive :
    AeadLength (solePrimitives spokeKey 1 []) ∧
      (PeerTable.reach (solePrimitives spokeKey 1 []) (hubConfig true) 7 []).EndpointSafe (solePrimitives spokeKey 1 [])
        (spokeDatagram keepalive [] true) (.v4 (Ipv4Addr.new 198 51 100 9) 40000) := by
  have hlen := aeadLength_sole spokeKey 1 []
  refine ⟨hlen, (endpoint_safe_iff _ hlen _ _ _ _ _).2 fun i p inner hflag => ?_⟩
  exact absurd hflag.1 (by decide +kernel)

/-- A packet of a source the spoke does not own, flagged as a keepalive on its
way: the hub takes the address it came from for the spoke's. -/
theorem endpoint_moved_by_flagged_packet :
    ¬ (PeerTable.reach (solePrimitives spokeKey 1 (packetFrom 9)) (hubConfig false) 7 []).EndpointSafe
        (solePrimitives spokeKey 1 (packetFrom 9)) (flipFlag (spokeDatagram 0 (packetFrom 9) false))
        (.v4 (Ipv4Addr.new 198 51 100 9) 40000) := by
  intro hsafe
  have hmoved : ((PeerTable.reach (solePrimitives spokeKey 1 (packetFrom 9)) (hubConfig false) 7 []).ingest
      (solePrimitives spokeKey 1 (packetFrom 9)) (flipFlag (spokeDatagram 0 (packetFrom 9) false))
      (.v4 (Ipv4Addr.new 198 51 100 9) 40000)).1.peers[0]?.map (·.endpoint) =
        some (some (.v4 (Ipv4Addr.new 198 51 100 9) 40000)) := by decide +kernel
  obtain ⟨p', hp', hend⟩ := Option.map_eq_some_iff.1 hmoved
  obtain ⟨header, inner, ⟨hsel, _, hopen, _⟩, hmay⟩ := (hsafe 0 _ p' rfl hp').1
    (by rw [hend]; exact Option.some_ne_none _)
  have hsel' : (PeerTable.reach (solePrimitives spokeKey 1 (packetFrom 9)) (hubConfig false) 7 []).selected
      (solePrimitives spokeKey 1 (packetFrom 9)) (flipFlag (spokeDatagram 0 (packetFrom 9) false)) =
        some (0, ⟨wireVersion, keepalive, 2, 9, 1⟩) := by decide +kernel
  obtain ⟨_, rfl⟩ := Prod.mk.inj (Option.some.inj (hsel.symm.trans hsel'))
  have hinner : inner = packetFrom 9 := Option.some.inj (hopen.symm.trans (by decide +kernel))
  rw [hinner] at hmay
  rcases hmay with ⟨_, hnil⟩ | ⟨a, ha, hin⟩
  · cases hnil
  · have hsrc : ipv4Src (packetFrom 9) = some (Ipv4Addr.new 10 0 0 9) := by decide +kernel
    obtain rfl := Option.some.inj (ha.symm.trans hsrc)
    exact absurd hin (by decide +kernel)

/-! ## Keepalive or data -/

/-- What a node seals: an inner packet with no flag, or an empty keepalive. -/
def HonestSeal (flags : UInt8) (plaintext : Bytes) : Prop :=
  (flags = 0 ∧ (ipv4Dst plaintext).isSome = true) ∨ (flags = keepalive ∧ plaintext = [])

section Classification

variable {Party : Type} (world : Sealed Party → Prop) (prims : Primitives)

/-- What is sealed under a session key of the link is sealed as a node does. -/
def HonestLink (linkKey : Bytes) : Prop :=
  ∀ x, world x → (∃ epoch, x.key = sessionKey prims linkKey epoch) → HonestSeal x.flags x.plaintext

def Sealed.isKeepalive (x : Sealed Party) : Bool := (x.flags &&& keepalive) != 0

/-- The outcome takes a datagram for what it was sealed as. -/
def Ingest.AsSealed (x : Sealed Party) : Ingest → Prop
  | .keepalive _ => x.isKeepalive = true
  | .data _ inner => x.isKeepalive = false ∧ inner = x.plaintext
  | .drop => True

namespace PeerTable

/-- The body of the datagram is the one of `x`, and opens to its text. -/
def Carries (t : PeerTable) (datagram : Bytes) (x : Sealed Party) : Prop :=
  ∃ i p header, t.selected prims datagram = some (i, header) ∧ t.peers[i]? = some p ∧
    x.key = sessionKey prims p.rxLinkKey header.epoch ∧ x.seq = header.seq ∧
    datagram.drop headerLen = aeadSeal prims x.key x.seq x.plaintext ∧
    aeadOpen prims x.key x.seq (datagram.drop headerLen) = some x.plaintext

/-- A datagram that is accepted carries one that was sealed, and is taken for
what that one was sealed as. -/
def ClassifiedAsSealed (t : PeerTable) (datagram : Bytes) (src : SocketAddr) : Prop :=
  ((t.ingest prims datagram src).2 ≠ .drop → ∃ x, world x ∧ t.Carries prims datagram x) ∧
    ∀ x, world x → t.Carries prims datagram x → (t.ingest prims datagram src).2.AsSealed x

variable {world prims} {cfg : RuntimeConfig} {t : PeerTable}

theorem Authentic.exists_sealed (hideal : IdealAead world prims) {datagram inner i p header}
    (h : t.Authentic prims datagram i p header inner) :
    ∃ x, world x ∧ t.Carries prims datagram x ∧ x.plaintext = inner ∧
      x.key = sessionKey prims p.rxLinkKey header.epoch := by
  obtain ⟨hsel, hp, hopen, _⟩ := h
  obtain ⟨x, hx, hkey, hseq, hpt, hbody⟩ := hideal.exists_sealed hopen
  refine ⟨x, hx, ⟨i, p, header, hsel, hp, hkey, hseq, hbody, ?_⟩, hpt, hkey⟩
  rw [hkey, hseq, hpt]
  exact hopen

/-- What an authentic datagram carries was sealed around the text it opens to,
under a key of the peer's link. -/
theorem Carries.of_authentic {datagram inner : Bytes} {i : Nat} {p : Peer} {header : Header} {x : Sealed Party}
    (hx : t.Carries prims datagram x) (h : t.Authentic prims datagram i p header inner) :
    x.plaintext = inner ∧ x.key = sessionKey prims p.rxLinkKey header.epoch := by
  obtain ⟨j, q, header', hsel', hq, hkey, hseq, _, hopen'⟩ := hx
  obtain ⟨hsel, hp, hopen, _⟩ := h
  obtain ⟨rfl, rfl⟩ := Prod.mk.inj (Option.some.inj (hsel.symm.trans hsel'))
  obtain rfl := Option.some.inj (hp.symm.trans hq)
  rw [hkey, hseq] at hopen'
  exact ⟨Option.some.inj (hopen'.symm.trans hopen), hkey⟩

end PeerTable

end Classification

theorem ipv4At_nil (offset : Nat) : ipv4At offset [] = none := rfl

/-- In every state a node reaches, with an ideal AEAD and peers that seal as a
node does, a datagram is taken for what it was sealed as, exactly when it is no
fresh and authentic one with a body and the keepalive flag: the flag is not
authenticated, and nothing compares it with the body. -/
theorem ingest_classifies_iff (prims : Primitives) (hlen : AeadLength prims) {Party : Type}
    (world : Sealed Party → Prop) (hideal : IdealAead world prims) (cfg : RuntimeConfig)
    (hhonest : ∀ r ∈ cfg.peers, HonestLink world prims (linkKey prims r.psk r.id cfg.localId)) (localEpoch : BitVec 64)
    (ops : List TableOp) (datagram : Bytes) (src : SocketAddr) :
    let t := PeerTable.reach prims cfg localEpoch ops
    t.ClassifiedAsSealed world prims datagram src ↔ ∀ i p inner, ¬ t.FlaggedBody prims datagram i p inner := by
  intro t
  have hconf : PeerTable.Configured prims cfg t := PeerTable.configured_reach cfg localEpoch ops
  -- the peer of an authentic datagram seals as a node does
  have hseal : ∀ {i p header inner} {x : Sealed Party}, world x → t.Authentic prims datagram i p header inner →
      x.key = sessionKey prims p.rxLinkKey header.epoch → HonestSeal x.flags x.plaintext := by
    intro i p header inner x hx hauth hkey
    obtain ⟨r, hr, hof⟩ := hconf.exists_peer hauth.2.1
    exact hhonest r (mem_of_getElem? hr) x hx ⟨header.epoch, by rw [hkey, hof.rxLinkKey]⟩
  refine ⟨fun hclass i p inner hflag => ?_, fun hcond => ⟨fun hne => ?_, fun x hx hcarries => ?_⟩⟩
  · obtain ⟨hbody, header, hauth, hka⟩ := hflag
    obtain ⟨hsel, hp, rx, hacc⟩ := hconf.authentic_iff.1 hauth
    obtain ⟨x, hx, hcarries, hpt, hkey⟩ := hauth.exists_sealed hideal
    have hout : (t.ingest prims datagram src).2 = .keepalive p.id := by
      rw [PeerTable.ingest_eq_learn hsel hp hacc, PeerTable.learn, if_pos hka]
    have hsealed := hclass.2 x hx hcarries
    rw [hout] at hsealed
    rcases hseal hx hauth hkey with ⟨hzero, _⟩ | ⟨_, hnil⟩
    · have hdata : x.isKeepalive = false := by rw [Sealed.isKeepalive, hzero]; rfl
      exact absurd (hdata.symm.trans hsealed) (by decide)
    · have hlength := hauth.length hlen
      rw [← hpt, hnil, length_nil, Nat.zero_add] at hlength
      exact absurd hlength (Nat.ne_of_lt hbody)
  · rcases t.ingest_cases datagram src with heq | ⟨idx, header, peer, rx, inner, hsel, hpeer, hacc, _⟩
    · exact absurd (congrArg Prod.snd heq) hne
    · obtain ⟨x, hx, hcarries, _⟩ := (hconf.authentic_iff.2 ⟨hsel, hpeer, rx, hacc⟩).exists_sealed hideal
      exact ⟨x, hx, hcarries⟩
  · rcases t.ingest_cases datagram src with heq | ⟨idx, header, peer, rx, inner, hsel, hpeer, hacc, hcase⟩
    · rw [heq]
      trivial
    · have hauth := hconf.authentic_iff.2 ⟨hsel, hpeer, rx, hacc⟩
      obtain ⟨hpt, hkey⟩ := hcarries.of_authentic hauth
      rcases hcase with ⟨hka, heq⟩ | ⟨_, ⟨a, ha, _⟩, heq⟩ | ⟨_, heq⟩
      · rw [heq]
        rcases hseal hx hauth hkey with ⟨_, hdst⟩ | ⟨hflags, _⟩
        · -- a packet is not empty, so the datagram has a body
          have hne : inner ≠ [] := fun hnil => by
            rw [hpt, hnil, ipv4Dst, ipv4At_nil] at hdst
            cases hdst
          have hpos := length_pos_iff.2 hne
          have hlength := hauth.length hlen
          exact absurd ⟨by omega, header, hauth, hka⟩ (hcond idx peer inner)
        · show x.isKeepalive = true
          rw [Sealed.isKeepalive, hflags]
          rfl
      · rw [heq]
        rcases hseal hx hauth hkey with ⟨hflags, _⟩ | ⟨_, hnil⟩
        · exact ⟨by rw [Sealed.isKeepalive, hflags]; rfl, hpt.symm⟩
        · rw [← hpt, hnil, ipv4Src, ipv4At_nil] at ha
          cases ha
      · rw [heq]
        trivial

/-- The record of the spoke's first packet. -/
def spokeSealed : Sealed Unit := ⟨(), spokeKey, 1, 0, packetFrom 2⟩

/-- The primitives of a world where that packet is all there is. -/
def spokePrimitives : Primitives := solePrimitives spokeKey 1 (packetFrom 2)

theorem idealAead_spoke : IdealAead (fun x => x = spokeSealed) spokePrimitives :=
  idealAead_sole () spokeKey 1 0 (packetFrom 2)

theorem honestLink_spoke (linkKey : Bytes) : HonestLink (fun x => x = spokeSealed) spokePrimitives linkKey := by
  intro x hx _
  rw [hx]
  exact .inl (by decide +kernel)

theorem ingest_classifies_iff_untouched :
    (PeerTable.reach spokePrimitives (hubConfig true) 7 []).ClassifiedAsSealed
      (fun x => x = spokeSealed) spokePrimitives
      (spokeDatagram 0 (packetFrom 2) true) (.v4 (Ipv4Addr.new 198 51 100 9) 40000) := by
  refine (ingest_classifies_iff spokePrimitives (aeadLength_sole spokeKey 1 (packetFrom 2)) (fun x => x = spokeSealed)
    idealAead_spoke (hubConfig true) (fun r _ => honestLink_spoke _) 7 [] _ _).2 fun i p inner hflag => ?_
  obtain ⟨_, header, ⟨hsel, _⟩, hka⟩ := hflag
  have hsel' : (PeerTable.reach spokePrimitives (hubConfig true) 7 []).selected spokePrimitives
      (spokeDatagram 0 (packetFrom 2) true) = some (0, ⟨wireVersion, 0, 2, 9, 1⟩) := by decide +kernel
  obtain ⟨_, rfl⟩ := Prod.mk.inj (Option.some.inj (hsel.symm.trans hsel'))
  cases hka

theorem flipFlag_not_classified (obfuscate : Bool) :
    ¬ (PeerTable.reach spokePrimitives (hubConfig obfuscate) 7 []).ClassifiedAsSealed (fun x => x = spokeSealed)
      spokePrimitives (flipFlag (spokeDatagram 0 (packetFrom 2) obfuscate))
      (.v4 (Ipv4Addr.new 198 51 100 9) 40000) := by
  intro hclass
  have hout : ((PeerTable.reach spokePrimitives (hubConfig obfuscate) 7 []).ingest spokePrimitives
      (flipFlag (spokeDatagram 0 (packetFrom 2) obfuscate))
      (.v4 (Ipv4Addr.new 198 51 100 9) 40000)).2 = .keepalive 2 := by
    cases obfuscate <;> decide +kernel
  have hsel : (PeerTable.reach spokePrimitives (hubConfig obfuscate) 7 []).selected spokePrimitives
      (flipFlag (spokeDatagram 0 (packetFrom 2) obfuscate)) = some (0, ⟨wireVersion, keepalive, 2, 9, 1⟩) := by
    cases obfuscate <;> decide +kernel
  have hbody : (flipFlag (spokeDatagram 0 (packetFrom 2) obfuscate)).drop headerLen =
      aeadSeal spokePrimitives spokeKey 1 (packetFrom 2) := by
    cases obfuscate <;> decide +kernel
  have hkey : spokeKey = sessionKey spokePrimitives (linkKey spokePrimitives (replicate keyLen 0x5a) 2 1) 9 := rfl
  have hsealed := hclass.2 spokeSealed rfl ⟨0, _, _, hsel, rfl, hkey, rfl, hbody, by rw [hbody]; decide +kernel⟩
  rw [hout] at hsealed
  exact absurd (show spokeSealed.isKeepalive = true from hsealed) (by decide)

/-- The spoke's packet with the flag flipped on its way, in clear and masked:
the hub takes it for a keepalive and the packet is gone. -/
theorem packet_taken_for_keepalive :
    IdealAead (fun x => x = spokeSealed) spokePrimitives ∧
      (∀ lk, HonestLink (fun x => x = spokeSealed) spokePrimitives lk) ∧
      ¬ (PeerTable.reach spokePrimitives (hubConfig false) 7 []).ClassifiedAsSealed (fun x => x = spokeSealed)
        spokePrimitives (flipFlag (spokeDatagram 0 (packetFrom 2) false)) (.v4 (Ipv4Addr.new 198 51 100 9) 40000) ∧
      ¬ (PeerTable.reach spokePrimitives (hubConfig true) 7 []).ClassifiedAsSealed (fun x => x = spokeSealed)
        spokePrimitives (flipFlag (spokeDatagram 0 (packetFrom 2) true)) (.v4 (Ipv4Addr.new 198 51 100 9) 40000) :=
  ⟨idealAead_spoke, honestLink_spoke, flipFlag_not_classified false, flipFlag_not_classified true⟩

end Rove.Subnetra
