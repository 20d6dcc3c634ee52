/-
What a node seals for a peer, in every state it reaches: whoever has the key of
the link opens it to the packet that was sealed, with the header it was sent
with, whether the header is masked or not.
-/
import Rove.Subnetra.Peer

namespace Rove.Subnetra

open List

/-- What is assumed of the AEAD: it opens what it sealed, and adds the tag. -/
structure AeadCorrect (prims : Primitives) : Prop where
  open_seal : ∀ key n plaintext, prims.openInPlace key n (prims.sealInPlace key n plaintext) = some plaintext
  length_seal : ∀ key n plaintext, (prims.sealInPlace key n plaintext).length = plaintext.length + tagLen

section
variable (prims : Primitives)

/-- The header of a datagram on a link, without its mask. -/
def clearHeader (linkKey : Bytes) (obfuscate : Bool) (datagram : Bytes) : Option Header := do
  let tag ← datagramTag datagram
  Header.parse (if obfuscate then demaskHeader (datagram.take headerLen) (obfuscationPad prims linkKey tag)
    else datagram.take headerLen)

def openDatagram (linkKey : Bytes) (obfuscate : Bool) (datagram : Bytes) : Option (Header × Bytes) := do
  let header ← clearHeader prims linkKey obfuscate datagram
  let inner ← aeadOpen prims (sessionKey prims linkKey header.epoch) header.seq (datagram.drop headerLen)
  some (header, inner)

end

/-! ## One datagram -/

theorem length_demaskHeader (masked pad : Bytes) : (demaskHeader masked pad).length = headerLen := by
  rw [demaskHeader, length_map, length_range]

theorem getElem?_demaskHeader (masked pad : Bytes) {i} (hi : i < headerLen) :
    (demaskHeader masked pad)[i]? = some (masked.getD i 0 ^^^ pad.getD i 0) := by
  rw [demaskHeader, getElem?_map, getElem?_range hi]
  rfl

theorem demaskHeader_demaskHeader {header} (hlen : header.length = headerLen) (pad : Bytes) :
    demaskHeader (demaskHeader header pad) pad = header := by
  refine ext_getElem? fun i => ?_
  by_cases hi : i < headerLen
  · have hmask : (demaskHeader header pad).getD i 0 = header.getD i 0 ^^^ pad.getD i 0 := by
      rw [getD_eq_getElem?_getD, getElem?_demaskHeader _ _ hi]
      rfl
    rw [getElem?_demaskHeader _ _ hi, hmask, UInt8.xor_assoc, UInt8.xor_self, UInt8.xor_zero,
      getD_eq_getElem?_getD, getElem?_eq_getElem (hlen.symm ▸ hi)]
    rfl
  · rw [getElem?_eq_none (by rw [length_demaskHeader]; omega), getElem?_eq_none (by omega)]

variable {prims : Primitives}

theorem AeadCorrect.length_aeadSeal (h : AeadCorrect prims) (key : Bytes) (seq : BitVec 64) (plaintext : Bytes) :
    tagLen ≤ (aeadSeal prims key seq plaintext).length := by
  rw [aeadSeal, h.length_seal]
  omega

theorem AeadCorrect.aeadOpen_aeadSeal (h : AeadCorrect prims) (key : Bytes) (seq : BitVec 64) (plaintext : Bytes) :
    aeadOpen prims key seq (aeadSeal prims key seq plaintext) = some plaintext := by
  have hlen := h.length_aeadSeal key seq plaintext
  rw [aeadOpen, if_neg (by omega)]
  exact h.open_seal key (nonce seq) plaintext

theorem datagramTag_append {header body} (hheader : header.length = headerLen) (hbody : tagLen ≤ body.length) :
    datagramTag (header ++ body) = some (body.drop (body.length - tagLen)) := by
  rw [datagramTag, length_append, hheader, if_neg (by omega),
    show headerLen + body.length - tagLen = header.length + (body.length - tagLen) by omega, drop_append]
  simp

theorem clearHeader_sealDatagram (h : AeadCorrect prims) (linkKey aead : Bytes)
    (localId : BitVec 16) (epoch seq : BitVec 64) (flags : UInt8) (plaintext : Bytes) (obfuscate : Bool) :
    let datagram := sealDatagram prims linkKey aead localId epoch seq flags plaintext obfuscate
    clearHeader prims linkKey obfuscate datagram = some ⟨wireVersion, flags, localId, epoch, seq⟩ ∧
      datagram.drop headerLen = aeadSeal prims aead seq plaintext := by
  have hbody := h.length_aeadSeal aead seq plaintext
  have hheader := Header.length_toBytes ⟨wireVersion, flags, localId, epoch, seq⟩
  cases obfuscate with
  | false =>
    simp only [sealDatagram, clearHeader, Bool.false_eq_true, if_false, datagramTag_append hheader hbody,
      take_left' hheader, drop_left' hheader]
    exact ⟨Header.parse_toBytes _, trivial⟩
  | true =>
    have hmasked := length_demaskHeader (Header.toBytes ⟨wireVersion, flags, localId, epoch, seq⟩)
      (obfuscationPad prims linkKey ((aeadSeal prims aead seq plaintext).drop
        ((aeadSeal prims aead seq plaintext).length - tagLen)))
    simp only [sealDatagram, clearHeader, if_true, datagramTag_append hmasked hbody, take_left' hmasked,
      drop_left' hmasked]
    refine ⟨?_, trivial⟩
    show Header.parse (demaskHeader (demaskHeader _ _) _) = _
    rw [demaskHeader_demaskHeader hheader, Header.parse_toBytes]

theorem openDatagram_sealDatagram (h : AeadCorrect prims) (linkKey : Bytes)
    (localId : BitVec 16) (epoch seq : BitVec 64) (flags : UInt8) (plaintext : Bytes) (obfuscate : Bool) :
    openDatagram prims linkKey obfuscate
      (sealDatagram prims linkKey (sessionKey prims linkKey epoch) localId epoch seq flags plaintext obfuscate) =
        some (⟨wireVersion, flags, localId, epoch, seq⟩, plaintext) := by
  obtain ⟨hheader, hbody⟩ := clearHeader_sealDatagram h linkKey
    (sessionKey prims linkKey epoch) localId epoch seq flags plaintext
    obfuscate
  rw [openDatagram, hheader, hbody]
  show (aeadOpen prims (sessionKey prims linkKey epoch) seq _).bind _ = _
  rw [h.aeadOpen_aeadSeal]
  rfl

/-! ## Every state of a node -/

/-- The transmit session of a peer is the configured one, of the boot epoch. -/
structure TxOf (prims : Primitives) (cfg : RuntimeConfig) (localEpoch : BitVec 64) (r : RuntimePeer)
    (tx : TxSession) : Prop where
  txLinkKey : tx.txLinkKey = linkKey prims r.psk cfg.localId r.id
  epoch : tx.epoch = localEpoch
  key : tx.key = sessionKey prims tx.txLinkKey tx.epoch
  localId : tx.localId = cfg.localId
  obfuscate : tx.obfuscate = cfg.obfuscate

theorem TxOf.seal {cfg localEpoch r tx}
    (h : TxOf prims cfg localEpoch r tx) (flags : UInt8) (inner : Bytes) :
    TxOf prims cfg localEpoch r (tx.seal prims flags inner).1 :=
  ⟨h.txLinkKey, h.epoch, h.key, h.localId, h.obfuscate⟩

namespace PeerTable

variable {cfg : RuntimeConfig} {localEpoch : BitVec 64}

/-- Every transmit session is the configured one. -/
def Transmits (prims : Primitives) (cfg : RuntimeConfig) (localEpoch : BitVec 64) (t : PeerTable) : Prop :=
  ∀ (i : Nat) (r : RuntimePeer) (p : Peer), cfg.peers[i]? = some r → t.peers[i]? = some p →
  TxOf prims cfg localEpoch r p.tx

variable {t : PeerTable} {peerId : BitVec 16} {flags : UInt8}

theorem Transmits.modifyPeer (h : Transmits prims cfg localEpoch t) {i f hf}
    (hkeep : ∀ r p, t.peers[i]? = some p → TxOf prims cfg localEpoch r p.tx → TxOf prims cfg localEpoch r (f p).tx) :
    Transmits prims cfg localEpoch (t.modifyPeer i f hf) := by
  intro j r p hr hp
  rw [getElem?_modifyPeer] at hp
  obtain ⟨q, hq, rfl⟩ := Option.map_eq_some_iff.1 hp
  split
  · next hij => exact hkeep r q (hij ▸ hq) (h j r q hr hq)
  · exact h j r q hr hq

theorem Transmits.setRx (h : Transmits prims cfg localEpoch t) (i : Nat) (rx : RxSession) :
    Transmits prims cfg localEpoch (t.setRx i rx) := h.modifyPeer fun _ _ _ htx => htx

theorem Transmits.setEndpoint (h : Transmits prims cfg localEpoch t) (i : Nat) (src : SocketAddr) :
    Transmits prims cfg localEpoch (t.setEndpoint i src) := h.modifyPeer fun _ _ _ htx => htx

theorem Transmits.setTx (h : Transmits prims cfg localEpoch t) {i p} (hp : t.peers[i]? = some p)
    (flags : UInt8) (inner : Bytes) : Transmits prims cfg localEpoch (t.setTx i (p.tx.seal prims flags inner).1) := by
  refine h.modifyPeer fun r q hq htx => ?_
  obtain rfl := Option.some.inj (hp.symm.trans hq)
  exact htx.seal flags inner

theorem Transmits.ingest (h : Transmits prims cfg localEpoch t) (datagram : Bytes) (src : SocketAddr) :
    Transmits prims cfg localEpoch (t.ingest prims datagram src).1 := by
  rcases t.ingest_cases datagram src with heq | ⟨i, header, p, rx, inner, _, _, _, ⟨_, heq⟩ | ⟨_, _, heq⟩ | ⟨_, heq⟩⟩
  · rw [heq]
    exact h
  · rw [heq]
    exact (h.setRx i rx).setEndpoint i src
  · rw [heq]
    exact (h.setRx i rx).setEndpoint i src
  · rw [heq]
    exact h.setRx i rx

/-- What `seal_for` gives: the datagram of the peer with that id, for its endpoint. -/
theorem sealFor_eq_some {t' inner datagram endpoint}
    (h : t.sealFor prims peerId flags inner = (t', some (datagram, endpoint))) :
    ∃ i p, t.peers[i]? = some p ∧ p.id = peerId ∧ p.endpoint = some endpoint ∧
      datagram = (p.tx.seal prims flags inner).2 ∧
      t' = t.setTx i (p.tx.seal prims flags inner).1 := by
  unfold sealFor at h
  split at h
  · cases h
  · next i hi =>
    split at h
    · cases h
    · next p hp =>
      split at h
      · cases h
      · next found hfound =>
        cases h
        have hid := t.index peerId i hi
        rw [getElem?_map, hp] at hid
        exact ⟨i, p, hp, Option.some.inj hid, hfound, rfl, rfl⟩

theorem sealFor_eq_none {t' inner}
    (h : t.sealFor prims peerId flags inner = (t', none)) : t' = t := by
  unfold sealFor at h
  split at h
  · exact (Prod.mk.inj h).1.symm
  · split at h
    · exact (Prod.mk.inj h).1.symm
    · split at h
      · exact (Prod.mk.inj h).1.symm
      · cases h

theorem Transmits.sealFor (h : Transmits prims cfg localEpoch t) (peerId : BitVec 16) (flags : UInt8) (inner : Bytes) :
    Transmits prims cfg localEpoch (t.sealFor prims peerId flags inner).1 := by
  cases hseal : t.sealFor prims peerId flags inner with
  | mk t' found =>
    cases found with
    | none =>
      obtain rfl := sealFor_eq_none hseal
      exact h
    | some sent =>
      obtain ⟨i, p, hp, -, -, -, rfl⟩ := sealFor_eq_some hseal
      exact h.setTx hp flags inner

theorem transmits_reach (cfg : RuntimeConfig) (localEpoch : BitVec 64) (ops : List TableOp) :
    Transmits prims cfg localEpoch (reach prims cfg localEpoch ops) := by
  refine @runState_induction _ _ _ (step prims) (Transmits prims cfg localEpoch) (fun t op h => ?_) _ ?_ ops
  · cases op with
    | ingest datagram src => exact h.ingest datagram src
    | sealFor peerId flags inner => exact h.sealFor peerId flags inner
  · intro i r p hr hp
    rw [new, getElem?_map, hr] at hp
    cases hp
    exact ⟨rfl, rfl, rfl, rfl, rfl⟩

/-- What a node seals for a peer opens with the key of the link, to what was sealed. -/
theorem openDatagram_sealFor (haead : AeadCorrect prims) {t'} (hconf : Configured prims cfg t)
    (htx : Transmits prims cfg localEpoch t) {inner datagram endpoint}
    (h : t.sealFor prims peerId flags inner = (t', some (datagram, endpoint))) :
    ∃ (i : Nat) (r : RuntimePeer) (p : Peer), cfg.peers[i]? = some r ∧ r.id = peerId ∧ t.peers[i]? = some p ∧
      p.endpoint = some endpoint ∧
      openDatagram prims (linkKey prims r.psk cfg.localId r.id) cfg.obfuscate datagram =
        some (⟨wireVersion, flags, cfg.localId, localEpoch, p.tx.nextSeq⟩, inner) := by
  obtain ⟨i, p, hp, hid, hendpoint, rfl, -⟩ := sealFor_eq_some h
  obtain ⟨r, hr, hof⟩ := hconf.exists_peer hp
  have hsession := htx i r p hr hp
  refine ⟨i, r, p, hr, hof.id.symm.trans hid, hp, hendpoint, ?_⟩
  rw [TxSession.seal, hsession.key, hsession.epoch, hsession.localId, hsession.obfuscate, hsession.txLinkKey]
  exact openDatagram_sealDatagram haead _ _ _ _ _ _ _

end PeerTable

/-- Primitives whose tag is made of the key and the nonce. -/
def taggedPrimitives : Primitives where
  blake2b key message := key ++ message
  sealInPlace key n plaintext := plaintext ++ (key ++ n ++ replicate tagLen 0).take tagLen
  openInPlace key n body :=
    if body.rtake tagLen = (key ++ n ++ replicate tagLen 0).take tagLen then some (body.rdrop tagLen) else none

theorem aeadCorrect_tagged : AeadCorrect taggedPrimitives := by
  have hlen : ∀ key n : Bytes, ((key ++ n ++ replicate tagLen 0).take tagLen).length = tagLen := by
    intro key n
    rw [length_take, length_append, length_replicate]
    omega
  refine ⟨fun key n plaintext => ?_, fun key n plaintext => ?_⟩
  · have htake : (plaintext ++ (key ++ n ++ replicate tagLen 0).take tagLen).rtake tagLen =
        (key ++ n ++ replicate tagLen 0).take tagLen := by
      rw [List.rtake, length_append, hlen, Nat.add_sub_cancel, drop_left]
    have hdrop : (plaintext ++ (key ++ n ++ replicate tagLen 0).take tagLen).rdrop tagLen = plaintext := by
      rw [List.rdrop, length_append, hlen, Nat.add_sub_cancel, take_left]
    exact (if_pos htake).trans (congrArg some hdrop)
  · show (plaintext ++ _).length = _
    rw [length_append, hlen]

end Rove.Subnetra
