/-
A datagram from one node of a mesh to another, in every state both reach: what
`seal_for` made at one end is selected at the other as that peer's, masked or
not, and opens to the packet that was sealed. It is taken in unless the
receiver is past it: an older epoch, or a number that was taken before or is
too far behind.
-/
import Rove.Subnetra.Routing
import Rove.Subnetra.Sealing

namespace Rove.Subnetra

open List

def minEpochNs : Nat := 1704067200000000000

/-- `sample_boot_epoch`, of what the clock says. -/
def sampleBootEpoch (clock : Res Nat) : Res (BitVec 64) := do
  let ns ← clock.mapError fun e => s!"system clock is before the Unix epoch: {e}"
  ensure (ns < 2 ^ 64) "boot epoch overflows u64"
  ensure (minEpochNs ≤ ns)
    s!"system clock ({ns} ns) is before 2024-01-01; subnetra refuses to start with a low epoch (§2.3)"
  return BitVec.ofNat 64 ns

theorem sampleBootEpoch_ne_zero {clock epoch} (h : sampleBootEpoch clock = .ok epoch) : epoch ≠ 0 := by
  obtain ⟨ns, -, h⟩ := Res.bind_eq_ok.1 h
  obtain ⟨hlt, h⟩ := Res.ensure_bind_eq_ok.1 h
  obtain ⟨hmin, h⟩ := Res.ensure_bind_eq_ok.1 h
  cases h
  intro hzero
  have hnat := congrArg BitVec.toNat hzero
  unfold minEpochNs at hmin
  exact absurd hnat (by simp; omega)

/-! ## The receiver's table -/

namespace PeerTable

variable {prims : Primitives} {cfg : RuntimeConfig}

theorem reach_frame (cfg : RuntimeConfig) (localEpoch : BitVec 64) (ops : List TableOp) :
    (reach prims cfg localEpoch ops).obfuscate = cfg.obfuscate ∧
      (reach prims cfg localEpoch ops).byId = indexById (cfg.peers.map (·.id)) := by
  refine @runState_induction _ _ _ (step prims)
    (fun t => t.obfuscate = cfg.obfuscate ∧ t.byId = indexById (cfg.peers.map (·.id)))
    (fun t op h => ?_) _ ⟨rfl, rfl⟩ ops
  cases op with
  | ingest datagram src =>
    show (t.ingest prims datagram src).1.obfuscate = _ ∧ (t.ingest prims datagram src).1.byId = _
    rcases t.ingest_cases datagram src with heq | ⟨_, _, _, _, _, _, _, _, ⟨_, heq⟩ | ⟨_, _, heq⟩ | ⟨_, heq⟩⟩
    · rw [heq]; exact h
    · rw [heq]; exact h
    · rw [heq]; exact h
    · rw [heq]; exact h
  | sealFor peerId flags inner =>
    show (t.sealFor prims peerId flags inner).1.obfuscate = _ ∧ (t.sealFor prims peerId flags inner).1.byId = _
    cases hseal : t.sealFor prims peerId flags inner with
    | mk t' found =>
      cases found with
      | none => rw [sealFor_eq_none hseal]; exact h
      | some sent =>
        obtain ⟨i, p, -, -, -, -, rfl⟩ := sealFor_eq_some hseal
        exact h

theorem get?_indexById_of_nodup {ids} (hd : ids.Nodup) {id i} (h : ids[i]? = some id) :
    (indexById ids).get? id = some i :=
  (@HashMap.get?_foldl_zipIdx _ _ _ _ (fun x => x) (fun i => i) ids (by rwa [map_id']) id i).2 ⟨i, id, h, rfl, rfl⟩

variable (prims) in
/-- Under the pad of the peer the header of a datagram is one of that peer. -/
def Unmasks (p : Peer) (datagram : Bytes) : Prop :=
  ∃ header, clearHeader prims p.rxLinkKey true datagram = some header ∧ header.keyId = p.id ∧ header.isValid = true

instance (p : Peer) (datagram : Bytes) : Decidable (Unmasks prims p datagram) :=
  decidable_of_iff (((clearHeader prims p.rxLinkKey true datagram).filter
    fun h => h.keyId = p.id && h.isValid).isSome = true) (by
    rw [Option.isSome_iff_exists]
    simp [Unmasks, Option.filter_eq_some_iff])

theorem exists_clearHeader (datagram : Bytes) {tag} (htag : datagramTag datagram = some tag) (lk : Bytes) :
    ∃ header, clearHeader prims lk true datagram = some header ∧
      Header.parse (demaskHeader (datagram.take headerLen) (obfuscationPad prims lk tag)) = some header := by
  obtain ⟨header, hparse⟩ : ∃ header, Header.parse (demaskHeader (datagram.take headerLen)
      (obfuscationPad prims lk tag)) =
      some header := by
    exact ⟨_, rfl⟩
  refine ⟨header, ?_, hparse⟩
  rw [clearHeader, htag]
  exact hparse

/-- The trial over the peers finds the one that unmasks the header, if it is the only one. -/
theorem selectMasked_of_only {datagram tag} (htag : datagramTag datagram = some tag) {ps p j header}
    (hclear : clearHeader prims p.rxLinkKey true datagram = some header) (hkey : header.keyId = p.id)
    (hvalid : header.isValid = true) (hmem : (p, j) ∈ ps) (honly : ∀ e ∈ ps, e.2 = j ∨ ¬ Unmasks prims e.1 datagram)
    (hplace : ∀ e ∈ ps, e.2 = j → e.1 = p) : selectMasked prims datagram tag ps = some (j, header) := by
  induction ps with
  | nil => cases hmem
  | cons e ps ih =>
    obtain ⟨q, i⟩ := e
    obtain ⟨found, hfound, hparse⟩ := @exists_clearHeader prims datagram tag htag q.rxLinkKey
    rw [selectMasked, hparse]
    show (if found.version = wireVersion ∧ found.keyId = q.id ∧ found.isValid = true then some (i, found)
      else selectMasked prims datagram tag ps) = some (j, header)
    by_cases hij : i = j
    · obtain rfl : q = p := hplace (q, i) mem_cons_self hij
      obtain rfl := Option.some.inj (hfound.symm.trans hclear)
      have hversion : found.version = wireVersion := by
        have hv := hvalid
        simp only [Header.isValid, Bool.and_eq_true, beq_iff_eq] at hv
        exact hv.1.1
      rw [if_pos ⟨hversion, hkey, hvalid⟩, hij]
    · have hnot : ¬ Unmasks prims q datagram := (honly (q, i) mem_cons_self).resolve_left hij
      rw [if_neg fun h => hnot ⟨found, hfound, h.2⟩]
      refine ih ?_ (fun e he => honly e (mem_cons_of_mem _ he)) fun e he => hplace e (mem_cons_of_mem _ he)
      rcases mem_cons.1 hmem with heq | hmem
      · exact absurd (Prod.mk.inj heq).2.symm hij
      · exact hmem

/-- A datagram whose header is a peer's own is selected as that peer's. -/
theorem selected_of_clear {t : PeerTable} {datagram : Bytes} {p : Peer} {j : Nat} {header : Header}
    (hclear : clearHeader prims p.rxLinkKey t.obfuscate datagram = some header) (hp : t.peers[j]? = some p)
    (hkey : header.keyId = p.id) (hvalid : header.isValid = true) (hbyId : t.byId.get? p.id = some j)
    (hother : t.obfuscate = true → ∀ i q, t.peers[i]? = some q → i ≠ j → ¬ Unmasks prims q datagram) :
    t.selected prims datagram = some (j, header) := by
  obtain ⟨tag, htag, hparse⟩ := Option.bind_eq_some_iff.1 hclear
  rw [selected, htag]
  show t.select prims datagram tag = _
  unfold select
  cases hobf : t.obfuscate with
  | true =>
    rw [hobf] at hclear
    refine selectMasked_of_only htag hclear hkey hvalid (mem_zipIdx_iff_getElem?.2 hp)
      (fun e he => ?_) fun e he heq => ?_
    · by_cases hij : e.2 = j
      · exact .inl hij
      · exact .inr (hother hobf e.2 e.1 (mem_zipIdx_iff_getElem?.1 he) hij)
    · have hat := mem_zipIdx_iff_getElem?.1 he
      rw [heq, hp] at hat
      exact (Option.some.inj hat).symm
  | false =>
    rw [hobf, if_neg Bool.false_ne_true] at hparse
    rw [hparse]
    show (t.byId.get? header.keyId).bind _ = _
    rw [hkey, hbyId]
    show (if header.isValid then some (j, header) else none) = _
    rw [if_pos hvalid]

/-! ## Taking the datagram in -/

/-- What a datagram that opens under the key of the selected peer comes to. -/
theorem Configured.ingest_of_open {t} (hconf : Configured prims cfg t) {datagram inner j p header}
    (hsel : t.selected prims datagram = some (j, header)) (hp : t.peers[j]? = some p)
    (hopen : aeadOpen prims (sessionKey prims p.rxLinkKey header.epoch) header.seq
      (datagram.drop headerLen) = some inner)
    (src : SocketAddr) :
    (p.rx.Stale header.epoch header.seq → (t.ingest prims datagram src).2 = .drop) ∧
    (¬ p.rx.Stale header.epoch header.seq →
      (header.isKeepalive = true → (t.ingest prims datagram src).2 = .keepalive p.id) ∧
      (header.isKeepalive = false → p.Owns inner → (t.ingest prims datagram src).2 = .data p.id inner) ∧
      (header.isKeepalive = false → ¬ p.Owns inner → (t.ingest prims datagram src).2 = .drop)) := by
  refine ⟨fun hstale => ?_, fun hfresh => ?_⟩
  · rcases t.ingest_cases datagram src with heq | ⟨i, header', q, rx, inner', hsel', hq, hacc, _⟩
    · rw [heq]
    · obtain ⟨rfl, rfl⟩ := Prod.mk.inj (Option.some.inj (hsel'.symm.trans hsel))
      obtain rfl := Option.some.inj (hq.symm.trans hp)
      exact absurd hstale (hconf.authentic_iff.2 ⟨hsel, hp, rx, hacc⟩).2.2.2
  · obtain ⟨-, -, rx, hacc⟩ := hconf.authentic_iff.1 ⟨hsel, hp, hopen, hfresh⟩
    rw [ingest_eq_learn hsel hp hacc src, learn]
    refine ⟨fun hka => by rw [if_pos hka], fun hka howns => ?_, fun hka howns => ?_⟩
    · obtain ⟨a, ha, hin⟩ := howns
      rw [hka, if_neg Bool.false_ne_true, ha]
      dsimp only
      rw [if_pos hin]
    · rw [hka, if_neg Bool.false_ne_true]
      cases ha : ipv4Src inner with
      | none => rfl
      | some a =>
        dsimp only
        rw [if_neg fun hin => howns ⟨a, ha, hin⟩]

end PeerTable

/-! ## What was taken in -/

/-- Why a datagram is not taken in any more: one of a newer epoch was, or in the
same epoch that number or one that is at least a window above it. -/
def Past (taken : List (BitVec 64 × BitVec 64)) (epoch seq : BitVec 64) : Prop :=
  ∃ e ∈ taken, epoch < e.1 ∨ (e.1 = epoch ∧ (e.2 = seq ∨ seq.toNat + ReplayWindow.window ≤ e.2.toNat))

instance (taken : List (BitVec 64 × BitVec 64)) (epoch seq : BitVec 64) : Decidable (Past taken epoch seq) :=
  inferInstanceAs (Decidable (∃ e ∈ taken, _))

/-- A receive session against the epochs and numbers it has taken in. -/
structure RxSession.Follows (s : RxSession) (taken : List (BitVec 64 × BitVec 64)) : Prop where
  epochs : ∀ e ∈ taken, e.1 ≤ s.curEpoch
  current : s.curEpoch = 0 ∨ ∃ e ∈ taken, e.1 = s.curEpoch
  window : s.replay.Tracks ((taken.filter (·.1 = s.curEpoch)).map (·.2))

section
variable {prims : Primitives} {s : RxSession} {taken : List (BitVec 64 × BitVec 64)}

theorem RxSession.Follows.accept (h : s.Follows taken) {s' header body plaintext}
    (hacc : s.accept prims header body = (s', .accept plaintext)) :
    s'.Follows (taken ++ [(header.epoch, header.seq)]) := by
  rcases s.accept_cases header body with heq | ⟨key, _, replay, -, hcase, heq⟩
  · cases hacc.symm.trans heq
  obtain ⟨rfl, -⟩ := Prod.mk.inj (hacc.symm.trans heq)
  refine ⟨fun e he => ?_, .inr ⟨(header.epoch, header.seq), by simp, rfl⟩, ?_⟩
  · rcases mem_append.1 he with he | he
    · rcases hcase with ⟨hepoch, -⟩ | ⟨hgt, -⟩
      · exact hepoch ▸ h.epochs e he
      · exact BitVec.le_trans (h.epochs e he) (BitVec.le_of_lt hgt)
    · rw [mem_singleton.1 he]
      exact BitVec.le_refl _
  · rw [filter_append, map_append, filter_cons_of_pos (by simp)]
    rcases hcase with ⟨hepoch, -, hset⟩ | ⟨hgt, -, hset⟩
    · rw [hepoch]
      exact h.window.accept hset
    · -- nothing was taken in of a new epoch
      have hnone : taken.filter (·.1 = header.epoch) = [] := by
        refine filter_eq_nil_iff.2 fun e he heq => ?_
        have := of_decide_eq_true heq ▸ h.epochs e he
        exact BitVec.not_lt.2 this hgt
      simp only [hnone]
      exact ReplayWindow.tracks_new.accept hset

theorem RxSession.Follows.stale_iff (h : s.Follows taken) {epoch : BitVec 64} (hepoch : epoch ≠ 0) (seq : BitVec 64) :
    s.Stale epoch seq ↔ Past taken epoch seq := by
  have hmem : ∀ n, n ∈ (taken.filter (·.1 = s.curEpoch)).map (·.2) ↔ (s.curEpoch, n) ∈ taken := by
    intro n
    simp
  constructor
  · rintro (hlt | ⟨rfl, hseen⟩)
    · rcases h.current with hzero | ⟨e, he, heq⟩
      · exact absurd (hzero ▸ hlt) BitVec.not_lt_zero
      · exact ⟨e, he, .inl (heq ▸ hlt)⟩
    · by_cases hin : s.replay.highest.toNat - seq.toNat < ReplayWindow.window
      · have htaken := (h.window.seen_iff hseen.1 hin).1 hseen
        exact ⟨_, (hmem seq).1 htaken, .inr ⟨rfl, .inl rfl⟩⟩
      · have hne : (taken.filter (·.1 = s.curEpoch)).map (·.2) ≠ [] := by
          intro hnil
          have hzero : s.replay.highest.toNat = 0 := by rw [h.window.empty hnil]; rfl
          unfold ReplayWindow.window at hin
          omega
        have hle := hseen.1
        have hfar : seq.toNat + ReplayWindow.window ≤ s.replay.highest.toNat := by omega
        exact ⟨_, (hmem _).1 (h.window.greatest hne), .inr ⟨rfl, .inr hfar⟩⟩
  · rintro ⟨e, he, hlt | ⟨rfl, hnumber⟩⟩
    · exact .inl (BitVec.lt_def.2 (Nat.lt_of_lt_of_le (BitVec.lt_def.1 hlt) (BitVec.le_def.1 (h.epochs e he))))
    · by_cases heq : e.1 = s.curEpoch
      · have htaken : e.2 ∈ (taken.filter (·.1 = s.curEpoch)).map (·.2) := (hmem _).2 (heq ▸ he)
        have hle := h.window.le _ htaken
        refine .inr ⟨heq, ?_⟩
        rcases hnumber with rfl | hfar
        · by_cases hin : s.replay.highest.toNat - e.2.toNat < ReplayWindow.window
          · exact (h.window.seen_iff hle hin).2 htaken
          · exact ⟨hle, .inl (Nat.le_of_not_lt hin)⟩
        · exact ⟨by omega, .inl (by omega)⟩
      · exact .inl (BitVec.lt_of_le_ne (h.epochs e he) heq)

end

namespace PeerTable

variable (prims : Primitives)

/-- The epoch and number that the session of the peer at `j` takes in. -/
def takes (t : PeerTable) (j : Nat) : TableOp → Option (BitVec 64 × BitVec 64)
  | .ingest datagram _ =>
    match t.selected prims datagram with
    | none => none
    | some (i, header) =>
      match t.peers[i]? with
      | none => none
      | some peer =>
        match peer.rx.accept prims header (datagram.drop headerLen) with
        | (_, .accept _) => if i = j then some (header.epoch, header.seq) else none
        | (_, .drop) => none
  | .sealFor .. => none

/-- All of them, over a run. -/
def taken (t : PeerTable) (j : Nat) : List TableOp → List (BitVec 64 × BitVec 64)
  | [] => []
  | op :: ops => (t.takes prims j op).toList ++ taken (t.step prims op).1 j ops

variable {prims}

theorem rx_learn {t : PeerTable} {j : Nat} {p : Peer} (hp : t.peers[j]? = some p) (i : Nat)
    (rx : RxSession) (peer : Peer) (header : Header) (inner : Bytes) (src : SocketAddr) :
    ∃ p', ((t.setRx i rx).learn i peer header inner src).1.peers[j]? = some p' ∧
    p'.rx = if i = j then rx else p.rx := by
  have hset : ∃ p', (t.setRx i rx).peers[j]? = some p' ∧ p'.rx = if i = j then rx else p.rx :=
    ⟨_, getElem?_setRx hp rx, by split <;> rfl⟩
  have hlearned : ∃ p', ((t.setRx i rx).setEndpoint i src).peers[j]? = some p' ∧ p'.rx = if i = j then rx else p.rx :=
    ⟨_, getElem?_learned hp rx src, by split <;> rfl⟩
  unfold learn
  split
  · exact hlearned
  split
  · exact hset
  split
  · exact hlearned
  · exact hset

/-- A session follows what it takes in, whatever is done to the table. -/
theorem follows_step {t : PeerTable} {j : Nat} {p : Peer} {history} (hp : t.peers[j]? = some p)
    (h : p.rx.Follows history) (op : TableOp) :
    ∃ p', (t.step prims op).1.peers[j]? = some p' ∧ p'.rx.Follows (history ++ (t.takes prims j op).toList) := by
  cases op with
  | sealFor peerId flags inner =>
    simp only [step, takes, Option.toList_none, append_nil]
    cases hseal : t.sealFor prims peerId flags inner with
    | mk t' found =>
      cases found with
      | none =>
        obtain rfl := sealFor_eq_none hseal
        exact ⟨p, hp, h⟩
      | some sent =>
        obtain ⟨i, _, -, -, -, -, rfl⟩ := sealFor_eq_some hseal
        refine ⟨_, by rw [setTx, getElem?_modifyPeer, hp, Option.map_some], ?_⟩
        split <;> exact h
  | ingest datagram src =>
    have hkeep : ∀ l, l = [] → p.rx.Follows (history ++ l) := by
      rintro _ rfl
      rwa [append_nil]
    simp only [step, takes]
    cases hsel : t.selected prims datagram with
    | none => exact ⟨p, by simpa only [ingest, hsel], hkeep _ rfl⟩
    | some sel =>
      obtain ⟨i, header⟩ := sel
      cases hpeer : t.peers[i]? with
      | none => exact ⟨p, by simpa only [ingest, hsel, hpeer], hkeep _ (by simp only [hpeer]; rfl)⟩
      | some peer =>
        cases hacc : peer.rx.accept prims header (datagram.drop headerLen) with
        | mk rx outcome =>
          cases outcome with
          | drop =>
            obtain rfl := RxSession.accept_drop hacc
            exact ⟨p, by simpa only [ingest, hsel, hpeer, hacc, setRx_self hpeer],
              hkeep _ (by simp only [hpeer, hacc]; rfl)⟩
          | accept inner =>
            rw [ingest_eq_learn hsel hpeer hacc src]
            obtain ⟨p', hp', hrx⟩ := rx_learn hp i rx peer header inner src
            refine ⟨p', hp', ?_⟩
            rw [hrx]
            simp only [hpeer, hacc]
            split
            · next hij =>
              subst hij
              obtain rfl := Option.some.inj (hp.symm.trans hpeer)
              exact h.accept hacc
            · exact hkeep _ rfl

theorem follows_run {t : PeerTable} {j : Nat} {p : Peer} {history} (hp : t.peers[j]? = some p)
    (h : p.rx.Follows history) (ops : List TableOp) :
    ∃ p', (runState (step prims) t ops).peers[j]? = some p' ∧ p'.rx.Follows (history ++ t.taken prims j ops) := by
  induction ops generalizing t p history with
  | nil => exact ⟨p, hp, by rwa [taken, append_nil]⟩
  | cons op ops ih =>
    obtain ⟨q, hq, hfollows⟩ := @follows_step prims t j p history hp h op
    obtain ⟨p', hp', h'⟩ := ih hq hfollows
    exact ⟨p', hp', by rwa [append_assoc] at h'⟩

/-- The session of a configured peer follows what it took in since the table was made. -/
theorem follows_reach {cfg : RuntimeConfig} (localEpoch : BitVec 64) (ops : List TableOp) {j : Nat}
    {r : RuntimePeer} {p : Peer} (hr : cfg.peers[j]? = some r)
    (hp : (reach prims cfg localEpoch ops).peers[j]? = some p) :
    p.rx.Follows ((PeerTable.new prims cfg localEpoch).taken prims j ops) := by
  have hnew : (PeerTable.new prims cfg localEpoch).peers[j]? = some (newPeer prims cfg localEpoch r) := by
    rw [new, getElem?_map, hr]
    rfl
  have hempty : (newPeer prims cfg localEpoch r).rx.Follows [] := ⟨by simp, .inl rfl, ReplayWindow.tracks_new⟩
  obtain ⟨p', hp', h⟩ := follows_run hnew hempty ops
  obtain rfl := Option.some.inj (hp.symm.trans hp')
  exact h

end PeerTable

/-! ## From node to node -/

/-- Two nodes of a mesh know each other, share a key and agree on the mask. -/
structure Linked (a b : RuntimeConfig) : Prop where
  peers : ∃ ra ∈ a.peers, ∃ rb ∈ b.peers, ra.id = b.localId ∧ rb.id = a.localId ∧ ra.psk = rb.psk
  obfuscate : a.obfuscate = b.obfuscate

def sentHeader (cfg : RuntimeConfig) (epoch seq : BitVec 64) (flags : UInt8) : Header :=
  ⟨wireVersion, flags, cfg.localId, epoch, seq⟩

theorem sentHeader_valid (cfg : RuntimeConfig) {epoch} (hepoch : epoch ≠ 0) (seq : BitVec 64) {flags}
    (hflags : flags = 0 ∨ flags = keepalive) : (sentHeader cfg epoch seq flags).isValid = true := by
  have hbits : flags &&& ~~~keepalive = 0 := by rcases hflags with rfl | rfl <;> decide
  simp only [Header.isValid, sentHeader, hbits, Bool.and_eq_true, beq_self_eq_true, bne_iff_ne, and_self, true_and]
  exact hepoch

theorem sentHeader_isKeepalive (cfg : RuntimeConfig) (epoch seq : BitVec 64) :
    (sentHeader cfg epoch seq keepalive).isKeepalive = true ∧ (sentHeader cfg epoch seq 0).isKeepalive = false :=
  ⟨by show (keepalive &&& keepalive != 0) = true; decide, by show (0 &&& keepalive != 0) = false; decide⟩

theorem clearHeader_toBytes {prims} (lk : Bytes) (header : Header) {body} (hbody : tagLen ≤ body.length) :
    clearHeader prims lk false (header.toBytes ++ body) = some header := by
  have hlen := header.length_toBytes
  rw [clearHeader, datagramTag_append hlen hbody]
  show Header.parse ((header.toBytes ++ body).take headerLen) = _
  rw [take_left' hlen, Header.parse_toBytes]

open PeerTable

/-- For every pair of linked nodes, every state both reach and every datagram
that the first seals for the second: the second selects the first as its
sender, on the masked header as on the clear one, unless another peer's pad
gives a header of that peer too; and it takes the datagram in, as a keepalive
or as the packet that was sealed, if and only if it is not past it, by what it has
taken in. -/
theorem sealed_datagram_ingested (prims : Primitives) (haead : AeadCorrect prims) (parseIpv4Net : Str → Res Ipv4Net)
    (meshA meshB : SubnetraConfig) (a b : RuntimeConfig) (ha : meshA.toRuntime parseIpv4Net = .ok a)
    (hb : meshB.toRuntime parseIpv4Net = .ok b) (hlink : Linked a b) (clock : Res Nat) (epochA epochB : BitVec 64)
    (hepoch : sampleBootEpoch clock = .ok epochA) (opsA opsB : List TableOp) (flags : UInt8)
    (hflags : flags = 0 ∨ flags = keepalive) (inner datagram : Bytes) (endpoint src : SocketAddr) (t' : PeerTable)
    (hseal : (reach prims a epochA opsA).sealFor prims b.localId flags inner = (t', some (datagram, endpoint)))
    (hpad : b.obfuscate = true → ∀ q ∈ (reach prims b epochB opsB).peers, q.id ≠ a.localId →
      ¬ Unmasks prims q datagram) :
    let t := reach prims b epochB opsB
    let taken := (PeerTable.new prims b epochB).taken prims
    ∃ seq j p, t.peers[j]? = some p ∧ p.id = a.localId ∧
      t.selected prims datagram = some (j, sentHeader a epochA seq flags) ∧
      { t with obfuscate := false }.selected prims ((sentHeader a epochA seq flags).toBytes ++
          datagram.drop headerLen) =
        some (j, sentHeader a epochA seq flags) ∧
      (Past (taken j opsB) epochA seq → (t.ingest prims datagram src).2 = .drop) ∧
      (¬ Past (taken j opsB) epochA seq →
        (flags = keepalive → (t.ingest prims datagram src).2 = .keepalive a.localId) ∧
        (flags = 0 → p.Owns inner → (t.ingest prims datagram src).2 = .data a.localId inner) ∧
        (flags = 0 → ¬ p.Owns inner → (t.ingest prims datagram src).2 = .drop)) := by
  intro t taken
  have hconf : Configured prims b t := configured_reach b epochB opsB
  obtain ⟨hobf, hbyId⟩ := @reach_frame prims b epochB opsB
  obtain ⟨ra, hra, rb, hrb, hida, hidb, hpsk⟩ := hlink.peers
  -- the sender's peer is the receiver, and the receiver's one is the sender
  obtain ⟨i, r, q, hr, hid, -, -, hsent⟩ := openDatagram_sealFor haead (configured_reach a epochA opsA)
    (transmits_reach a epochA opsA) hseal
  obtain rfl : r = ra := inj_on_of_nodup_map (toRuntime_peers ha).1 (mem_of_getElem? hr) hra (hid.trans hida.symm)
  obtain ⟨j, hj⟩ := mem_iff_getElem?.1 hrb
  obtain ⟨p, hp, hof⟩ := hconf.exists_config hj
  have hpid : p.id = a.localId := hof.id.trans hidb
  have hkey : p.rxLinkKey = linkKey prims r.psk a.localId r.id := by rw [hof.rxLinkKey, hida, hidb, hpsk]
  have hindex : ∀ (k : Nat) (s : RuntimePeer), b.peers[k]? = some s → t.byId.get? s.id = some k := fun k s hk => by
    rw [hbyId]
    exact get?_indexById_of_nodup (toRuntime_peers hb).1 (by rw [getElem?_map, hk]; rfl)
  have hbyIdp : t.byId.get? p.id = some j := hof.id ▸ hindex j rb hj
  have hvalid := sentHeader_valid a (sampleBootEpoch_ne_zero hepoch) q.tx.nextSeq hflags
  obtain ⟨header, hclear, hrest⟩ := Option.bind_eq_some_iff.1 hsent
  obtain ⟨plaintext, hopen, heq⟩ := Option.bind_eq_some_iff.1 hrest
  cases heq
  rw [← hkey] at hclear hopen
  have hother : t.obfuscate = true → ∀ k s, t.peers[k]? = some s → k ≠ j → ¬ Unmasks prims s datagram := by
    intro hmasked k s hs hne
    obtain ⟨rs, hrs, hofs⟩ := hconf.exists_peer hs
    refine hpad (hobf ▸ hmasked) s (mem_of_getElem? hs) fun heq => hne ?_
    have hfirst := hindex k rs hrs
    rw [← hofs.id, heq, ← hpid, hbyIdp] at hfirst
    exact (Option.some.inj hfirst).symm
  have hclear' : clearHeader prims p.rxLinkKey t.obfuscate datagram =
    some (sentHeader a epochA q.tx.nextSeq flags) := by
    rw [hobf, ← hlink.obfuscate]
    exact hclear
  have hsel := selected_of_clear hclear' hp hpid.symm hvalid hbyIdp hother
  refine ⟨q.tx.nextSeq, j, p, hp, hpid, hsel, ?_, ?_⟩
  · have hlen := (selected_valid hsel).1
    have hbody : tagLen ≤ (datagram.drop headerLen).length := by rw [length_drop]; omega
    exact selected_of_clear (clearHeader_toBytes _ _ hbody) hp hpid.symm hvalid hbyIdp fun hmasked =>
      absurd hmasked Bool.false_ne_true
  · obtain ⟨hstale, hfresh⟩ := hconf.ingest_of_open hsel hp hopen src
    have hpast := (follows_reach epochB opsB hj hp).stale_iff (sampleBootEpoch_ne_zero hepoch) q.tx.nextSeq
    refine ⟨fun h => hstale (hpast.2 h), fun hnot => ?_⟩
    obtain ⟨hka, hdata, hdrop⟩ := hfresh fun h => hnot (hpast.1 h)
    rw [hpid] at hka hdata
    obtain ⟨hisKa, hnotKa⟩ := sentHeader_isKeepalive a epochA q.tx.nextSeq
    refine ⟨fun hflag => hka ?_, fun hflag => hdata ?_, fun hflag => hdrop ?_⟩
    · rw [hflag]; exact hisKa
    · rw [hflag]; exact hnotKa
    · rw [hflag]; exact hnotKa

/-- The spoke that is the wide peer of the nested mesh, masked. -/
def wideMesh : SubnetraConfig where
  mode := "spoke"
  localId := 2
  listen := "0.0.0.0:18020"
  overlayCidr := "10.0.0.9/24"
  peers := [⟨1, replicate 64 '5', "10.0.0.0/24", some "198.51.100.1:18020", "hub"⟩]

def hubEndpoint : SocketAddr := .v4 (Ipv4Addr.new 198 51 100 1) 18020

def wideRuntime : RuntimeConfig where
  mode := .spoke
  localId := 2
  listen := .v4 0 18020
  overlay := .ofLen (Ipv4Addr.new 10 0 0 9) 24
  obfuscate := true
  keepaliveSecs := 25
  mtu := innerMtu
  device := .netstack none
  peers := [⟨1, replicate 32 0x55, .ofLen (Ipv4Addr.new 10 0 0 0) 24, some hubEndpoint, "hub"⟩]

theorem toRuntime_wideMesh : wideMesh.toRuntime readIpv4Net = .ok wideRuntime := by decide +kernel

theorem toRuntime_maskedMesh :
    { nestedMesh with obfuscate := true }.toRuntime readIpv4Net = .ok { nestedRuntime with obfuscate := true } := by
  decide +kernel

theorem linked_wide : Linked wideRuntime { nestedRuntime with obfuscate := true } where
  peers := ⟨_, mem_cons_self, _, mem_cons_self, rfl, rfl, rfl⟩
  obfuscate := rfl

/-- What the spoke seals for the hub after `n` other datagrams. -/
def sealedAfter (n : Nat) : PeerTable × Option (Bytes × SocketAddr) :=
  (PeerTable.reach taggedPrimitives wideRuntime (BitVec.ofNat 64 minEpochNs)
    (replicate n (.sealFor 1 0 (packetFrom 9)))).sealFor taggedPrimitives 1 0 (packetFrom 9)

def sealedBytes (n : Nat) : Bytes := ((sealedAfter n).2.map Prod.fst).getD []

/-- A datagram that comes once, but after one that was sealed 64 datagrams
later, is dropped; before it, it is taken in. -/
theorem sealed_datagram_dropped_late :
    let hub := PeerTable.reach taggedPrimitives { nestedRuntime with obfuscate := true } 7
    let src := SocketAddr.v4 (Ipv4Addr.new 198 51 100 9) 40000
    Linked wideRuntime { nestedRuntime with obfuscate := true } ∧
      (sealedAfter 0).2 = some (sealedBytes 0, hubEndpoint) ∧ (sealedAfter 64).2 = some (sealedBytes 64, hubEndpoint) ∧
      ((hub []).ingest taggedPrimitives (sealedBytes 0) src).2 = .data 2 (packetFrom 9) ∧
      ((hub [.ingest (sealedBytes 64) src]).ingest taggedPrimitives (sealedBytes 0) src).2 = .drop :=
  ⟨linked_wide, by decide +kernel, by decide +kernel, by decide +kernel, by decide +kernel⟩

/-- The first datagram of the spoke, at a hub that has taken in the second. -/
theorem sealed_datagram_ingested_reordered :
    ((PeerTable.reach taggedPrimitives { nestedRuntime with obfuscate := true } 7
      [.ingest (sealedBytes 1) hubEndpoint]).ingest
      taggedPrimitives (sealedBytes 0) hubEndpoint).2 = .data 2 (packetFrom 9) := by
  have hsealed : sealedAfter 0 = ((sealedAfter 0).1, some (sealedBytes 0, hubEndpoint)) :=
    Prod.ext rfl (show (sealedAfter 0).2 = _ by decide +kernel)
  obtain ⟨seq, j, p, hp, -, hsel, -, -, hfresh⟩ :=
    sealed_datagram_ingested taggedPrimitives aeadCorrect_tagged readIpv4Net
      wideMesh { nestedMesh with obfuscate := true }
      wideRuntime { nestedRuntime with obfuscate := true } toRuntime_wideMesh toRuntime_maskedMesh linked_wide
      (.ok minEpochNs) (BitVec.ofNat 64 minEpochNs) 7 rfl []
      [.ingest (sealedBytes 1) hubEndpoint] 0 (.inl rfl) (packetFrom 9)
      (sealedBytes 0) hubEndpoint hubEndpoint _ hsealed (by decide +kernel)
  have hselected : (PeerTable.reach taggedPrimitives { nestedRuntime with obfuscate := true } 7
      [.ingest (sealedBytes 1) hubEndpoint]).selected taggedPrimitives (sealedBytes 0) =
        some (0, sentHeader wideRuntime (BitVec.ofNat 64 minEpochNs) 1 0) := by decide +kernel
  obtain ⟨rfl, hheader⟩ := Prod.mk.inj (Option.some.inj (hsel.symm.trans hselected))
  obtain rfl : seq = 1 := congrArg Header.seq hheader
  obtain ⟨r, hr, hof⟩ := (configured_reach _ _ _).exists_peer hp
  cases hr
  have howns : p.Owns (packetFrom 9) := ⟨Ipv4Addr.new 10 0 0 9, by decide +kernel,
    by rw [hof.allowedSrc]; decide +kernel⟩
  exact (hfresh (by decide +kernel)).2.1 rfl howns

end Rove.Subnetra
