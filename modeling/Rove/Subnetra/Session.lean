/-
The state of one directional link (`subnetra/session.rs`): a receive session,
which authenticates a datagram before anything changes, and a transmit
session, which numbers what it seals.

`accept_safe` is about every history of a receive session,
`seal_never_reuses_nonce_iff` about every history of a transmit session.
-/
import Rove.Subnetra.Replay
import Rove.Subnetra.Wire

namespace Rove.Subnetra

open List

inductive RxOutcome where
  | accept (plaintext : Bytes)
  | drop
  deriving DecidableEq

structure RxSession where
  rxLinkKey : Bytes
  curEpoch : BitVec 64
  curKey : Option Bytes
  replay : ReplayWindow

variable (prims : Primitives)

def RxSession.new (rxLinkKey : Bytes) : RxSession := ⟨rxLinkKey, 0, none, .new⟩

def RxSession.withEpoch (rxLinkKey : Bytes) (epoch : BitVec 64) : RxSession :=
  if epoch ≠ 0 then
    { RxSession.new rxLinkKey with curEpoch := epoch, curKey := some (sessionKey prims rxLinkKey epoch) }
  else RxSession.new rxLinkKey

/-- The end of `accept`: the window has the last word on an authentic datagram. -/
def RxSession.commit (s : RxSession) (seq : BitVec 64) (plaintext : Bytes) : RxSession × RxOutcome :=
  match s.replay.checkAndSet seq with
  | (replay, true) => ({ s with replay }, .accept plaintext)
  | (replay, false) => ({ s with replay }, .drop)

def RxSession.accept (s : RxSession) (header : Header) (body : Bytes) : RxSession × RxOutcome :=
  if header.epoch < s.curEpoch then (s, .drop)
  else if header.epoch = s.curEpoch then
    match s.curKey with
    | none => (s, .drop)
    | some key =>
      match aeadOpen prims key header.seq body with
      | none => (s, .drop)
      | some plaintext => s.commit header.seq plaintext
  else
    let candidate := sessionKey prims s.rxLinkKey header.epoch
    match aeadOpen prims candidate header.seq body with
    | none => (s, .drop)
    | some plaintext =>
      RxSession.commit
        { s with curEpoch := header.epoch, curKey := some candidate, replay := .new } header.seq plaintext

/-! ## One datagram -/

/-- The cached key is the key of the current epoch; there is none before the
first epoch. -/
def RxSession.KeyOK (s : RxSession) : Prop :=
  s.curKey = if s.curEpoch = 0 then none else some (sessionKey prims s.rxLinkKey s.curEpoch)

/-- What is held against a datagram with this epoch and number. -/
def RxSession.Stale (s : RxSession) (epoch seq : BitVec 64) : Prop :=
  epoch < s.curEpoch ∨ (epoch = s.curEpoch ∧ s.replay.Seen seq)

variable {prims}

/-- Everything `accept` can do: drop the datagram and change nothing, or open
it under the key of its epoch, take it in and move to that epoch. -/
theorem RxSession.accept_cases (s : RxSession) (header : Header) (body : Bytes) :
    s.accept prims header body = (s, .drop) ∨
      ∃ key plaintext replay, aeadOpen prims key header.seq body = some plaintext ∧
        ((header.epoch = s.curEpoch ∧ s.curKey = some key ∧ s.replay.checkAndSet header.seq = (replay, true)) ∨
          (s.curEpoch < header.epoch ∧ key = sessionKey prims s.rxLinkKey header.epoch ∧
            ReplayWindow.new.checkAndSet header.seq = (replay, true))) ∧
        s.accept prims header body =
          (⟨s.rxLinkKey, header.epoch, some key, replay⟩, .accept plaintext) := by
  unfold RxSession.accept
  by_cases hlt : header.epoch < s.curEpoch
  · exact .inl (if_pos hlt)
  rw [if_neg hlt]
  by_cases heq : header.epoch = s.curEpoch
  · rw [if_pos heq]
    cases hkey : s.curKey with
    | none => exact .inl rfl
    | some key =>
      cases hopen : aeadOpen prims key header.seq body with
      | none => exact .inl (by simp only [hopen])
      | some plaintext =>
        simp only [hopen]
        cases hset : s.replay.checkAndSet header.seq with
        | mk replay fresh =>
          cases fresh with
          | true =>
            refine .inr ⟨key, plaintext, replay, hopen, .inl ⟨heq, rfl, rfl⟩, ?_⟩
            simp only [RxSession.commit, hset, heq, hkey]
          | false =>
            refine .inl ?_
            simp only [RxSession.commit, hset, ReplayWindow.checkAndSet_drop hset]
  · rw [if_neg heq]
    cases hopen : aeadOpen prims (sessionKey prims s.rxLinkKey header.epoch) header.seq body with
    | none => exact .inl (by simp only [hopen])
    | some plaintext =>
      obtain ⟨replay, hset⟩ := ReplayWindow.checkAndSet_of_not_seen (ReplayWindow.not_seen_new header.seq)
      have hgt : s.curEpoch < header.epoch := BitVec.lt_of_le_ne (BitVec.not_lt.1 hlt) (Ne.symm heq)
      refine .inr ⟨_, plaintext, replay, hopen, .inr ⟨hgt, rfl, hset⟩, ?_⟩
      simp only [hopen, RxSession.commit, hset]

variable {s : RxSession} {header : Header}

theorem RxSession.accept_drop {s' body}
    (h : s.accept prims header body = (s', .drop)) : s' = s := by
  rcases s.accept_cases header body with heq | ⟨_, _, _, _, _, heq⟩
  · exact (Prod.mk.inj (h.symm.trans heq)).1
  · exact absurd (Prod.mk.inj (h.symm.trans heq)).2 (by simp)

theorem RxSession.accept_rxLinkKey (s : RxSession) (header : Header) (body : Bytes) :
    (s.accept prims header body).1.rxLinkKey = s.rxLinkKey := by
  rcases s.accept_cases header body with heq | ⟨_, _, _, _, _, heq⟩
  · rw [heq]
  · rw [heq]

theorem RxSession.KeyOK.eq_of_curKey (hs : s.KeyOK prims) {key} (h : s.curKey = some key) :
    key = sessionKey prims s.rxLinkKey s.curEpoch ∧ s.curEpoch ≠ 0 := by
  rw [RxSession.KeyOK, h] at hs
  split at hs
  · cases hs
  · next hne => exact ⟨Option.some.inj hs, hne⟩

theorem RxSession.KeyOK.accept (hs : s.KeyOK prims) (header : Header) (body : Bytes) :
    (s.accept prims header body).1.KeyOK prims := by
  rcases s.accept_cases header body with heq | ⟨key, _, _, _, hcase, heq⟩
  · rw [heq]
    exact hs
  · rw [heq, RxSession.KeyOK]
    rcases hcase with ⟨hepoch, hcur, _⟩ | ⟨hgt, rfl, _⟩
    · obtain ⟨rfl, hne⟩ := hs.eq_of_curKey hcur
      rw [hepoch, if_neg hne]
    · have hne : header.epoch ≠ 0 := fun hzero => BitVec.not_lt_zero (hzero ▸ hgt)
      rw [if_neg hne]

/-- What a datagram that is taken in tells: it was not stale, and it opened
under the key of its epoch. -/
theorem RxSession.KeyOK.of_accept {s'} (hs : s.KeyOK prims) {body plaintext}
    (h : s.accept prims header body = (s', .accept plaintext)) :
    ¬ s.Stale header.epoch header.seq ∧
      aeadOpen prims (sessionKey prims s.rxLinkKey header.epoch) header.seq body = some plaintext := by
  rcases s.accept_cases header body with heq | ⟨key, pt, replay, hopen, hcase, heq⟩
  · exact absurd (Prod.mk.inj (h.symm.trans heq)).2 (by simp)
  · obtain ⟨_, hpt⟩ := Prod.mk.inj (h.symm.trans heq)
    obtain rfl := RxOutcome.accept.inj hpt
    rcases hcase with ⟨hepoch, hcur, hset⟩ | ⟨hgt, rfl, _⟩
    · refine ⟨fun hstale => ?_, by rw [hepoch, ← (hs.eq_of_curKey hcur).1]; exact hopen⟩
      rcases hstale with hlt | ⟨_, hseen⟩
      · rw [hepoch] at hlt
        exact BitVec.lt_irrefl _ hlt
      · exact ReplayWindow.not_seen_of_checkAndSet hset hseen
    · refine ⟨fun hstale => ?_, hopen⟩
      rcases hstale with hlt | ⟨heq', _⟩
      · exact BitVec.lt_asymm hgt hlt
      · rw [heq'] at hgt
        exact BitVec.lt_irrefl _ hgt

/-- What is not stale and opens under the key of its epoch is taken in. -/
theorem RxSession.KeyOK.accept_of_open (hs : s.KeyOK prims) {body plaintext}
    (hepoch : header.epoch ≠ 0) (hfresh : ¬ s.Stale header.epoch header.seq)
    (hopen : aeadOpen prims (sessionKey prims s.rxLinkKey header.epoch) header.seq body = some plaintext) :
    ∃ s', s.accept prims header body = (s', .accept plaintext) := by
  have hlt : ¬ header.epoch < s.curEpoch := fun hlt => hfresh (.inl hlt)
  unfold RxSession.accept
  rw [if_neg hlt]
  by_cases heq : header.epoch = s.curEpoch
  · have hkey : s.curKey = some (sessionKey prims s.rxLinkKey header.epoch) := by
      rw [hs, if_neg (heq ▸ hepoch), heq]
    obtain ⟨replay, hset⟩ := ReplayWindow.checkAndSet_of_not_seen fun hseen => hfresh (.inr ⟨heq, hseen⟩)
    simp only [if_pos heq, hkey, hopen, RxSession.commit, hset]
    exact ⟨_, rfl⟩
  · obtain ⟨replay, hset⟩ := ReplayWindow.checkAndSet_of_not_seen (ReplayWindow.not_seen_new header.seq)
    simp only [if_neg heq, hopen, RxSession.commit, hset]
    exact ⟨_, rfl⟩

theorem RxSession.Stale.accept {epoch seq} (h : s.Stale epoch seq) (header : Header)
    (body : Bytes) : (s.accept prims header body).1.Stale epoch seq := by
  rcases s.accept_cases header body with heq | ⟨_, _, _, _, hcase, heq⟩
  · rw [heq]
    exact h
  · rw [heq]
    rcases hcase with ⟨hepoch, _, hset⟩ | ⟨hgt, _, _⟩
    · rcases h with hlt | ⟨heq', hseen⟩
      · exact .inl (hepoch ▸ hlt)
      · exact .inr ⟨heq'.trans hepoch.symm, ReplayWindow.seen_of_checkAndSet hset hseen⟩
    · rcases h with hlt | ⟨heq', _⟩
      · exact .inl (BitVec.lt_trans hlt hgt)
      · exact .inl (heq' ▸ hgt)

theorem RxSession.stale_of_accept {s' body plaintext}
    (h : s.accept prims header body = (s', .accept plaintext)) :
    s'.Stale header.epoch header.seq ∧ s'.curEpoch = header.epoch := by
  rcases s.accept_cases header body with heq | ⟨_, _, _, _, hcase, heq⟩
  · exact absurd (Prod.mk.inj (h.symm.trans heq)).2 (by simp)
  · obtain ⟨rfl, _⟩ := Prod.mk.inj (h.symm.trans heq)
    rcases hcase with ⟨_, _, hset⟩ | ⟨_, _, hset⟩
    · exact ⟨.inr ⟨rfl, ReplayWindow.seen_self_of_checkAndSet hset⟩, rfl⟩
    · exact ⟨.inr ⟨rfl, ReplayWindow.seen_self_of_checkAndSet hset⟩, rfl⟩

/-! ## Every history of a receive session -/

variable (prims)

/-- One datagram, as its header and body. -/
def RxSession.receive (s : RxSession) (datagram : Header × Bytes) : RxSession × RxOutcome :=
  s.accept prims datagram.1 datagram.2

/-- The epoch and the number of a datagram that was taken in. -/
def acceptedPair : (Header × Bytes) × RxOutcome → Option (BitVec 64 × BitVec 64)
  | ((header, _), .accept _) => some (header.epoch, header.seq)
  | (_, .drop) => none

/-- The epochs and numbers a session takes in, in order. -/
def RxSession.accepted (s : RxSession) (datagrams : List (Header × Bytes)) : List (BitVec 64 × BitVec 64) :=
  (runTrace (RxSession.receive prims) s datagrams).filterMap acceptedPair

/-- What holds between a session and the history that led to it. -/
structure RxSession.Inv (s : RxSession) (history : List ((Header × Bytes) × RxOutcome)) : Prop where
  key : s.KeyOK prims
  stale : ∀ p ∈ history.filterMap acceptedPair, s.Stale p.1 p.2
  nodup : (history.filterMap acceptedPair).Nodup
  ordered : ((history.filterMap acceptedPair).map Prod.fst).Pairwise (· ≤ ·)

variable {prims}

theorem RxSession.Inv.receive {history}
    (h : s.Inv prims history) (d : Header × Bytes) :
    (s.receive prims d).1.Inv prims (history ++ [(d, (s.receive prims d).2)]) := by
  obtain ⟨header, body⟩ := d
  cases hout : s.accept prims header body with
  | mk s' outcome =>
    simp only [RxSession.receive, hout]
    have hnext : (s.accept prims header body).1 = s' := by rw [hout]
    have hkey : s'.KeyOK prims := hnext ▸ h.key.accept header body
    have hstale : ∀ p ∈ history.filterMap acceptedPair, s'.Stale p.1 p.2 := by
      intro p hp
      rw [← hnext]
      exact (h.stale p hp).accept header body
    cases outcome with
    | drop =>
      have happend : (history ++ [((header, body), RxOutcome.drop)]).filterMap acceptedPair =
          history.filterMap acceptedPair := by
        rw [filterMap_append]
        exact append_nil _
      exact ⟨hkey, happend ▸ hstale, happend ▸ h.nodup, happend ▸ h.ordered⟩
    | accept plaintext =>
      obtain ⟨hfresh, _⟩ := h.key.of_accept hout
      obtain ⟨hself, _⟩ := RxSession.stale_of_accept hout
      have happend : (history ++ [((header, body), RxOutcome.accept plaintext)]).filterMap acceptedPair =
          history.filterMap acceptedPair ++ [(header.epoch, header.seq)] := by
        rw [filterMap_append]
        rfl
      refine ⟨hkey, ?_, ?_, ?_⟩
      · rw [happend, forall_mem_append]
        exact ⟨hstale, by simpa using hself⟩
      · rw [happend, nodup_append]
        refine ⟨h.nodup, nodup_singleton _, fun p hp q hq heq => hfresh ?_⟩
        rw [mem_singleton] at hq
        have := h.stale p hp
        rwa [heq, hq] at this
      · rw [happend, map_append, pairwise_append]
        refine ⟨h.ordered, pairwise_singleton _ _, fun e he f hf => ?_⟩
        obtain ⟨p, hp, rfl⟩ := mem_map.1 he
        obtain rfl : f = header.epoch := by simpa using hf
        -- an epoch above the one of the datagram would make the datagram stale
        refine BitVec.not_lt.1 fun hlt => hfresh ?_
        rcases h.stale p hp with hp | ⟨hp, _⟩
        · exact .inl (BitVec.lt_trans hlt hp)
        · exact .inl (hp ▸ hlt)

theorem RxSession.keyOK_withEpoch (lk : Bytes) (epoch : BitVec 64) :
    (RxSession.withEpoch prims lk epoch).KeyOK prims := by
  unfold RxSession.withEpoch
  split
  · next h => exact (if_neg h).symm
  · rfl

theorem RxSession.withEpoch_rxLinkKey (lk : Bytes) (epoch : BitVec 64) :
    (RxSession.withEpoch prims lk epoch).rxLinkKey = lk := by
  unfold RxSession.withEpoch
  split
  · rfl
  · rfl

theorem RxSession.inv_run (lk : Bytes) (epoch : BitVec 64) (datagrams : List (Header × Bytes)) :
    RxSession.Inv prims (runState (RxSession.receive prims) (RxSession.withEpoch prims lk epoch) datagrams)
      (runTrace (RxSession.receive prims) (RxSession.withEpoch prims lk epoch) datagrams) := by
  have hstart : (RxSession.withEpoch prims lk epoch).Inv prims [] :=
    ⟨RxSession.keyOK_withEpoch lk epoch, by simp, nodup_nil, List.Pairwise.nil⟩
  simpa using run_induction (fun s history d h => h.receive d) hstart datagrams

/-! ## An ideal AEAD -/

/-- A datagram that some party sealed. -/
structure Sealed (Party : Type) where
  sealer : Party
  key : Bytes
  seq : BitVec 64
  flags : UInt8
  plaintext : Bytes

section Ideal

variable {Party : Type} (world : Sealed Party → Prop)

/-- The AEAD opens only what was sealed under the same key and nonce. -/
def IdealAead (prims : Primitives) : Prop :=
  ∀ key n body plaintext, prims.openInPlace key n body = some plaintext →
    ∃ x, world x ∧ x.key = key ∧ nonce x.seq = n ∧ x.plaintext = plaintext ∧ body = aeadSeal prims key x.seq plaintext

/-- Nobody but the peer seals under a session key of the link. -/
def OnlyPeerSeals (prims : Primitives) (linkKey : Bytes) (peer : Party) : Prop :=
  ∀ x, world x → (∃ epoch, x.key = sessionKey prims linkKey epoch) → x.sealer = peer

variable {world}

theorem IdealAead.exists_sealed (hideal : IdealAead world prims) {key seq body plaintext}
    (h : aeadOpen prims key seq body = some plaintext) :
    ∃ x, world x ∧ x.key = key ∧ x.seq = seq ∧ x.plaintext = plaintext ∧
      body = aeadSeal prims x.key x.seq x.plaintext := by
  unfold aeadOpen at h
  split at h
  · cases h
  · obtain ⟨x, hx, hkey, hn, hpt, hbody⟩ := hideal _ _ _ _ h
    exact ⟨x, hx, hkey, nonce_injective hn, hpt, by rw [hkey, hpt]; exact hbody⟩

end Ideal

/-- Over every history of a receive session: each pair of epoch and number is
taken in at most once, the epochs taken in never decrease, a datagram that is
dropped leaves the session as it was, and with an ideal AEAD each text taken in
is one the peer sealed. -/
theorem accept_safe (prims : Primitives) (lk : Bytes) (epoch : BitVec 64) (datagrams : List (Header × Bytes)) :
    ((RxSession.withEpoch prims lk epoch).accepted prims datagrams).Nodup ∧
      (((RxSession.withEpoch prims lk epoch).accepted prims datagrams).map Prod.fst).Pairwise (· ≤ ·) ∧
      (∀ before d after, datagrams = before ++ d :: after →
        let s := runState (RxSession.receive prims) (RxSession.withEpoch prims lk epoch) before
        (s.receive prims d).2 = .drop → (s.receive prims d).1 = s) ∧
      ∀ (Party : Type) (world : Sealed Party → Prop) (peer : Party), IdealAead world prims →
        OnlyPeerSeals world prims lk peer →
        ∀ d plaintext,
          (d, RxOutcome.accept plaintext) ∈ runTrace (RxSession.receive prims) (RxSession.withEpoch prims lk epoch)
            datagrams →
          ∃ x, world x ∧ x.sealer = peer ∧ x.key = sessionKey prims lk d.1.epoch ∧ x.seq = d.1.seq ∧
            x.plaintext = plaintext := by
  have hinv := @RxSession.inv_run prims lk epoch datagrams
  refine ⟨hinv.nodup, hinv.ordered, ?_, ?_⟩
  · intro before d after _ s hdrop
    exact RxSession.accept_drop (Prod.ext rfl hdrop)
  · intro Party world peer hideal honly d plaintext hmem
    obtain ⟨before, after, _, hout⟩ := mem_runTrace hmem
    have hbefore := @RxSession.inv_run prims lk epoch before
    have hkeep : ∀ (s : RxSession) (d : Header × Bytes), s.rxLinkKey = lk → (s.receive prims d).1.rxLinkKey = lk :=
      fun s d h => (s.accept_rxLinkKey d.1 d.2).trans h
    have hlk := runState_induction hkeep (@RxSession.withEpoch_rxLinkKey prims lk epoch) before
    obtain ⟨_, hopen⟩ := hbefore.key.of_accept (Prod.ext rfl hout.symm)
    rw [hlk] at hopen
    obtain ⟨x, hx, hkey, hseq, hpt, _⟩ := hideal.exists_sealed hopen
    exact ⟨x, hx, honly x hx ⟨_, hkey⟩, hkey, hseq, hpt⟩

/-- Primitives under which one text was sealed and nothing else opens; the hash
keeps the first 32 bytes. -/
def solePrimitives (key : Bytes) (seq : BitVec 64) (plaintext : Bytes) : Primitives where
  blake2b key text := (text ++ key ++ replicate 32 0).take 32
  sealInPlace _ _ text := text ++ replicate tagLen 0
  openInPlace k n body :=
    if k = key ∧ n = nonce seq ∧ body = plaintext ++ replicate tagLen 0 then some plaintext else none

theorem idealAead_sole {Party : Type} (sealer : Party) (key : Bytes) (seq : BitVec 64) (flags : UInt8)
    (plaintext : Bytes) :
    IdealAead (fun x => x = ⟨sealer, key, seq, flags, plaintext⟩) (solePrimitives key seq plaintext) := by
  intro k n body text h
  simp only [solePrimitives] at h
  split at h
  · next hcond =>
    obtain ⟨rfl, rfl, rfl⟩ := hcond
    cases h
    exact ⟨_, rfl, rfl, rfl, rfl, rfl⟩
  · cases h

theorem accept_safe_replayed :
    let key := sessionKey (solePrimitives [] 0 []) [1, 2] 9
    let prims := solePrimitives key 1 [7]
    let d : Header × Bytes := (⟨wireVersion, 0, 2, 9, 1⟩, [7] ++ replicate tagLen 0)
    ((RxSession.withEpoch prims [1, 2] 0).accepted prims [d, d]).Nodup ∧
      ∃ x : Sealed Bool, x = ⟨true, key, 1, 0, [7]⟩ ∧ x.plaintext = [7] := by
  intro key prims d
  obtain ⟨hnodup, _, _, hsealed⟩ := accept_safe prims [1, 2] 0 [d, d]
  have hmem : (d, RxOutcome.accept [7]) ∈
      runTrace (RxSession.receive prims) (RxSession.withEpoch prims [1, 2] 0) [d, d] := by decide +kernel
  obtain ⟨x, hx, _, _, _, hpt⟩ := hsealed Bool (fun x => x = ⟨true, key, 1, 0, [7]⟩) true
    (idealAead_sole true key 1 0 [7]) (fun x hx _ => by rw [hx]) d [7] hmem
  exact ⟨hnodup, x, hx, hpt⟩

/-! ## The transmit session -/

/-- `u64::saturating_add`, at any width. -/
def saturatingAdd {w : Nat} (x y : BitVec w) : BitVec w := BitVec.ofNat w (min (x.toNat + y.toNat) (2 ^ w - 1))

structure TxSession where
  txLinkKey : Bytes
  epoch : BitVec 64
  key : Bytes
  localId : BitVec 16
  nextSeq : BitVec 64
  obfuscate : Bool

variable (prims)

def TxSession.new (txLinkKey : Bytes) (localId : BitVec 16) (epoch : BitVec 64) (obfuscate : Bool) : TxSession :=
  ⟨txLinkKey, epoch, sessionKey prims txLinkKey epoch, localId, 1, obfuscate⟩

def TxSession.seal (s : TxSession) (flags : UInt8) (plaintext : Bytes) : TxSession × Bytes :=
  ({ s with nextSeq := saturatingAdd s.nextSeq 1 },
    sealDatagram prims s.txLinkKey s.key s.localId s.epoch s.nextSeq flags plaintext s.obfuscate)

/-- One operation, as its flags and text. -/
def TxSession.sealNext (s : TxSession) (op : UInt8 × Bytes) : TxSession × Bytes := s.seal prims op.1 op.2

/-- The key, the epoch and the number each operation of a run seals with. -/
def TxSession.used (s : TxSession) : List (UInt8 × Bytes) → List (Bytes × BitVec 64 × BitVec 64)
  | [] => []
  | op :: ops => (s.key, s.epoch, s.nextSeq) :: TxSession.used (s.sealNext prims op).1 ops

variable {prims}

/-- The datagrams of a run are the texts, each sealed with what `used` says. -/
theorem TxSession.runTrace_sealNext (s : TxSession) (ops : List (UInt8 × Bytes)) :
    (runTrace (TxSession.sealNext prims) s ops).map Prod.snd =
      ops.zipWith (fun op u => sealDatagram prims s.txLinkKey u.1 s.localId u.2.1 u.2.2 op.1 op.2 s.obfuscate)
        (s.used prims ops) := by
  induction ops generalizing s with
  | nil => rfl
  | cons op ops ih => exact congrArg (_ :: ·) (ih _)

theorem saturatingAdd_one_add (x : BitVec 64) (i : Nat) :
    min ((saturatingAdd x 1).toNat + i) (2 ^ 64 - 1) = min (x.toNat + (i + 1)) (2 ^ 64 - 1) := by
  have hone : (1 : BitVec 64).toNat = 1 := rfl
  simp only [saturatingAdd, BitVec.toNat_ofNat, hone]
  omega

/-- The numbers count up to the last one there is, and stay there. -/
theorem TxSession.used_eq (s : TxSession) (ops : List (UInt8 × Bytes)) :
    s.used prims ops = (List.range ops.length).map fun i =>
      (s.key, s.epoch, BitVec.ofNat 64 (min (s.nextSeq.toNat + i) (2 ^ 64 - 1))) := by
  induction ops generalizing s with
  | nil => rfl
  | cons op ops ih =>
    have hfirst : BitVec.ofNat 64 (min (s.nextSeq.toNat + 0) (2 ^ 64 - 1)) = s.nextSeq := by
      rw [Nat.add_zero, Nat.min_eq_left (Nat.le_sub_one_of_lt s.nextSeq.isLt), BitVec.ofNat_toNat, BitVec.setWidth_eq]
    rw [length_cons, range_succ_eq_map, map_cons, map_map, hfirst, TxSession.used, ih]
    refine congrArg (_ :: ·) (map_congr_left fun i _ => ?_)
    simp only [TxSession.sealNext, TxSession.seal, Function.comp_apply, saturatingAdd_one_add]

/-- Numbers that count up from `start` and stop at the last one there is are
distinct exactly as long as the last one comes up once. -/
theorem nodup_saturating_iff {β : Type} {g : BitVec 64 → β} (hg : Function.Injective g) {start : Nat}
    (hstart : start < 2 ^ 64) (n : Nat) :
    ((List.range n).map fun i => g (BitVec.ofNat 64 (min (start + i) (2 ^ 64 - 1)))).Nodup ↔ n ≤ 2 ^ 64 - start := by
  rw [nodup_map_iff_inj_on nodup_range]
  refine ⟨fun hinj => ?_, fun hn i hi j hj hij => ?_⟩
  · -- otherwise the last number comes up at two neighbouring places
    refine Nat.le_of_not_lt fun hn => ?_
    have hlast : 2 ^ 64 - 1 - start = 2 ^ 64 - start :=
      hinj _ (mem_range.2 (by omega)) _ (mem_range.2 (by omega)) (congrArg g (congrArg _ (by omega)))
    omega
  · rw [mem_range] at hi hj
    have hnat := congrArg BitVec.toNat (hg hij)
    simp only [BitVec.toNat_ofNat] at hnat
    omega

/-- A run of a fresh transmit session never seals twice with one key, epoch
and number, nor with one key and nonce, exactly when it is shorter than the
space of numbers: past its end `seal` repeats the last number. -/
theorem seal_never_reuses_nonce_iff (prims : Primitives) (txLinkKey : Bytes) (localId : BitVec 16) (epoch : BitVec 64)
    (obfuscate : Bool) (ops : List (UInt8 × Bytes)) :
    let s := TxSession.new prims txLinkKey localId epoch obfuscate
    (runTrace (TxSession.sealNext prims) s ops).map Prod.snd =
        ops.zipWith (fun op u => sealDatagram prims txLinkKey u.1 localId u.2.1 u.2.2 op.1 op.2 obfuscate)
          (s.used prims ops) ∧
      ((s.used prims ops).Nodup ↔ ops.length ≤ 2 ^ 64 - 1) ∧
      (((s.used prims ops).map fun u => (u.1, nonce u.2.2)).Nodup ↔ ops.length ≤ 2 ^ 64 - 1) := by
  intro s
  have hone : s.nextSeq.toNat = 1 := rfl
  refine ⟨s.runTrace_sealNext ops, ?_, ?_⟩
  · have hinj : Function.Injective fun seq : BitVec 64 => (s.key, s.epoch, seq) :=
      fun a b h => (Prod.mk.inj (Prod.mk.inj h).2).2
    rw [s.used_eq, hone]
    exact nodup_saturating_iff hinj (by decide) ops.length
  · have hinj : Function.Injective fun seq : BitVec 64 => (s.key, nonce seq) :=
      fun a b h => nonce_injective (Prod.mk.inj h).2
    rw [s.used_eq, hone, map_map]
    exact nodup_saturating_iff hinj (by decide) ops.length

/-- After as many datagrams as there are numbers, the last two share one. -/
theorem seal_repeats_last_number :
    let s := TxSession.new (solePrimitives [] 0 []) [1, 2] 2 9 false
    ¬ (s.used (solePrimitives [] 0 []) (replicate (2 ^ 64) (0, [7]))).Nodup := by
  intro s hnodup
  have hinj : Function.Injective fun seq : BitVec 64 => (s.key, s.epoch, seq) :=
    fun a b h => (Prod.mk.inj (Prod.mk.inj h).2).2
  have hone : s.nextSeq.toNat = 1 := rfl
  rw [s.used_eq, hone, length_replicate] at hnodup
  have := (nodup_saturating_iff hinj (by decide) (2 ^ 64)).1 hnodup
  omega

end Rove.Subnetra
