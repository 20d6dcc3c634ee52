/-
The UDP associations on one hop connection, as the edge keeps them
(`EdgeUdpConn` and `UdpRelay` of `reverse/udp.rs`, `open_udp` of
`reverse/edge.rs`): opening one draws a session id, registering its channel
and dropping it go by that id alone.

An association is known by how many ids were drawn before its own. What the
hop sends back names a session id; the association that was opened with it is
the one it is meant for.
-/
import Rove.Base.Counter
import Rove.Base.HashMap
import Rove.Base.Run
import Rove.Base.Utf8

namespace Rove.Reverse

open List

/-- `next_session_id`: the id, and the counter after it. The loop goes round a
second time on zero; draws made in between by others only change who gets
which id. -/
def nextSessionId (seq : BitVec 32) : BitVec 32 × BitVec 32 := if seq = 0 then (1, 2) else (seq, seq + 1)

structure ReturnPacket where
  host : Str
  port : BitVec 16
  payload : Bytes

/-- A `UdpRelay`, or an opening one: the association and its session id. -/
structure UdpRelay where
  association : Nat
  sessionId : BitVec 32
  deriving DecidableEq

/-- A hop connection as far as UDP goes. The ids drawn so far are history. -/
structure UdpConn where
  supportsUdp : Bool
  permits : Nat
  seq : BitVec 32 := 0
  /-- the associations whose channels are registered -/
  sessions : HashMap (BitVec 32) Nat := ∅
  opening : List UdpRelay := []
  live : List UdpRelay := []
  ids : List (BitVec 32) := []

inductive UdpEvent where
  /-- `open_udp` is called -/
  | openUdp
  /-- the opening of an association ends with `OK`, or fails -/
  | answer (association : Nat) (ok : Bool)
  /-- a relay is dropped -/
  | drop (association : Nat)
  /-- the hop returns a packet for an association, whose queue may have room -/
  | returned (association : Nat) (packet : ReturnPacket) (room : Bool)
  /-- a TCP tunnel takes a permit, or gives it back -/
  | tunnel (opened : Bool)

namespace UdpConn

/-- `open_udp` up to the request that it sends. -/
def openUdp (s : UdpConn) : UdpConn :=
  if s.supportsUdp ∧ 0 < s.permits then
    let (sessionId, seq) := nextSessionId s.seq
    { s with
      permits := s.permits - 1
      seq
      opening := ⟨s.ids.length, sessionId⟩ :: s.opening
      ids := s.ids ++ [sessionId] }
  else s

/-- The end of `open_udp`: `build_relay`, or nothing but the permit back. -/
def answer (s : UdpConn) (relay : UdpRelay) (ok : Bool) : UdpConn :=
  let s := { s with opening := s.opening.erase relay }
  if ok then
    { s with
      sessions := s.sessions.insert relay.sessionId relay.association
      live := relay :: s.live }
  else { s with permits := s.permits + 1 }

def drop (s : UdpConn) (relay : UdpRelay) : UdpConn :=
  { s with
    sessions := s.sessions.erase relay.sessionId
    live := s.live.erase relay
    permits := s.permits + 1 }

/-- `route`: the association to whose channel the packet goes; a full queue drops it. -/
def route (s : UdpConn) (sessionId : BitVec 32) (packet : ReturnPacket) (room : Bool) : Option (Nat × ReturnPacket) :=
  match s.sessions.get? sessionId with
  | some association => if room then some (association, packet) else none
  | none => none

/-- One event, with what was delivered to whom. -/
def step (s : UdpConn) : UdpEvent → UdpConn × Option (Nat × ReturnPacket)
  | .openUdp => (s.openUdp, none)
  | .answer association ok =>
    match s.opening.find? (·.association = association) with
    | some relay => (s.answer relay ok, none)
    | none => (s, none)
  | .drop association =>
    match s.live.find? (·.association = association) with
    | some relay => (s.drop relay, none)
    | none => (s, none)
  | .returned association packet room =>
    match s.ids[association]? with
    | some sessionId => (s, s.route sessionId packet room)
    | none => (s, none)
  | .tunnel opened =>
    if opened then (if 0 < s.permits then ({ s with permits := s.permits - 1 }, none) else (s, none))
    else ({ s with permits := s.permits + 1 }, none)

/-! ## What is to hold -/

/-- Of a step: the live associations it leaves have different ids, a packet goes
to the association it is meant for, and dropping one leaves the others
registered. -/
structure Isolated (s : UdpConn) (e : UdpEvent) : Prop where
  distinct : ∀ a ∈ (s.step e).1.live, ∀ b ∈ (s.step e).1.live, a.sessionId = b.sessionId → a = b
  delivered : ∀ n packet room, e = .returned n packet room → ∀ m p, (s.step e).2 = some (m, p) → m = n
  dropped : ∀ n, e = .drop n → ∀ a ∈ s.live, a.association ≠ n →
    s.sessions.get? a.sessionId = some a.association → (s.step e).1.sessions.get? a.sessionId = some a.association

/-- How many ids there are: all but zero. -/
def idCount : Nat := 2 ^ 32 - 1

/-- Of a step: the association that comes to be live, or that a packet is
returned for, is not a whole number of rounds of the ids away from another
live one. -/
def Clear (s : UdpConn) : UdpEvent → Prop
  | .answer n true => (∃ a ∈ s.opening, a.association = n) → ∀ a ∈ s.live, a.association % idCount ≠ n % idCount
  | .returned n _ true => n < s.ids.length → ∀ a ∈ s.live, a.association % idCount = n % idCount → a.association = n
  | _ => True

/-! ## The ids drawn -/

/-- The session id of an association. -/
def sessionIdAt (n : Nat) : BitVec 32 := BitVec.ofNat 32 (roundDraw 1 idCount n)

theorem toNat_sessionIdAt (n : Nat) : (sessionIdAt n).toNat = roundDraw 1 idCount n := by
  have hlt : roundDraw 1 idCount n < 1 + idCount := roundDraw_lt (by decide)
  rw [sessionIdAt, BitVec.toNat_ofNat, Nat.mod_eq_of_lt (by simpa [idCount] using hlt)]

theorem sessionIdAt_eq_iff {n m} : sessionIdAt n = sessionIdAt m ↔ n % idCount = m % idCount := by
  rw [← BitVec.toNat_inj, toNat_sessionIdAt, toNat_sessionIdAt, roundDraw_eq_iff]

theorem nextSessionId_succ {seq n} (h : (nextSessionId seq).1 = sessionIdAt n) :
    (nextSessionId (nextSessionId seq).2).1 = sessionIdAt (n + 1) := by
  have hnext : (nextSessionId seq).2 = sessionIdAt n + 1 := by
    rw [← h]
    unfold nextSessionId
    split <;> rfl
  have hcount : 1 + idCount = 2 ^ 32 := rfl
  have hlt : roundDraw 1 idCount n < 1 + idCount := roundDraw_lt (by decide)
  have hsucc := @roundDraw_succ 1 idCount n (by decide)
  have hadd : (sessionIdAt n + 1).toNat = (roundDraw 1 idCount n + 1) % 2 ^ 32 := by
    rw [BitVec.toNat_add, toNat_sessionIdAt]
    rfl
  rw [hnext]
  refine BitVec.eq_of_toNat_eq ?_
  rw [toNat_sessionIdAt, hsucc]
  by_cases hlast : roundDraw 1 idCount n + 1 = 2 ^ 32
  · have hzero : sessionIdAt n + 1 = 0 := BitVec.eq_of_toNat_eq (by rw [hadd, hlast]; rfl)
    rw [hzero, if_pos (by omega)]
    rfl
  · rw [Nat.mod_eq_of_lt (by omega)] at hadd
    have hne : sessionIdAt n + 1 ≠ 0 := by
      intro hzero
      rw [hzero] at hadd
      cases hadd
    rw [nextSessionId, if_neg hne, hadd, if_neg (by omega)]

/-! ## The invariant -/

/-- Every association has the id of its turn, and the channels registered are
those of the live ones. -/
structure Exact (s : UdpConn) : Prop where
  next : (nextSessionId s.seq).1 = sessionIdAt s.ids.length
  ids : s.ids = (List.range s.ids.length).map sessionIdAt
  opening : ∀ a ∈ s.opening, a.association < s.ids.length ∧ a.sessionId = sessionIdAt a.association
  live : ∀ a ∈ s.live, a.association < s.ids.length ∧ a.sessionId = sessionIdAt a.association
  nodup : ((s.opening ++ s.live).map (·.association)).Nodup
  sessions : ∀ id n, s.sessions.get? id = some n ↔ ⟨n, id⟩ ∈ s.live

namespace Exact

variable {s : UdpConn}

theorem distinct (h : Exact s) {a b} (ha : a ∈ s.live) (hb : b ∈ s.live) (heq : a.sessionId = b.sessionId) :
    a = b := by
  have hga := (h.sessions a.sessionId a.association).2 ha
  have hgb := (h.sessions b.sessionId b.association).2 hb
  rw [heq, hgb] at hga
  obtain ⟨n, id⟩ := a
  obtain ⟨m, id'⟩ := b
  rw [UdpRelay.mk.injEq]
  exact ⟨(Option.some.inj hga).symm, heq⟩

theorem apart (h : Exact s) {a b} (ha : a ∈ s.opening) (hb : b ∈ s.live) : a.association ≠ b.association := by
  have hnodup := h.nodup
  rw [map_append, nodup_append'] at hnodup
  exact fun heq => hnodup.2.2 (mem_map_of_mem ha) (heq ▸ mem_map_of_mem hb)

theorem id_eq (h : Exact s) {n id} (hid : s.ids[n]? = some id) : id = sessionIdAt n := by
  rw [h.ids, getElem?_map] at hid
  obtain ⟨k, hk, rfl⟩ := Option.map_eq_some_iff.1 hid
  obtain ⟨hlt, hget⟩ := List.getElem?_eq_some_iff.1 hk
  rw [← hget, getElem_range]

theorem start (supportsUdp : Bool) (permits : Nat) : Exact { supportsUdp, permits } where
  next := rfl
  ids := rfl
  opening := fun a ha => absurd ha not_mem_nil
  live := fun a ha => absurd ha not_mem_nil
  nodup := nodup_nil
  sessions := fun id n => by simp

theorem openUdp (h : Exact s) : Exact s.openUdp := by
  unfold UdpConn.openUdp
  split
  · have hlen : (s.ids ++ [(nextSessionId s.seq).1]).length = s.ids.length + 1 := by simp
    constructor
    · show (nextSessionId (nextSessionId s.seq).2).1 = sessionIdAt (s.ids ++ [(nextSessionId s.seq).1]).length
      rw [hlen]
      exact nextSessionId_succ h.next
    · show s.ids ++ [(nextSessionId s.seq).1] = (List.range (s.ids ++ [(nextSessionId s.seq).1]).length).map sessionIdAt
      rw [hlen, range_succ, map_append, ← h.ids, h.next]
      rfl
    · intro a ha
      show a.association < (s.ids ++ [(nextSessionId s.seq).1]).length ∧ _
      rw [hlen]
      rcases mem_cons.1 ha with rfl | ha
      · exact ⟨Nat.lt_succ_self _, h.next⟩
      · exact ⟨Nat.lt_succ_of_lt (h.opening a ha).1, (h.opening a ha).2⟩
    · intro a ha
      show a.association < (s.ids ++ [(nextSessionId s.seq).1]).length ∧ _
      rw [hlen]
      exact ⟨Nat.lt_succ_of_lt (h.live a ha).1, (h.live a ha).2⟩
    · refine nodup_cons.2 ⟨fun hmem => ?_, h.nodup⟩
      -- the new number is above all others
      obtain ⟨a, ha, heq⟩ := mem_map.1 hmem
      have hlt : a.association < s.ids.length := by
        rcases mem_append.1 ha with ha | ha
        · exact (h.opening a ha).1
        · exact (h.live a ha).1
      exact absurd heq (Nat.ne_of_lt hlt)
    · exact h.sessions
  · exact h

/-- An association becomes live, if no other live one has its id. -/
theorem answer_ok (h : Exact s) {relay} (hrelay : relay ∈ s.opening)
    (hclear : ∀ a ∈ s.live, a.sessionId ≠ relay.sessionId) : Exact (s.answer relay true) where
  next := h.next
  ids := h.ids
  opening := fun a ha => h.opening a (mem_of_mem_erase ha)
  live := fun a ha => by
    rcases mem_cons.1 ha with rfl | ha
    · exact h.opening a hrelay
    · exact h.live a ha
  nodup := by
    have hperm : (s.opening.erase relay ++ relay :: s.live).Perm (s.opening ++ s.live) :=
      perm_middle.trans ((perm_cons_erase hrelay).symm.append_right s.live)
    exact (hperm.map _).nodup_iff.2 h.nodup
  sessions := fun id n => by
    show (s.sessions.insert relay.sessionId relay.association).get? id = some n ↔ ⟨n, id⟩ ∈ relay :: s.live
    rw [HashMap.get?_insert, mem_cons]
    split
    · next hid =>
      subst hid
      constructor
      · intro heq
        rw [← Option.some.inj heq]
        exact .inl rfl
      · rintro (heq | hmem)
        · rw [← heq]
        · exact absurd rfl (hclear ⟨n, relay.sessionId⟩ hmem)
    · next hne =>
      rw [h.sessions, or_iff_right]
      exact fun heq => hne (congrArg UdpRelay.sessionId heq)

theorem answer_err (h : Exact s) (relay : UdpRelay) : Exact (s.answer relay false) where
  next := h.next
  ids := h.ids
  opening := fun a ha => h.opening a (mem_of_mem_erase ha)
  live := h.live
  nodup := h.nodup.sublist (((erase_sublist).append_right _).map _)
  sessions := h.sessions

theorem drop (h : Exact s) {relay} (hrelay : relay ∈ s.live) : Exact (s.drop relay) where
  next := h.next
  ids := h.ids
  opening := h.opening
  live := fun a ha => h.live a (mem_of_mem_erase ha)
  nodup := h.nodup.sublist (((erase_sublist).append_left _).map _)
  sessions := fun id n => by
    have hnodup : s.live.Nodup := (List.Nodup.of_map _ h.nodup).of_append_right
    show (s.sessions.erase relay.sessionId).get? id = some n ↔ ⟨n, id⟩ ∈ s.live.erase relay
    rw [HashMap.get?_erase, hnodup.mem_erase_iff]
    split
    · next hid =>
      subst hid
      constructor
      · intro hnone
        cases hnone
      · rintro ⟨hne, hmem⟩
        exact absurd (h.distinct hmem hrelay rfl) hne
    · next hne =>
      rw [h.sessions, and_iff_right]
      exact fun heq => hne (congrArg UdpRelay.sessionId heq)

end Exact

theorem mem_of_find {l : List UdpRelay} {n : Nat} {relay : UdpRelay} (h : l.find? (·.association = n) = some relay) :
    relay ∈ l ∧ relay.association = n :=
  ⟨mem_of_find?_eq_some h, by simpa using find?_some h⟩

theorem exact_step {s : UdpConn} {e : UdpEvent} (h : Exact s) (hclear : s.Clear e) : Exact (s.step e).1 := by
  cases e with
  | openUdp => exact h.openUdp
  | answer n ok =>
    unfold step
    dsimp only
    split
    · next relay hfind =>
      obtain ⟨hmem, rfl⟩ := mem_of_find hfind
      cases ok with
      | false => exact h.answer_err relay
      | true =>
        refine h.answer_ok hmem fun a ha heq => hclear ⟨relay, hmem, rfl⟩ a ha ?_
        rwa [(h.live a ha).2, (h.opening relay hmem).2, sessionIdAt_eq_iff] at heq
    · exact h
  | drop n =>
    unfold step
    dsimp only
    split
    · next relay hfind => exact h.drop (mem_of_find hfind).1
    · exact h
  | returned n packet room =>
    unfold step
    dsimp only
    split <;> exact h
  | tunnel opened =>
    unfold step
    dsimp only
    split
    · split
      · exact ⟨h.next, h.ids, h.opening, h.live, h.nodup, h.sessions⟩
      · exact h
    · exact ⟨h.next, h.ids, h.opening, h.live, h.nodup, h.sessions⟩

/-- Where the channels are those of the live associations, clear steps are the ones that isolate. -/
theorem isolated_iff_clear {s : UdpConn} (h : Exact s) (e : UdpEvent) : s.Isolated e ↔ s.Clear e := by
  constructor
  · intro hiso
    cases e with
    | answer n ok =>
      cases ok with
      | false => trivial
      | true =>
        rintro ⟨relay, hrelay, hn⟩ a ha hmod
        cases hfind : s.opening.find? (·.association = n) with
        | none => exact absurd hn (by simpa using find?_eq_none.1 hfind relay hrelay)
        | some relay =>
          obtain ⟨hmem, rfl⟩ := mem_of_find hfind
          have hlive : (s.step (.answer relay.association true)).1.live = relay :: s.live := by
            simp only [step, hfind, answer, if_true]
          have heq : a.sessionId = relay.sessionId := by
            rw [(h.live a ha).2, (h.opening relay hmem).2, sessionIdAt_eq_iff.2 hmod]
          have hsame := hiso.distinct a (hlive ▸ mem_cons_of_mem _ ha) relay (hlive ▸ mem_cons_self) heq
          exact h.apart hmem ha (congrArg _ hsame.symm)
    | returned n packet room =>
      cases room with
      | false => trivial
      | true =>
        intro hlt a ha hmod
        have hid : s.ids[n]? = some a.sessionId := by
          rw [getElem?_eq_getElem hlt, h.id_eq (getElem?_eq_getElem hlt), (h.live a ha).2,
            sessionIdAt_eq_iff.2 hmod]
        have hget : s.sessions.get? a.sessionId = some a.association := (h.sessions _ _).2 ha
        refine hiso.delivered n packet true rfl a.association packet ?_
        simp only [step, hid, route, hget, if_true]
    | openUdp => trivial
    | drop n => trivial
    | tunnel opened => trivial
  · intro hclear
    refine ⟨fun a ha b hb heq => (exact_step h hclear).distinct ha hb heq, ?_, ?_⟩
    · rintro n packet room rfl m p hout
      unfold step at hout
      dsimp only at hout
      split at hout
      · next id hid =>
        unfold route at hout
        split at hout
        · next k hk =>
          split at hout
          · next hroom =>
            obtain ⟨rfl, -⟩ := Prod.mk.inj (Option.some.inj hout)
            subst hroom
            have hmem := (h.sessions _ _).1 hk
            have hmod : sessionIdAt k = sessionIdAt n := by
              rw [← (h.live _ hmem).2, ← h.id_eq hid]
            obtain ⟨hlt, -⟩ := List.getElem?_eq_some_iff.1 hid
            exact hclear hlt _ hmem (sessionIdAt_eq_iff.1 hmod)
          · cases hout
        · cases hout
      · cases hout
    · rintro n rfl a ha hne hget
      unfold step
      dsimp only
      split
      · next relay hfind =>
        obtain ⟨hmem, rfl⟩ := mem_of_find hfind
        have hother : a.sessionId ≠ relay.sessionId := fun heq => hne (congrArg _ (h.distinct ha hmem heq))
        exact (HashMap.get?_erase ..).trans ((if_neg hother).trans hget)
      · exact hget

end UdpConn

/-- Over every run on a hop connection, whatever its permits: the live
associations have different ids after each step, each returned packet goes to
the association it is meant for, and dropping one leaves the others registered,
if and only if no association comes to be live, and none has a packet
returned, while another is live whose id was drawn a multiple of `2 ^ 32 - 1`
draws before or after its own. -/
theorem associations_isolated_iff (supportsUdp : Bool) (permits : Nat) (events : List UdpEvent) :
    EveryStep UdpConn.step UdpConn.Isolated { supportsUdp, permits } events ↔
      EveryStep UdpConn.step UdpConn.Clear { supportsUdp, permits } events :=
  @everyStep_iff _ _ _ UdpConn.step UdpConn.Exact _ _ (fun _ e h => UdpConn.isolated_iff_clear h e)
    (fun _ _ h hclear => UdpConn.exact_step h hclear) _ (UdpConn.Exact.start supportsUdp permits) events

/-! ## An id that comes round -/

/-- So many associations, from a number on, that the hop refuses. -/
def refusedOpens : Nat → Nat → List UdpEvent
  | _, 0 => []
  | n, k + 1 => .openUdp :: .answer n false :: refusedOpens (n + 1) k

namespace UdpConn

theorem run_refusedOpens {s} (h : Exact s) (hudp : s.supportsUdp = true) (hpermits : 0 < s.permits)
    (hopening : s.opening = []) (k : Nat) :
    ∃ seq ids, runState step s (refusedOpens s.ids.length k) = { s with seq, ids } ∧ s.ids <+: ids ∧
      ids.length = s.ids.length + k ∧ (nextSessionId seq).1 = sessionIdAt (s.ids.length + k) := by
  induction k generalizing s with
  | zero => exact ⟨s.seq, s.ids, rfl, prefix_rfl, rfl, h.next⟩
  | succ k ih =>
    have hopen : s.openUdp = { s with
        permits := s.permits - 1, seq := (nextSessionId s.seq).2,
        opening := [⟨s.ids.length, (nextSessionId s.seq).1⟩], ids := s.ids ++ [(nextSessionId s.seq).1] } := by
      rw [openUdp, if_pos ⟨hudp, hpermits⟩, hopening]
    have hround : (s.openUdp.step (.answer s.ids.length false)).1 =
        { s with seq := (nextSessionId s.seq).2, ids := s.ids ++ [(nextSessionId s.seq).1] } := by
      rw [hopen]
      simp [step, answer, hopening, Nat.sub_add_cancel hpermits]
    have hexact := exact_step (exact_step (e := .openUdp) h trivial) (e := .answer s.ids.length false) trivial
    rw [show (s.step .openUdp).1 = s.openUdp from rfl, hround] at hexact
    obtain ⟨seq, ids, hrun, hids, hlen, hnext⟩ := ih hexact hudp hpermits hopening
    rw [length_append, length_singleton] at hrun hlen hnext
    refine ⟨seq, ids, ?_, (prefix_append ..).trans hids, by omega, by rw [hnext, Nat.add_assoc, Nat.add_comm 1]⟩
    show runState step (s.openUdp.step (.answer s.ids.length false)).1 (refusedOpens (s.ids.length + 1) k) = _
    rw [hround, hrun]

/-- A connection with one association live, the first of all. -/
def oneLive : UdpConn :=
  { supportsUdp := true, permits := 1, seq := 2, sessions := HashMap.insert ∅ 1 0, live := [⟨0, 1⟩], ids := [1] }

theorem run_oneLive : runState step { supportsUdp := true, permits := 2 } [.openUdp, .answer 0 true] = oneLive := rfl

theorem exact_oneLive : Exact oneLive := by
  have hopened := exact_step (e := .openUdp) (Exact.start true 2) trivial
  refine exact_step (e := .answer 0 true) hopened fun _ a ha => ?_
  cases ha

/-- Where the next id to be drawn is that of the live association, and one more
is opened: both have the id, and only the new one is registered. -/
theorem misrouted {mid seq ids}
    (hrun : runState step oneLive mid = { oneLive with seq, ids }) (hids : oneLive.ids <+: ids)
    (hseq : (nextSessionId seq).1 = 1) {n} (hn : ids.length = n) (hpos : n ≠ 0) (packet : ReturnPacket) :
    let s := runState step { supportsUdp := true, permits := 2 }
      ([.openUdp, .answer 0 true] ++ mid ++ [.openUdp, .answer n true])
    s.live = [⟨n, 1⟩, ⟨0, 1⟩] ∧ (s.step (.returned 0 packet true)).2 = some (n, packet) ∧
      s.sessions.get? 1 = some n ∧ (s.step (.drop 0)).1.sessions.get? 1 = none := by
  intro s
  have hs : s = { oneLive with
      permits := 0, seq := (nextSessionId seq).2, sessions := oneLive.sessions.insert 1 n,
      live := [⟨n, 1⟩, ⟨0, 1⟩], ids := ids ++ [1] } := by
    subst hn
    show runState step _ _ = _
    rw [runState_append, runState_append, run_oneLive, hrun]
    simp [runState, step, openUdp, oneLive, answer, hseq]
  have hlive : s.live = [⟨n, 1⟩, ⟨0, 1⟩] := by rw [hs]
  have hget : s.sessions.get? 1 = some n := by
    rw [hs]
    exact HashMap.get?_insert_self ..
  have hfirst : s.ids[0]? = some 1 := by
    obtain ⟨more, rfl⟩ := hids
    rw [hs]
    rfl
  refine ⟨hlive, ?_, hget, ?_⟩
  · simp only [step, hfirst, route, hget, if_true]
  · simp [step, hlive, drop, hpos, HashMap.get?_erase]

end UdpConn

/-- One association stays live while the hop refuses all others of a round; the
next gets its id. A packet for the first then goes to the last, and dropping
the first unregisters the last. -/
theorem session_id_comes_round :
    let packet : ReturnPacket := ⟨"h", 53, [1]⟩
    let s := runState UdpConn.step { supportsUdp := true, permits := 2 }
      ([.openUdp, .answer 0 true] ++ refusedOpens 1 (2 ^ 32 - 2) ++ [.openUdp, .answer (2 ^ 32 - 1) true])
    s.live = [⟨2 ^ 32 - 1, 1⟩, ⟨0, 1⟩] ∧ (s.step (.returned 0 packet true)).2 = some (2 ^ 32 - 1, packet) ∧
      s.sessions.get? 1 = some (2 ^ 32 - 1) ∧ (s.step (.drop 0)).1.sessions.get? 1 = none := by
  obtain ⟨seq, ids, hrun, hids, hlen, hnext⟩ :=
    UdpConn.run_refusedOpens UdpConn.exact_oneLive rfl (by decide) rfl (2 ^ 32 - 2)
  have hone : UdpConn.oneLive.ids.length = 1 := rfl
  have hsum : 1 + (2 ^ 32 - 2) = 2 ^ 32 - 1 := by decide
  rw [hone] at hrun
  rw [hone, hsum] at hlen hnext
  have hround : (2 ^ 32 - 1) % UdpConn.idCount = 0 % UdpConn.idCount := by decide
  have hid : (nextSessionId seq).1 = 1 := by
    rw [hnext, UdpConn.sessionIdAt_eq_iff.2 hround]
    decide
  exact UdpConn.misrouted hrun hids hid hlen (by decide) _

end Rove.Reverse
