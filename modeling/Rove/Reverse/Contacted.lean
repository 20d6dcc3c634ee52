/-
A UDP association at a hop (`reverse/udp.rs`): the destinations its client has
sent to, of which a bounded number is remembered, and the replies that are let
back in. `window` says what is remembered of a history of destinations;
`hop_relays_only_contacted` that every association remembers exactly that, in
its set and in its queue, and lets nobody else in.
-/
import Rove.Base.HashMap
import Rove.Base.IpDisplay
import Rove.Base.Run
import Rove.Reverse.Datagram

namespace Rove.Reverse

open List

def maxContactedPerSession : Nat := 512

structure Contacted where
  order : List SocketAddr := []
  set : HashMap SocketAddr Unit := ∅

namespace Contacted

def insert (c : Contacted) (addr : SocketAddr) : Contacted :=
  if c.set.containsKey addr then c
  else
    let c := { order := c.order ++ [addr], set := c.set.insert addr () }
    if c.order.length > maxContactedPerSession then
      match c.order with
      | [] => c
      | old :: order => ⟨order, c.set.erase old⟩
    else c

def contains (c : Contacted) (addr : SocketAddr) : Bool := c.set.containsKey addr

end Contacted

structure HopUdpSession where
  sessionId : BitVec 32
  contacted : Contacted := {}
  /-- The answers of the resolver, by `host:port`. -/
  resolved : HashMap Str SocketAddr := ∅

/-- What happens to an association. The resolver's answer, whether the socket
could send, and the size of a datagram are the environment's. -/
inductive HopUdpEvent where
  | uplink (bytes : Bytes) (answer : Option SocketAddr) (sent : Bool)
  | downlink (src : SocketAddr) (payload : Bytes) (maxDatagramSize : Option Nat)

inductive HopUdpAction where
  | nothing
  | sent (addr : SocketAddr) (payload : Bytes)
  | relayed (bytes : Bytes)

namespace HopUdpSession

def resolve (s : HopUdpSession) (host : Str) (port : BitVec 16) (answer : Option SocketAddr) :
    HopUdpSession × Option SocketAddr :=
  let key := host ++ ':' :: showNat port.toNat
  match s.resolved.get? key, answer with
  | some addr, _ => (s, some addr)
  | none, some addr => ({ s with resolved := s.resolved.insert key addr }, some addr)
  | none, none => (s, none)

/-- `uplink`, of a datagram that may be for another association. -/
def uplink (s : HopUdpSession) (bytes : Bytes) (answer : Option SocketAddr) (sent : Bool) :
    HopUdpSession × HopUdpAction :=
  match parseDatagram bytes with
  | .error _ => (s, .nothing)
  | .ok dg =>
    if dg.sessionId ≠ s.sessionId then (s, .nothing)
    else
      match s.resolve dg.host dg.port answer with
      | (s, none) => (s, .nothing)
      | (s, some addr) =>
        if sent then ({ s with contacted := s.contacted.insert addr }, .sent addr dg.payload) else (s, .nothing)

/-- A round of the loop of `spawn_downlink`. -/
def downlink (s : HopUdpSession) (src : SocketAddr) (payload : Bytes) (maxDatagramSize : Option Nat) : HopUdpAction :=
  if s.contacted.contains src then
    match encodeDatagram s.sessionId src.ip.toText src.port payload with
    | none => .nothing
    | some bytes => if maxDatagramSize.any (· < bytes.length) then .nothing else .relayed bytes
  else .nothing

def step (s : HopUdpSession) : HopUdpEvent → HopUdpSession × HopUdpAction
  | .uplink bytes answer sent => s.uplink bytes answer sent
  | .downlink src payload maxDatagramSize => (s, s.downlink src payload maxDatagramSize)

end HopUdpSession

/-! ## What is remembered -/

/-- One more destination: a new one goes to the end, and the oldest goes when
there is no room for it. -/
def remember (window : List SocketAddr) (addr : SocketAddr) : List SocketAddr :=
  if addr ∈ window then window else (window ++ [addr]).drop (window.length + 1 - maxContactedPerSession)

/-- What is remembered of the destinations so far. -/
def window (history : List SocketAddr) : List SocketAddr := history.foldl remember []

/-- The destinations of the packets that were sent. -/
def contacts (trace : List (HopUdpEvent × HopUdpAction)) : List SocketAddr :=
  trace.filterMap fun e => match e.2 with
    | .sent addr _ => some addr
    | _ => none

theorem mem_of_mem_window {history addr} (h : addr ∈ window history) : addr ∈ history := by
  induction history using List.reverseRecOn with
  | nil => exact h
  | append_singleton history a ih =>
    rw [window, foldl_concat, remember] at h
    split at h
    · exact mem_append_left _ (ih h)
    · rcases mem_append.1 (mem_of_mem_drop h) with h | h
      · exact mem_append_left _ (ih h)
      · exact mem_append_right _ h

/-- The set and the queue agree, and remember what they should. -/
structure Contacted.Keeps (c : Contacted) (history : List SocketAddr) : Prop where
  order : c.order = window history
  nodup : c.order.Nodup
  set : ∀ addr, c.set.containsKey addr = true ↔ addr ∈ c.order
  length_le : c.order.length ≤ maxContactedPerSession

theorem Contacted.Keeps.insert {c : Contacted} {history : List SocketAddr} (h : c.Keeps history) (addr : SocketAddr) :
    (c.insert addr).Keeps (history ++ [addr]) ∧ (c.insert addr).contains addr = true := by
  have hwindow : window (history ++ [addr]) = remember c.order addr := by
    rw [window, foldl_concat, h.order, window]
  unfold Contacted.insert Contacted.contains
  split
  · next hold =>
    have hmem := (h.set addr).1 hold
    exact ⟨⟨by rw [hwindow, remember, if_pos hmem], h.nodup, h.set, h.length_le⟩, hold⟩
  · next hnew =>
    have hnot : addr ∉ c.order := fun hmem => hnew ((h.set addr).2 hmem)
    have hnodup : (c.order ++ [addr]).Nodup := by
      simp only [nodup_append, h.nodup, nodup_singleton, mem_singleton, true_and]
      rintro a ha b rfl
      exact ne_of_mem_of_not_mem ha hnot
    have hset : ∀ a, (c.set.insert addr ()).containsKey a = true ↔ a ∈ c.order ++ [addr] := by
      intro a
      by_cases ha : a = addr <;> simp [HashMap.containsKey_insert, ha, h.set]
    have hle := h.length_le
    have hpos : 0 < maxContactedPerSession := by decide
    rw [remember, if_neg hnot] at hwindow
    dsimp only
    split
    · next hfull =>
      rw [length_append, length_singleton] at hfull
      rw [show c.order.length + 1 - maxContactedPerSession = 1 by omega] at hwindow
      -- the queue is full, so there is an oldest one and it is not the new one
      obtain ⟨old, order, horder⟩ := exists_cons_of_ne_nil
        (show c.order ≠ [] by intro hnil; simp [hnil] at hfull; omega)
      rw [horder, cons_append] at hwindow hnodup hset ⊢
      obtain ⟨hold, hnodup⟩ := nodup_cons.1 hnodup
      have hne : addr ≠ old := fun heq => hold (by simp [heq])
      have hlen : c.order.length = order.length + 1 := by rw [horder, length_cons]
      refine ⟨⟨hwindow.symm, hnodup, fun a => ?_, ?_⟩, ?_⟩
      · rw [HashMap.containsKey_erase]
        by_cases ha : a = old
        · simp [ha, hold]
        · simp [ha, hset]
      · simp only [length_append, length_singleton]
        omega
      · simp [HashMap.containsKey_erase, HashMap.containsKey_insert, hne]
    · next hroom =>
      rw [length_append, length_singleton] at hroom
      rw [show c.order.length + 1 - maxContactedPerSession = 0 by omega, drop_zero] at hwindow
      refine ⟨⟨hwindow.symm, hnodup, hset, ?_⟩, by simp [HashMap.containsKey_insert]⟩
      simp only [length_append, length_singleton]
      omega

namespace HopUdpSession

/-- What an association did is what it remembers. -/
structure Sound (s : HopUdpSession) (trace : List (HopUdpEvent × HopUdpAction)) : Prop where
  keeps : s.contacted.Keeps (contacts trace)
  last : ∀ addr, (contacts trace).getLast? = some addr → s.contacted.contains addr = true

theorem contacted_resolve (s : HopUdpSession) (host : Str) (port : BitVec 16) (answer : Option SocketAddr) :
    (s.resolve host port answer).1.contacted = s.contacted := by
  unfold resolve
  dsimp only
  split <;> rfl

theorem uplink_cases (s : HopUdpSession) (bytes : Bytes) (answer : Option SocketAddr) (sent : Bool) :
    ((s.uplink bytes answer sent).1.contacted = s.contacted ∧ (s.uplink bytes answer sent).2 = .nothing) ∨
      ∃ addr payload, (s.uplink bytes answer sent).1.contacted = s.contacted.insert addr ∧
        (s.uplink bytes answer sent).2 = .sent addr payload := by
  unfold uplink
  split
  · exact .inl ⟨rfl, rfl⟩
  · next dg _ =>
    split
    · exact .inl ⟨rfl, rfl⟩
    · have hsame := s.contacted_resolve dg.host dg.port answer
      split
      · next hr => exact .inl ⟨by rw [hr] at hsame; exact hsame, rfl⟩
      · next hr =>
        rw [hr] at hsame
        split
        · exact .inr ⟨_, _, by rw [← hsame], rfl⟩
        · exact .inl ⟨hsame, rfl⟩

theorem Sound.step {s : HopUdpSession} {trace : List (HopUdpEvent × HopUdpAction)}
    (e : HopUdpEvent) (h : Sound s trace) :
    Sound (s.step e).1 (trace ++ [(e, (s.step e).2)]) := by
  have hquiet : ∀ action, (∀ addr payload, action ≠ .sent addr payload) →
    contacts (trace ++ [(e, action)]) = contacts trace := by
    intro action hne
    cases action <;> simp_all [contacts]
  cases e with
  | uplink bytes answer sent =>
    rw [HopUdpSession.step]
    rcases s.uplink_cases bytes answer sent with ⟨hc, ha⟩ | ⟨addr, payload, hc, ha⟩
    · rw [ha]
      exact ⟨by rw [hc, hquiet _ (by simp)]; exact h.keeps, by rw [hc, hquiet _ (by simp)]; exact h.last⟩
    · have hcontacts : contacts (trace ++ [(.uplink bytes answer sent, .sent addr payload)]) =
        contacts trace ++ [addr] := by
        simp [contacts]
      obtain ⟨hkeeps, hlast⟩ := h.keeps.insert addr
      refine ⟨by rw [hc, ha, hcontacts]; exact hkeeps, fun last hl => ?_⟩
      rw [ha, hcontacts, getLast?_concat] at hl
      rw [hc, ← Option.some.inj hl]
      exact hlast
  | downlink src payload maxDatagramSize =>
    have hne : ∀ addr payload', s.downlink src payload maxDatagramSize ≠ .sent addr payload' := by
      intro addr payload'
      unfold downlink
      split
      · split
        · simp
        · split <;> simp
      · simp
    have hsame := hquiet _ hne
    exact ⟨by rw [HopUdpSession.step, hsame]; exact h.keeps, by rw [HopUdpSession.step, hsame]; exact h.last⟩

theorem downlink_relayed {s : HopUdpSession} {src : SocketAddr} {payload bytes : Bytes} {maxDatagramSize : Option Nat}
    (h : s.downlink src payload maxDatagramSize = .relayed bytes) : s.contacted.contains src = true := by
  unfold downlink at h
  split at h
  · next hin => exact hin
  · cases h

end HopUdpSession

/-- Whatever an association sends and receives, its queue holds the last
destinations without repetition and within the capacity, its set holds the same,
the last destination is among them, and a reply goes back only from one that is. -/
theorem hop_relays_only_contacted (sessionId : BitVec 32) (events : List HopUdpEvent) :
    let s := runState HopUdpSession.step ⟨sessionId, {}, ∅⟩ events
    let trace := runTrace HopUdpSession.step ⟨sessionId, {}, ∅⟩ events
    s.contacted.order = window (contacts trace) ∧ s.contacted.order.Nodup ∧
      (∀ addr, s.contacted.set.containsKey addr = true ↔ addr ∈ s.contacted.order) ∧
      s.contacted.order.length ≤ maxContactedPerSession ∧
      (∀ addr, (contacts trace).getLast? = some addr → s.contacted.contains addr = true) ∧
      ∀ before after src payload size bytes, trace = before ++ (.downlink src payload size, .relayed bytes) :: after →
        src ∈ contacts before ∧ src ∈ window (contacts before) := by
  intro s trace
  have hsound : ∀ events, HopUdpSession.Sound (runState HopUdpSession.step ⟨sessionId, {}, ∅⟩ events)
      (runTrace HopUdpSession.step ⟨sessionId, {}, ∅⟩ events) :=
    fun events => @run_induction _ _ _ _ HopUdpSession.Sound (fun _ _ e h => h.step e) _ []
      ⟨⟨rfl, nodup_nil, by simp [HashMap.containsKey], Nat.zero_le _⟩, by simp [contacts]⟩ events
  obtain ⟨⟨horder, hnodup, hset, hlen⟩, hlast⟩ := hsound events
  refine ⟨horder, hnodup, hset, hlen, hlast, fun before after src payload size bytes htrace => ?_⟩
  obtain ⟨events₁, -, -, rfl, haction⟩ := runTrace_eq_append_cons htrace
  have hkeeps := (hsound events₁).keeps
  have hmem := (hkeeps.set src).1 (HopUdpSession.downlink_relayed haction.symm)
  rw [hkeeps.order] at hmem
  exact ⟨mem_of_mem_window hmem, hmem⟩

end Rove.Reverse
