/-
The UDP flows of a connector session and the registry of the process
(`ingress/metadata.rs`). Other sessions register and remove sockets of their own
in between.

The datagram loop registers a socket and starts its return task before it waits
for the flows, so a loop that is aborted there, or is still there when the flows
are cleared, leaves both behind (`leftBehind_of_abort`). `flows_match_registry`
is about the sessions where this does not happen.
-/
import Rove.Ingress.Connector

namespace Rove.Ingress.Connector

open List HashMap

/-- A step of the session, or another session that registers a socket or removes it. -/
inductive Move where
  | own (e : Event)
  | other (source : SocketAddr) (m : Option IngressMetadata)

/-- A session, the flows it has entered and the datagrams it has sent, each with
its client, and whether `connect_and_serve` has returned. -/
structure Process where
  state : State := {}
  opened : List (FlowKey × SocketAddr) := []
  carried : List (FlowKey × SocketAddr) := []
  returned : Bool := false

def State.opens (st : State) : Event → List (FlowKey × SocketAddr)
  | .enter =>
    match st.udp with
    | .entering u _ _ => [(u.key, u.clientAddr)]
    | _ => []
  | _ => []

def State.carries (st : State) : Event → List (FlowKey × SocketAddr)
  | .sent _ =>
    match st.udp with
    | .sending u _ => [(u.key, u.clientAddr)]
    | _ => []
  | _ => []

def Event.ends : Event → Bool
  | .clearFlows => true
  | _ => false

def Process.step (s : Session) (p : Process) : Move → Process × List Effect
  | .own e =>
    (⟨(Connector.step s p.state e).1, p.state.opens e ++ p.opened,
      p.state.carries e ++ p.carried, e.ends || p.returned⟩,
      (Connector.step s p.state e).2)
  | .other source (some m) => ({ p with state.entries := p.state.entries.insert source m }, [])
  | .other source none => ({ p with state.entries := p.state.entries.erase source }, [])

/-! ## Live flows and the registry -/

/-- The entry of a flow. -/
structure IngressMetadata.IsOf (m : IngressMetadata) (session : Str) (key : FlowKey) (client : SocketAddr) : Prop where
  session : m.tunnelSessionId = session
  leaseId : m.leaseId = key.1
  flowId : m.flowId = some key.2.toText
  clientAddr : m.clientAddr = client

/-- The registry has one entry of a session for each live flow, at the flow's own
socket, and no other; nor is there another return task. -/
structure Matches (session : Str) (live : FlowKey → SocketAddr → SocketAddr → Prop)
    (entries : HashMap SocketAddr IngressMetadata) (returns : List ReturnTask) : Prop where
  entry : ∀ source m, entries.get? source = some m → m.tunnelSessionId = session → ∃ key client, live key client source
  registered : ∀ key client source, live key client source →
    ∃ m, entries.get? source = some m ∧ m.IsOf session key client
  socket : ∀ key client key' client' source, live key client source → live key' client' source → key = key'
  flow : ∀ key client client' source source', live key client source → live key client' source' →
    client = client' ∧ source = source'
  task : ∀ t ∈ returns, ∃ key client, live key client t.source

section
variable {session : Str} {live live' : FlowKey → SocketAddr → SocketAddr → Prop}
  {entries : HashMap SocketAddr IngressMetadata} {returns : List ReturnTask} {key : FlowKey}
  {client source : SocketAddr}

theorem Matches.congr (h : Matches session live entries returns) (hlive : ∀ k c a, live' k c a ↔ live k c a) :
    Matches session live' entries returns := by
  obtain rfl : live' = live := funext fun k => funext fun c => funext fun a => propext (hlive k c a)
  exact h

theorem Matches.opened (h : Matches session live entries returns) (hsource : ∀ k c, ¬ live k c source)
    (hkey : ∀ c a, ¬ live key c a) (hlive : ∀ k c a, live' k c a ↔ live k c a ∨ k = key ∧ c = client ∧ a = source)
    {m t} (hm : IngressMetadata.IsOf m session key client) (ht : t.source = source) :
    Matches session live' (entries.insert source m) (t :: returns) where
  entry a m' hget hsession := by
    rw [get?_insert] at hget
    split at hget
    · next heq => exact ⟨key, client, (hlive ..).2 (.inr ⟨rfl, rfl, heq⟩)⟩
    · obtain ⟨k, c, hl⟩ := h.entry a m' hget hsession
      exact ⟨k, c, (hlive ..).2 (.inl hl)⟩
  registered k c a hl := by
    rcases (hlive ..).1 hl with hl | ⟨rfl, rfl, rfl⟩
    · obtain ⟨m', hget, hm'⟩ := h.registered k c a hl
      have hne : a ≠ source := fun heq => hsource k c (heq ▸ hl)
      exact ⟨m', by rwa [get?_insert_ne _ _ hne], hm'⟩
    · exact ⟨m, get?_insert_self .., hm⟩
  socket k c k' c' a hl hl' := by
    rcases (hlive ..).1 hl with hl | ⟨rfl, -, rfl⟩ <;> rcases (hlive ..).1 hl' with hl' | ⟨rfl, -, heq⟩
    · exact h.socket k c k' c' a hl hl'
    · exact absurd (heq ▸ hl) (hsource k c)
    · exact absurd hl' (hsource k' c')
    · rfl
  flow k c c' a a' hl hl' := by
    rcases (hlive ..).1 hl with hl | ⟨rfl, rfl, rfl⟩ <;> rcases (hlive ..).1 hl' with hl' | ⟨heq, hc, ha⟩
    · exact h.flow k c c' a a' hl hl'
    · exact absurd (heq ▸ hl) (hkey c a)
    · exact absurd hl' (hkey c' a')
    · exact ⟨hc.symm, ha.symm⟩
  task t' ht' := by
    rcases mem_cons.1 ht' with rfl | ht'
    · exact ⟨key, client, (hlive ..).2 (.inr ⟨rfl, rfl, ht⟩)⟩
    · obtain ⟨k, c, hl⟩ := h.task t' ht'
      exact ⟨k, c, (hlive ..).2 (.inl hl)⟩

theorem Matches.closed (h : Matches session live entries returns) (hl : live key client source)
    (hlive : ∀ k c a, live' k c a ↔ live k c a ∧ k ≠ key) :
    Matches session live' (entries.erase source) (returns.filter (·.source ≠ source)) where
  entry a m hget hsession := by
    rw [get?_erase] at hget
    split at hget
    · cases hget
    · next hne =>
      obtain ⟨k, c, hl'⟩ := h.entry a m hget hsession
      refine ⟨k, c, (hlive ..).2 ⟨hl', ?_⟩⟩
      rintro rfl
      exact hne (h.flow k c client a source hl' hl).2
  registered k c a hl' := by
    obtain ⟨hl', hne⟩ := (hlive ..).1 hl'
    obtain ⟨m, hget, hm⟩ := h.registered k c a hl'
    refine ⟨m, ?_, hm⟩
    rw [get?_erase, if_neg, hget]
    rintro rfl
    exact hne (h.socket k c key client a hl' hl)
  socket k c k' c' a hl hl' := h.socket k c k' c' a ((hlive ..).1 hl).1 ((hlive ..).1 hl').1
  flow k c c' a a' hl hl' := h.flow k c c' a a' ((hlive ..).1 hl).1 ((hlive ..).1 hl').1
  task t ht := by
    obtain ⟨ht, hne⟩ := mem_filter.1 ht
    obtain ⟨k, c, hl'⟩ := h.task t ht
    refine ⟨k, c, (hlive ..).2 ⟨hl', ?_⟩⟩
    rintro rfl
    exact (by simpa using hne : t.source ≠ source) (h.flow k c client t.source source hl' hl).2

/-- A change of the registry that is not at a socket of the session. -/
theorem Matches.other (h : Matches session live entries returns) (hsource : ∀ k c, ¬ live k c source)
    {entries' : HashMap SocketAddr IngressMetadata} (hsame : ∀ a, a ≠ source → entries'.get? a = entries.get? a)
    (hsession : ∀ m, entries'.get? source = some m → m.tunnelSessionId ≠ session) :
    Matches session live entries' returns where
  entry a m hget hm := by
    by_cases heq : a = source
    · exact absurd hm (hsession m (heq ▸ hget))
    · exact h.entry a m (hsame a heq ▸ hget) hm
  registered k c a hl := by
    rw [hsame a fun heq => hsource k c (heq ▸ hl)]
    exact h.registered k c a hl
  socket := h.socket
  flow := h.flow
  task := h.task

end

/-! ## Steps -/

/-- The datagram whose socket waits to be entered, and the socket. -/
def UdpStage.entering? : UdpStage → Option (Uplink × SocketAddr)
  | .entering u source _ => some (u, source)
  | _ => none

/-- A flow is live from the registration of its socket until it is removed. -/
def State.Live (st : State) (key : FlowKey) (client source : SocketAddr) : Prop :=
  (∃ flow, st.flows.get? key = some flow ∧ flow.clientAddr = client ∧ flow.sourceAddr = source) ∨
    ∃ u now, st.udp = .entering u source now ∧ u.key = key ∧ u.clientAddr = client

/-- The sockets of the live flows. -/
def State.sockets (st : State) : List SocketAddr :=
  st.flows.entries.map (·.2.sourceAddr) ++ (st.udp.entering?.map (·.2)).toList

theorem State.mem_sockets {st : State} {key : FlowKey} {client source : SocketAddr} (h : st.Live key client source) :
    source ∈ st.sockets := by
  rcases h with ⟨flow, hflow, -, rfl⟩ | ⟨u, now, hudp, -, -⟩
  · exact mem_append_left _ (mem_map.2 ⟨(key, flow), get?_eq_some_iff.1 hflow, rfl⟩)
  · exact mem_append_right _ (by simp [hudp, UdpStage.entering?])

/-- What the operating system and other sessions do: a socket is bound at an
address that no socket of the session has, and another session registers or
removes sockets of its own, under its own name. -/
def Possible (s : Session) (p : Process) : Move → Prop
  | .own (.bound (some source) _) => source ∉ p.state.sockets
  | .other source m => source ∉ p.state.sockets ∧ ∀ m' ∈ m, m'.tunnelSessionId ≠ s.sessionId.toText
  | _ => True

/-- The datagram loop is not aborted while a socket waits to be entered, it has
stopped when the flows are cleared, and no flow number is entered for a second
client. -/
def Orderly (p : Process) : Move → Prop
  | .own .abort => p.state.udp.entering? = none
  | .own .clearFlows => p.state.udp = .stopped
  | .own .enter => ∀ waiting ∈ p.state.udp.entering?, ∀ e ∈ p.opened, e.1 = waiting.1.key → e.2 = waiting.1.clientAddr
  | _ => True

instance : ∀ (s : Session) (p : Process) (m : Move), Decidable (Possible s p m)
  | _, p, .own (.bound (some source) _) => inferInstanceAs (Decidable (source ∉ p.state.sockets))
  | s, p, .other source m => inferInstanceAs
      (Decidable (source ∉ p.state.sockets ∧ ∀ m' ∈ m, m'.tunnelSessionId ≠ s.sessionId.toText))
  | _, _, .own (.bound none _) | _, _, .own (.stream ..) | _, _, .own (.datagram _)
  | _, _, .own .look | _, _, .own .enter
  | _, _, .own (.sent _) | _, _, .own (.note _) | _, _, .own (.scan _) | _, _, .own .sweep | _, _, .own (.back ..)
  | _, _, .own .abort | _, _, .own .clearFlows => .isTrue trivial

instance : ∀ (p : Process) (m : Move), Decidable (Orderly p m)
  | p, .own .abort => inferInstanceAs (Decidable (p.state.udp.entering? = none))
  | p, .own .clearFlows => inferInstanceAs (Decidable (p.state.udp = .stopped))
  | p, .own .enter => inferInstanceAs (Decidable
      (∀ waiting ∈ p.state.udp.entering?, ∀ e ∈ p.opened, e.1 = waiting.1.key → e.2 = waiting.1.clientAddr))
  | _, .own (.bound ..) | _, .own (.stream ..) | _, .own (.datagram _) | _, .own .look | _, .own (.sent _)
  | _, .own (.note _) | _, .own (.scan _) | _, .own .sweep | _, .own (.back ..) | _, .other .. => .isTrue trivial

structure Process.Sound (s : Session) (p : Process) : Prop where
  registry : Matches s.sessionId.toText p.state.Live p.state.entries p.state.returns
  unopened : ∀ u, (p.state.udp = .binding u ∨ ∃ source now, p.state.udp = .entering u source now) →
    p.state.flows.get? u.key = none
  logged : ∀ key flow, p.state.flows.get? key = some flow → (key, flow.clientAddr) ∈ p.opened
  sending : ∀ u source, p.state.udp = .sending u source → (u.key, u.clientAddr) ∈ p.opened
  carried : p.carried ⊆ p.opened
  once : ∀ key client client', (key, client) ∈ p.opened → (key, client') ∈ p.opened → client = client'
  returned : p.returned = true → p.state.udp = .stopped ∧ ∀ key, p.state.flows.get? key = none

variable {s : Session} {p : Process}

/-- The loop goes on, or stops, with no socket to be entered. -/
theorem Process.Sound.stage (h : p.Sound s) {stage : UdpStage}
    (hold : ∀ u source now, p.state.udp ≠ .entering u source now)
    (hnew : ∀ u source now, stage ≠ .entering u source now) (hrun : stage = .stopped ∨ p.state.udp ≠ .stopped)
    (hbinding : ∀ u, stage = .binding u → p.state.flows.get? u.key = none)
    (hsending : ∀ u source, stage = .sending u source → (u.key, u.clientAddr) ∈ p.opened) :
    Process.Sound s { p with state.udp := stage } where
  registry := h.registry.congr fun k c a => by simp [State.Live, hold, hnew]
  unopened u hu := by
    rcases hu with hu | ⟨a, now, hu⟩
    · exact hbinding u hu
    · exact absurd hu (hnew u a now)
  logged := h.logged
  sending := hsending
  carried := h.carried
  once := h.once
  returned hr := ⟨hrun.resolve_right fun hne => hne (h.returned hr).1, (h.returned hr).2⟩

theorem State.get?_seen (st : State) (key k : FlowKey) (now : Nat) :
    (st.seen key now).flows.get? k = (st.flows.get? k).map
      fun f => if k = key then { f with lastSeen := now } else f := by
  unfold seen
  split
  · next flow hflow =>
    rw [get?_insert]
    split
    · next heq => simp [heq, hflow]
    · simp
  · next hnone =>
    by_cases heq : k = key
    · simp [heq, hnone]
    · simp [heq]

theorem Process.Sound.seen (h : p.Sound s) (key : FlowKey) (now : Nat) :
    Process.Sound s { p with state := p.state.seen key now } := by
  have hrest : (p.state.seen key now).udp = p.state.udp ∧ (p.state.seen key now).entries = p.state.entries ∧
      (p.state.seen key now).returns = p.state.returns := by
    unfold State.seen
    split <;> exact ⟨rfl, rfl, rfl⟩
  obtain ⟨hudp, hentries, hreturns⟩ := hrest
  have hget := fun k => p.state.get?_seen key k now
  refine ⟨?_, ?_, ?_, ?_, h.carried, h.once, ?_⟩
  · rw [hentries, hreturns]
    refine h.registry.congr fun k c a => ?_
    simp only [State.Live, hudp, hget, Option.map_eq_some_iff]
    refine or_congr_left ⟨?_, ?_⟩
    · rintro ⟨_, ⟨f, hf, rfl⟩, hc, ha⟩
      exact ⟨f, hf, by split at hc <;> exact hc, by split at ha <;> exact ha⟩
    · rintro ⟨f, hf, hc, ha⟩
      exact ⟨_, ⟨f, hf, rfl⟩, by split <;> exact hc, by split <;> exact ha⟩
  · intro u hu
    rw [hudp] at hu
    rw [hget, h.unopened u hu]
    rfl
  · intro k flow hflow
    rw [hget, Option.map_eq_some_iff] at hflow
    obtain ⟨f, hf, rfl⟩ := hflow
    have := h.logged k f hf
    split <;> exact this
  · rw [hudp]
    exact h.sending
  · intro hr
    rw [hudp]
    exact ⟨(h.returned hr).1, fun k => by rw [hget, (h.returned hr).2 k]; rfl⟩

/-- A return task may end by itself. -/
theorem Process.Sound.ended (h : p.Sound s) (source : SocketAddr) :
    Process.Sound s { p with state.returns := p.state.returns.filter (·.source ≠ source) } :=
  { h with registry := { h.registry with task := fun t ht => h.registry.task t (mem_filter.1 ht).1 } }

theorem Process.Sound.removeFlow (h : p.Sound s) (key : FlowKey) :
    Process.Sound s { p with state := p.state.removeFlow key } := by
  unfold State.removeFlow
  split
  · next flow hflow =>
    have hget : ∀ k f, (p.state.flows.erase key).get? k = some f ↔ p.state.flows.get? k = some f ∧ k ≠ key := by
      intro k f
      rw [get?_erase]
      by_cases heq : k = key <;> simp [heq]
    refine ⟨?_, ?_, ?_, h.sending, h.carried, h.once, ?_⟩
    · refine h.registry.closed (.inl ⟨flow, hflow, rfl, rfl⟩) fun k c a => ?_
      constructor
      · rintro (⟨f, hf, hrest⟩ | ⟨u, now, hu, hk, hrest⟩)
        · obtain ⟨hf, hne⟩ := (hget k f).1 hf
          exact ⟨.inl ⟨f, hf, hrest⟩, hne⟩
        · refine ⟨.inr ⟨u, now, hu, hk, hrest⟩, ?_⟩
          rintro rfl
          cases hflow.symm.trans (hk ▸ h.unopened u (.inr ⟨a, now, hu⟩))
      · rintro ⟨⟨f, hf, hrest⟩ | hentering, hne⟩
        · exact .inl ⟨f, (hget k f).2 ⟨hf, hne⟩, hrest⟩
        · exact .inr hentering
    · intro u hu
      have := h.unopened u hu
      show (p.state.flows.erase key).get? u.key = none
      rw [get?_erase, this, ite_self]
    · exact fun k f hf => h.logged k f ((hget k f).1 hf).1
    · exact fun hr => absurd (h.returned hr |>.2 key) (by simp [hflow])
  · exact h

theorem Process.Sound.bound (h : p.Sound s) {u : Uplink} (hudp : p.state.udp = .binding u)
    (source : Option SocketAddr) (now : Nat) (hsource : Possible s p (.own (.bound source now))) :
    Process.Sound s { p with state := s.bound p.state u source now } := by
  have hidle : Process.Sound s { p with state.udp := .reading } :=
    h.stage (by simp [hudp]) (by simp) (.inr (by simp [hudp])) (by simp) (by simp)
  have hnone := h.unopened u (.inl hudp)
  unfold Session.bound
  split
  · exact hidle
  · next source =>
    unfold insertBounded
    by_cases hfull : p.state.entries.containsKey source = false ∧ maxRegistry ≤ p.state.entries.len
    · rw [if_pos hfull]
      exact hidle
    · rw [if_neg hfull]
      have hm : (s.metadata u).IsOf s.sessionId.toText u.key u.clientAddr := ⟨rfl, rfl, rfl, rfl⟩
      refine ⟨h.registry.opened (fun k c hl => hsource (State.mem_sockets hl)) ?_ ?_ hm rfl, ?_, h.logged,
        (by simp), h.carried, h.once, fun hr => absurd (h.returned hr).1 (by simp [hudp])⟩
      · rintro c a (⟨f, hf, -⟩ | ⟨v, t, hv, -⟩)
        · cases hnone.symm.trans hf
        · cases hudp.symm.trans hv
      · intro k c a
        simp only [State.Live, hudp]
        refine or_congr (by simp) ⟨?_, ?_⟩
        · rintro ⟨v, t, hv, hk, hc⟩
          cases hv
          exact ⟨hk.symm, hc.symm, rfl⟩
        · rintro ⟨rfl, rfl, rfl⟩
          exact ⟨u, now, rfl, rfl, rfl⟩
      · rintro v (hv | ⟨a, t, hv⟩)
        · cases hv
        · cases hv
          exact hnone

theorem Process.Sound.enter (h : p.Sound s) {u : Uplink} {source : SocketAddr} {now : Nat}
    (hudp : p.state.udp = .entering u source now) (hsame : ∀ e ∈ p.opened, e.1 = u.key → e.2 = u.clientAddr) :
    Process.Sound s { p with state := p.state.enter u source now, opened := (u.key, u.clientAddr) :: p.opened } := by
  have hnone := h.unopened u (.inr ⟨source, now, hudp⟩)
  have hget : ∀ k f, (p.state.flows.insert u.key ⟨u.clientAddr, source, now⟩).get? k = some f ↔
      p.state.flows.get? k = some f ∨ k = u.key ∧ f = ⟨u.clientAddr, source, now⟩ := by
    intro k f
    rw [get?_insert]
    by_cases heq : k = u.key
    · simp [heq, hnone, eq_comm]
    · simp [heq]
  unfold State.enter
  rw [hnone]
  refine ⟨h.registry.congr fun k c a => ?_, (by simp), ?_, ?_, ?_, ?_,
    fun hr => absurd (h.returned hr).1 (by simp [hudp])⟩
  · -- the flow goes from the loop into the table
    simp only [State.Live, hget, hudp]
    constructor
    · rintro (⟨f, hf | ⟨rfl, rfl⟩, hc, ha⟩ | ⟨v, t, hv, -⟩)
      · exact .inl ⟨f, hf, hc, ha⟩
      · exact .inr ⟨u, now, by rw [← ha], rfl, hc⟩
      · cases hv
    · rintro (⟨f, hf, hc, ha⟩ | ⟨v, t, hv, hk, hc⟩)
      · exact .inl ⟨f, .inl hf, hc, ha⟩
      · cases hv
        exact .inl ⟨_, .inr ⟨hk.symm, rfl⟩, hc, rfl⟩
  · intro k f hf
    rcases (hget k f).1 hf with hf | ⟨rfl, rfl⟩
    · exact mem_cons_of_mem _ (h.logged k f hf)
    · exact mem_cons_self
  · rintro v a hv
    cases hv
    exact mem_cons_self
  · exact fun e he => mem_cons_of_mem _ (h.carried he)
  · intro k c c' hc hc'
    rcases mem_cons.1 hc with hc | hc <;> rcases mem_cons.1 hc' with hc' | hc'
    · cases hc
      cases hc'
      rfl
    · cases hc
      exact (hsame _ hc' rfl).symm
    · cases hc'
      exact hsame _ hc rfl
    · exact h.once k c c' hc hc'

theorem Process.Sound.clearFlows (h : p.Sound s) (hstopped : p.state.udp = .stopped) :
    Process.Sound s { p with state := p.state.flows.keys.foldl State.removeFlow p.state, returned := true } := by
  -- each flow of a list is removed, and none comes
  have hall : ∀ keys : List FlowKey, ∀ q : Process, q.Sound s → q.state.udp = .stopped →
      let st := keys.foldl State.removeFlow q.state
      Process.Sound s { q with state := st } ∧ st.udp = .stopped ∧
        ∀ k f, st.flows.get? k = some f → q.state.flows.get? k = some f ∧ k ∉ keys := by
    intro keys
    induction keys with
    | nil => exact fun q hq hstop => ⟨hq, hstop, by simp⟩
    | cons key keys ih =>
      intro q hq hstop
      obtain ⟨hsound, hudp, hflows⟩ := ih { q with state := q.state.removeFlow key } (hq.removeFlow key)
        ((State.udp_removeFlow ..).trans hstop)
      refine ⟨hsound, hudp, fun k f hf => ?_⟩
      obtain ⟨hf, hk⟩ := hflows k f hf
      unfold State.removeFlow at hf
      split at hf
      · rw [get?_erase] at hf
        split at hf
        · cases hf
        · next hne => exact ⟨hf, by simp [hne, hk]⟩
      · next hnone =>
        refine ⟨hf, ?_⟩
        rw [mem_cons, not_or]
        exact ⟨fun heq => (by cases hnone.symm.trans (heq ▸ hf)), hk⟩
  obtain ⟨hsound, hudp, hflows⟩ := hall p.state.flows.keys p h hstopped
  refine ⟨hsound.registry, hsound.unopened, hsound.logged, hsound.sending, hsound.carried,
    hsound.once, fun _ => ⟨hudp, ?_⟩⟩
  intro k
  refine Option.eq_none_iff_forall_ne_some.2 fun f hf => ?_
  obtain ⟨hf, hk⟩ := hflows k f hf
  exact hk (mem_keys_iff.2 ⟨f, hf⟩)

theorem Process.Sound.step (h : p.Sound s) {m : Move} (hpossible : Possible s p m) (horderly : Orderly p m) :
    (p.step s m).1.Sound s := by
  cases m with
  | other source m =>
    obtain ⟨hsocket, hsession⟩ := hpossible
    have hsource : ∀ key client, ¬ p.state.Live key client source := fun _ _ hl => hsocket (State.mem_sockets hl)
    cases m with
    | none =>
      have hsame : ∀ a, a ≠ source → (p.state.entries.erase source).get? a = p.state.entries.get? a := by
        intro a hne
        rw [get?_erase, if_neg hne]
      have hnone : ∀ m, (p.state.entries.erase source).get? source = some m →
        m.tunnelSessionId ≠ s.sessionId.toText := by
        simp [get?_erase]
      exact { h with registry := h.registry.other hsource hsame hnone }
    | some m =>
      refine { h with
        registry := h.registry.other hsource (fun a hne => get?_insert_ne _ _ hne) fun m' hm => ?_ }
      obtain rfl := Option.some.inj ((get?_insert_self ..).symm.trans hm)
      exact hsession m rfl
  | own e =>
    cases e with
    | stream bytes outcome => exact h
    | datagram bytes =>
      simp only [Process.step, Connector.step]
      split
      · next hudp =>
        cases s.uplinkOf bytes with
        | none => exact h
        | some u => exact h.stage (by simp [hudp]) (by simp) (.inr (by simp [hudp])) (by simp) (by simp)
      · exact h
    | look =>
      simp only [Process.step, Connector.step]
      split
      · next u hudp =>
        unfold Session.look
        split
        · next flow hflow =>
          split
          · exact h.stage (by simp [hudp]) (by simp) (.inr (by simp [hudp])) (by simp) (by simp)
          · next hclient =>
            refine h.stage (by simp [hudp]) (by simp) (.inr (by simp [hudp])) (by simp) ?_
            rintro v a hv
            cases hv
            rw [← not_ne_iff.1 hclient]
            exact h.logged _ flow hflow
        · next hnone =>
          split
          · exact h.stage (by simp [hudp]) (by simp) (.inr (by simp [hudp])) (by simp) (by simp)
          · refine h.stage (by simp [hudp]) (by simp) (.inr (by simp [hudp])) ?_ (by simp)
            rintro v hv
            cases hv
            exact hnone
      · exact h
    | bound source now =>
      simp only [Process.step, Connector.step]
      split
      · next u hudp => exact h.bound hudp source now hpossible
      · exact h
    | enter =>
      cases hudp : p.state.udp with
      | entering u source now =>
        simp only [Process.step, Connector.step, State.opens, hudp]
        exact h.enter hudp (horderly (u, source) (by rw [hudp]; rfl))
      | _ =>
        simp only [Process.step, Connector.step, State.opens, hudp]
        exact h
    | sent ok =>
      cases hudp : p.state.udp with
      | sending u source =>
        simp only [Process.step, Connector.step, State.carries, hudp]
        have hnext : Process.Sound s { p with state.udp := if ok then .noting u.key else .reading } := by
          refine h.stage (by simp [hudp]) ?_ (.inr (by simp [hudp])) ?_ ?_ <;> cases ok <;> simp
        exact { hnext with carried := cons_subset.2 ⟨h.sending u source hudp, h.carried⟩ }
      | _ =>
        simp only [Process.step, Connector.step, State.carries, hudp]
        exact h
    | note now =>
      simp only [Process.step, Connector.step]
      split
      · next key hudp =>
        exact (h.seen key now).stage (by simp [hudp]) (by simp) (.inr (by simp [hudp])) (by simp) (by simp)
      · exact h
    | scan now => exact { h with }
    | sweep =>
      simp only [Process.step, Connector.step]
      split
      · next key rest _ => exact { h.removeFlow key with }
      · exact h
    | back source received now maxSize ok =>
      simp only [Process.step, Connector.step, State.back]
      split
      · exact h
      · exact h.ended source
      split
      · exact h
      split
      · exact h.seen _ now
      split
      · exact h.seen _ now
      · exact (h.seen _ now).ended source
    | abort =>
      have hold : ∀ u source now, p.state.udp ≠ .entering u source now := by
        intro u source now hudp
        have hnone : p.state.udp.entering? = none := horderly
        rw [hudp] at hnone
        cases hnone
      exact { h.stage hold (by simp) (.inl rfl) (by simp) (by simp) with }
    | clearFlows => exact h.clearFlows horderly

/-- In every session where the loop is aborted with no socket to be entered and has
stopped when the flows are cleared, and no flow number is entered for two clients: the
registry has at each time one entry of the session for each live flow, from the
flow's own socket to its client, and no other; the datagrams of a flow number are
all of one client; and when `connect_and_serve` has returned there is no flow, no
return task and no entry left. -/
theorem flows_match_registry (s : Session) (entries : HashMap SocketAddr IngressMetadata)
    (hentries : ∀ source m, entries.get? source = some m → m.tunnelSessionId ≠ s.sessionId.toText) (moves : List Move)
    (hmoves : EveryStep (Process.step s) (fun p m => Possible s p m ∧ Orderly p m) { state := { entries } } moves) :
    let p := runState (Process.step s) { state := { entries } } moves
    Matches s.sessionId.toText p.state.Live p.state.entries p.state.returns ∧
    (∀ key client client', (key, client) ∈ p.carried → (key, client') ∈ p.carried → client = client') ∧
    (p.returned = true → (∀ key client source, ¬ p.state.Live key client source) ∧ p.state.returns = [] ∧
      ∀ source m, p.state.entries.get? source = some m → m.tunnelSessionId ≠ s.sessionId.toText) := by
  have hrun : ∀ moves : List Move, ∀ p : Process, p.Sound s →
      EveryStep (Process.step s) (fun p m => Possible s p m ∧ Orderly p m) p moves →
      (runState (Process.step s) p moves).Sound s := by
    intro moves
    induction moves with
    | nil => exact fun p h _ => h
    | cons m moves ih => exact fun p h hall => ih _ (h.step hall.1.1 hall.1.2) hall.2
  have hinit : Process.Sound s { state := { entries } } := by
    refine ⟨⟨fun a m hget hm => absurd hm (hentries a m hget), ?_, ?_, ?_, ?_⟩, ?_, ?_, ?_, ?_,
      ?_, ?_⟩ <;> simp [State.Live]
  intro p
  have h : p.Sound s := hrun moves _ hinit hmoves
  refine ⟨h.registry, fun key c c' hc hc' => h.once key c c' (h.carried hc) (h.carried hc'), fun hreturned => ?_⟩
  obtain ⟨hstopped, hflows⟩ := h.returned hreturned
  have hlive : ∀ key client source, ¬ p.state.Live key client source := by simp [State.Live, hstopped, hflows]
  refine ⟨hlive, eq_nil_iff_forall_not_mem.2 fun t ht => ?_, fun a m hget hm => ?_⟩
  · obtain ⟨key, client, hl⟩ := h.registry.task t ht
    exact hlive _ _ _ hl
  · obtain ⟨key, client, hl⟩ := h.registry.entry a m hget hm
    exact hlive _ _ _ hl

/-- A session with the lease of a TUIC listener. -/
def exampleSession : Session where
  relayAddr := .v4 (Ipv4Addr.new 203 0 113 5) 7443
  relayId := ['r']
  sessionId := ⟨replicate 16 0, rfl⟩
  leases := HashMap.insert ∅ 1 ⟨1, ⟨"quic", .udp, 0, "tuic", .v4 (Ipv4Addr.new 127 0 0 2) 9443, 1200⟩, 443⟩
  maxUdpFlows := 4096

/-- A datagram of flow 7 from a client. -/
def exampleUplink (client : UInt8) : Event :=
  .datagram ([82, 73, 1, 1] ++ beBytes 8 1 ++ beBytes 16 7 ++ [4, 198, 51, 100, client, 19, 136] ++ [1, 2, 3])

def exampleSocket : SocketAddr := .v4 (Ipv4Addr.new 127 0 0 1) 40000

def exampleRun (events : List Event) : Process := runState (Process.step exampleSession) {} (events.map .own)

/-- A flow is bound, entered and swept; another session gets its socket; the client
opens the flow again, at another socket, and the answer to it cannot be sent. -/
def exampleMoves : List Move :=
  [.own (exampleUplink 1), .own .look, .own (.bound (some exampleSocket) 0), .own .enter,
    .own (.sent true), .own (.note 0), .own (.scan flowIdle), .own .sweep,
    .other exampleSocket (some ⟨['r'], ['o'], 1, [], none, none, exampleSocket, exampleSession.relayAddr⟩),
    .own (exampleUplink 1), .own .look, .own (.bound (some (.v4 (Ipv4Addr.new 127 0 0 1) 40001)) 0), .own .enter,
    .own (.sent true),
    .own (.back (.v4 (Ipv4Addr.new 127 0 0 1) 40001) (some (.v4 (Ipv4Addr.new 127 0 0 2) 9443, [4])) 1 none false)]

theorem flows_match_registry_reopened :
    let p := runState (Process.step exampleSession) {} exampleMoves
    let ended := runState (Process.step exampleSession) p [.own .abort, .own .clearFlows]
    (p.carried.length = 2 ∧ p.state.entries.len = 2 ∧
      Matches exampleSession.sessionId.toText p.state.Live p.state.entries p.state.returns) ∧
    ended.returned = true ∧ ∀ key client source, ¬ ended.state.Live key client source := by
  intro p ended
  have hrun : (p.carried.length = 2 ∧ p.state.entries.len = 2) ∧ ended.returned = true := by decide +kernel
  have hmoves : EveryStep (Process.step exampleSession) (fun p m => Possible exampleSession p m ∧ Orderly p m) {}
      exampleMoves := by decide +kernel
  have hall : EveryStep (Process.step exampleSession) (fun p m => Possible exampleSession p m ∧ Orderly p m) {}
      (exampleMoves ++ [.own .abort, .own .clearFlows]) := by decide +kernel
  have hended := (flows_match_registry exampleSession ∅ (by simp) _ hall).2.2
  exact ⟨⟨hrun.1.1, hrun.1.2, (flows_match_registry exampleSession ∅ (by simp) _ hmoves).1⟩, hrun.2, (hended hrun.2).1⟩

/-- A loop that is aborted when it waits to enter a flow: the session ends, and the
socket stays registered and read. And a flow that is idle is removed, after which
its number serves another client. -/
theorem leftBehind_of_abort :
    (exampleRun [exampleUplink 1, .look, .bound (some exampleSocket) 0, .abort, .clearFlows]).returned = true ∧
    (exampleRun [exampleUplink 1, .look, .bound (some exampleSocket) 0, .abort, .clearFlows]).state.returns.map
      (·.source) =
      [exampleSocket] ∧
    ((exampleRun [exampleUplink 1, .look, .bound (some exampleSocket) 0, .abort, .clearFlows]).state.entries.get?
      exampleSocket).map (·.tunnelSessionId) = some exampleSession.sessionId.toText ∧
    (exampleRun [exampleUplink 1, .look, .bound (some exampleSocket) 0, .enter, .sent true,
        .note 0, .scan flowIdle, .sweep,
        exampleUplink 2, .look, .bound (some exampleSocket) 0, .enter, .sent true]).carried =
      [((1, ⟨beBytes 16 7, rfl⟩), .v4 (Ipv4Addr.new 198 51 100 2) 5000),
        ((1, ⟨beBytes 16 7, rfl⟩), .v4 (Ipv4Addr.new 198 51 100 1) 5000)] := by
  decide +kernel

end Rove.Ingress.Connector
