/-
The registry of reverse hops on an edge (`reverse/edge.rs`): every accepted
connection has a task of its own, the tasks take their steps in any order,
and each step holds the registry's lock at most once.

A connection is known by its place in the list of those accepted. Its stable
id is the transport's, and may come back once no one holds the connection
any more.
-/
import Rove.Base.HashMap
import Rove.Base.Run
import Rove.Base.SocketAddr
import Rove.Reverse.Frame
import Rove.Util.SecretEq

namespace Rove.Reverse

inductive DuplicatePolicy where
  | reject
  | replace

/-- The fields of `ReverseHopManager` that registering reads. -/
structure EdgeConfig where
  tokens : List Str
  duplicate : DuplicatePolicy
  maxStreamsPerHop : Nat

def EdgeConfig.tokenAccepted (cfg : EdgeConfig) (token : Str) : Bool := cfg.tokens.any (Util.constantTimeEq · token)

/-- Where `handle_connection` stands with a connection. -/
inductive Stage where
  /-- waiting for the control stream and its frame -/
  | control
  /-- in `reject_registration`, with the code sent and the reason to close -/
  | rejecting (code reason : String)
  /-- registered, writing the reply -/
  | acking (hopId : Str)
  /-- registered, waiting for the connection to end -/
  | serving (hopId : Str)
  /-- deregistered because the reply could not be written -/
  | unacked
  | done
  deriving DecidableEq

/-- A connection of a hop, with the reason it was closed for, if it is. -/
structure Conn where
  stableId : Nat
  remote : SocketAddr
  stage : Stage := .control
  closed : Option String := none

/-- Someone still holds the connection: its task does, until it returns. -/
def Conn.held (c : Conn) : Bool := c.stage ≠ .done

/-- The task has entered a session for the hop and not yet tried to take it out. -/
def Conn.Serves (c : Conn) (hopId : Str) : Prop := c.stage = .acking hopId ∨ c.stage = .serving hopId

/-- `HopSession`, the connection given by its place. -/
structure HopSession where
  connection : Nat
  permits : Nat
  active : Nat
  edgeId : Option Str
  stableId : Nat
  remote : SocketAddr
  supportsUdp : Bool

structure Edge where
  conns : List Conn := []
  registry : HashMap Str HopSession := ∅

inductive RegisterOutcome where
  | accepted
  | duplicate

namespace Edge

def update (s : Edge) (i : Nat) (f : Conn → Conn) : Edge := { s with conns := s.conns.modify i f }

/-- `Connection::close`: what was closed before stays closed for its first reason. -/
def close (s : Edge) (i : Nat) (reason : String) : Edge :=
  s.update i fun c => { c with closed := c.closed.or (some reason) }

def enter (s : Edge) (i : Nat) (stage : Stage) : Edge := s.update i fun c => { c with stage := stage }

/-- Some side has closed the connection. -/
def Closed (s : Edge) (i : Nat) : Prop := ∃ c reason, s.conns[i]? = some c ∧ c.closed = some reason

def register (cfg : EdgeConfig) (s : Edge) (i : Nat) (c : Conn) (request : RegisterRequest) :
    Edge × RegisterOutcome :=
  let session : HopSession :=
    { connection := i, permits := cfg.maxStreamsPerHop, active := 0, edgeId := request.edgeId,
      stableId := c.stableId, remote := c.remote, supportsUdp := request.supportsUdp }
  match s.registry.get? request.hopId with
  | none => ({ s with registry := s.registry.insert request.hopId session }, .accepted)
  | some old =>
    match cfg.duplicate with
    | .reject => (s, .duplicate)
    | .replace =>
      let s := { s with registry := s.registry.erase request.hopId }.close old.connection "replaced by new registration"
      ({ s with registry := s.registry.insert request.hopId session }, .accepted)

def deregister (s : Edge) (hopId : Str) (stableId : Nat) : Edge :=
  if (s.registry.get? hopId).map (·.stableId) = some stableId then { s with registry := s.registry.erase hopId } else s

/-- What `handle_connection` does with the control frame, if it can be read. -/
def handleFrame (cfg : EdgeConfig) (s : Edge) (i : Nat) (c : Conn) : Option (List Str) → Edge
  | none => (s.close i "bad register frame").enter i .done
  | some lines =>
    match RegisterRequest.parse lines with
    | .error _ => s.enter i (.rejecting "bad_request" "malformed register")
    | .ok request =>
      if cfg.tokenAccepted request.token then
        match register cfg s i c request with
        | (s, .accepted) => s.enter i (.acking request.hopId)
        | (s, .duplicate) => s.enter i (.rejecting "duplicate_hop_id" "duplicate hop_id")
      else s.enter i (.rejecting "unauthorized" "unauthorized")

end Edge

/-- What can happen next on an edge, each to the connection named. -/
inductive EdgeEvent where
  /-- a handshake completes -/
  | accept (stableId : Nat) (remote : SocketAddr)
  /-- no control stream was opened, or not in time -/
  | noControl (i : Nat) (timeout : Bool)
  /-- the control frame is there, or cannot be read -/
  | frame (i : Nat) (lines : Option (List Str))
  /-- the linger of `reject_registration` is over -/
  | lingered (i : Nat)
  /-- the reply of an accepted registration was written, or could not be -/
  | acked (i : Nat) (ok : Bool)
  /-- the close after a reply that could not be written -/
  | closeUnacked (i : Nat)
  /-- the hop or the network ends the connection -/
  | lost (i : Nat)
  /-- `closed().await` returns -/
  | ended (i : Nat)

namespace Edge

/-- One step of the task of connection `i`, which is `c`. A step the task is not
waiting for changes nothing. -/
def stepConn (cfg : EdgeConfig) (s : Edge) (c : Conn) : EdgeEvent → Edge
  | .accept .. => s
  | .noControl i timeout =>
    if c.stage = .control then
      (s.close i (if timeout then "register timeout" else "no control stream")).enter i .done
    else s
  | .frame i lines => if c.stage = .control then handleFrame cfg s i c lines else s
  | .lingered i =>
    match c.stage with
    | .rejecting _ reason => (s.close i reason).enter i .done
    | _ => s
  | .acked i ok =>
    match c.stage with
    | .acking hopId => if ok then s.enter i (.serving hopId) else (s.deregister hopId c.stableId).enter i .unacked
    | _ => s
  | .closeUnacked i => if c.stage = .unacked then (s.close i "ack failed").enter i .done else s
  | .lost i => s.close i "lost"
  | .ended i =>
    match c.stage with
    | .serving hopId => if c.closed.isSome then (s.deregister hopId c.stableId).enter i .done else s
    | _ => s

end Edge

/-- The connection an event is about. -/
def EdgeEvent.conn : EdgeEvent → Option Nat
  | .accept .. => none
  | .noControl i _ | .frame i _ | .lingered i | .acked i _ | .closeUnacked i | .lost i | .ended i => some i

namespace Edge

/-- One event. The transport hands out no stable id that a connection still
held has. -/
def step (cfg : EdgeConfig) (s : Edge) (e : EdgeEvent) : Edge :=
  match e with
  | .accept stableId remote =>
    if s.conns.any (fun c => c.held && c.stableId == stableId) then s
    else { s with conns := s.conns ++ [{ stableId, remote }] }
  | e =>
    match e.conn.bind (s.conns[·]?) with
    | some c => stepConn cfg s c e
    | none => s

def run (cfg : EdgeConfig) (events : List EdgeEvent) : Edge := events.foldl (step cfg) {}

/-! ## Who owns a session -/

theorem conns_update (s : Edge) (i : Nat) (f : Conn → Conn) (j : Nat) :
    (s.update i f).conns[j]? = s.conns[j]?.map fun c => if i = j then f c else c :=
  List.getElem?_modify f i s.conns j

variable {s : Edge} {i : Nat} {c : Conn}

theorem conns_enter (hc : s.conns[i]? = some c) (stage : Stage) :
    (s.enter i stage).conns[i]? = some { c with stage := stage } := by
  rw [enter, conns_update, hc, Option.map_some, if_pos rfl]

/-- Every session is of a connection whose task has yet to take it out, and no
two connections still held have the same stable id. -/
structure Sound (s : Edge) : Prop where
  owned : ∀ hopId session, s.registry.get? hopId = some session →
    ∃ c, s.conns[session.connection]? = some c ∧ c.stableId = session.stableId ∧ c.Serves hopId
  apart : ∀ (i j : Nat) (c d : Conn), s.conns[i]? = some c → s.conns[j]? = some d → c.held = true → d.held = true →
    c.stableId = d.stableId → i = j

theorem Sound.update (h : Sound s) {f} (hid : ∀ c, (f c).stableId = c.stableId)
    (hheld : ∀ c, s.conns[i]? = some c → (f c).held = true → c.held = true)
    (hserves : ∀ c, s.conns[i]? = some c → ∀ hopId session, s.registry.get? hopId = some session →
      session.connection = i → c.Serves hopId → (f c).Serves hopId) : Sound (s.update i f) := by
  have hback : ∀ (j : Nat) (c' : Conn), (s.update i f).conns[j]? = some c' →
      ∃ c, s.conns[j]? = some c ∧ c.stableId = c'.stableId ∧ (c'.held = true → c.held = true) := by
    intro j c' hc'
    rw [conns_update] at hc'
    obtain ⟨c, hc, rfl⟩ := Option.map_eq_some_iff.1 hc'
    split
    · next hij => exact ⟨c, hc, (hid c).symm, hheld c (hij ▸ hc)⟩
    · exact ⟨c, hc, rfl, fun h => h⟩
  constructor
  · intro hopId session hsession
    obtain ⟨c, hc, hstable, hserve⟩ := h.owned hopId session hsession
    refine ⟨_, (conns_update ..).trans (congrArg _ hc), ?_⟩
    split
    · next hi => exact ⟨(hid c).trans hstable, hserves c (hi ▸ hc) hopId session hsession hi.symm hserve⟩
    · exact ⟨hstable, hserve⟩
  · intro j k c' d' hc' hd' hheldc hheldd heq
    obtain ⟨c, hc, hcid, hcheld⟩ := hback j c' hc'
    obtain ⟨d, hd, hdid, hdheld⟩ := hback k d' hd'
    exact h.apart j k c d hc hd (hcheld hheldc) (hdheld hheldd) (hcid.trans (heq.trans hdid.symm))

theorem Sound.close (h : Sound s) (i : Nat) (reason : String) : Sound (s.close i reason) :=
  h.update (fun _ => rfl) (fun _ _ h => h) fun _ _ _ _ _ _ h => h

/-- A task that still runs may go on to any stage, if it keeps serving the hop it has a session for. -/
theorem Sound.enter (h : Sound s) (hc : s.conns[i]? = some c) (hheld : c.held = true)
    {stage} (hserves : ∀ hopId session, s.registry.get? hopId = some session → session.connection = i →
      c.Serves hopId → stage = .acking hopId ∨ stage = .serving hopId) : Sound (s.enter i stage) := by
  refine h.update (fun _ => rfl) (fun c' hc' _ => ?_) fun c' hc' hopId session hsession hi hserve => ?_
  · rw [hc] at hc'
    exact Option.some.inj hc' ▸ hheld
  · rw [hc] at hc'
    exact hserves hopId session hsession hi (Option.some.inj hc' ▸ hserve)

theorem Sound.enter_of_idle (h : Sound s) (hc : s.conns[i]? = some c)
    (hheld : c.held = true) (hidle : ∀ hopId, ¬ c.Serves hopId) (stage : Stage) : Sound (s.enter i stage) :=
  h.enter hc hheld fun hopId _ _ _ hserve => absurd hserve (hidle hopId)

theorem Sound.erase (h : Sound s) (hopId : Str) : Sound { s with registry := s.registry.erase hopId } :=
  ⟨fun hopId' session hsession => h.owned hopId' session (HashMap.get?_of_erase hsession), h.apart⟩

/-- A task that deregisters has no session left, and goes on to any stage. -/
theorem Sound.deregister (h : Sound s) (hc : s.conns[i]? = some c)
    {hopId} (hserve : c.Serves hopId) (stage : Stage) :
    Sound ((s.deregister hopId c.stableId).enter i stage) := by
  have hheld : c.held = true := by
    rcases hserve with h | h <;> simp [Conn.held, h]
  have honly : ∀ hopId', c.Serves hopId' → hopId' = hopId := by
    intro hopId' h'
    rcases hserve with h | h <;> rcases h' with h' | h' <;> rw [h] at h' <;> cases h' <;> rfl
  unfold Edge.deregister
  split
  · refine (h.erase hopId).enter hc hheld fun hopId' session hsession hi hserve' => ?_
    obtain rfl := honly hopId' hserve'
    rw [HashMap.get?_erase, if_pos rfl] at hsession
    cases hsession
  · next hother =>
    refine h.enter hc hheld fun hopId' session hsession hi hserve' => absurd ?_ hother
    obtain rfl := honly hopId' hserve'
    obtain ⟨c', hc', hstable, -⟩ := h.owned hopId' session hsession
    rw [hi, hc] at hc'
    rw [hsession, Option.map_some, ← hstable, ← Option.some.inj hc']

/-- A connection that serves no hop is entered with a session of its own. -/
theorem Sound.enrol (h : Sound s) (hc : s.conns[i]? = some c) (hstage : c.stage = .control)
    (hopId : Str) {session} (hi : session.connection = i) (hstable : session.stableId = c.stableId) :
    Sound ({ s with registry := s.registry.insert hopId session }.enter i (.acking hopId)) := by
  have hidle : ∀ hopId', ¬ c.Serves hopId' := by
    intro hopId' hserve
    rcases hserve with h | h <;> rw [hstage] at h <;> cases h
  have hbase : Sound (s.enter i (.acking hopId)) := h.enter_of_idle hc (by simp [Conn.held, hstage]) hidle _
  refine ⟨fun hopId' session' hsession => ?_, hbase.apart⟩
  replace hsession : (s.registry.insert hopId session).get? hopId' = some session' := hsession
  rw [HashMap.get?_insert] at hsession
  split at hsession
  · next heq =>
    cases hsession
    subst hi
    exact ⟨_, conns_enter hc _, hstable.symm, .inl (congrArg Stage.acking heq.symm)⟩
  · exact hbase.owned hopId' session' hsession

/-! ## What a step does -/

theorem idle_of_control (h : c.stage = .control) (hopId : Str) : ¬ c.Serves hopId := by
  rintro (h' | h') <;> rw [h] at h' <;> cases h'

theorem conns_close (hc : s.conns[i]? = some c) (j : Nat) (reason : String) :
    ∃ closed, (s.close j reason).conns[i]? = some { c with closed := closed } := by
  rw [close, conns_update, hc, Option.map_some]
  split
  · exact ⟨_, rfl⟩
  · exact ⟨c.closed, rfl⟩

theorem Closed.enter (h : s.Closed i) (j : Nat) (stage : Stage) : (s.enter j stage).Closed i := by
  obtain ⟨c, reason, hc, hclosed⟩ := h
  refine ⟨_, reason, (conns_update ..).trans (congrArg _ hc), ?_⟩
  split <;> exact hclosed

theorem closed_close (hc : s.conns[i]? = some c) (reason : String) :
    (s.close i reason).Closed i := by
  refine ⟨_, c.closed.getD reason, (conns_update ..).trans (congrArg _ hc), ?_⟩
  dsimp only
  rw [if_pos rfl]
  cases c.closed <;> rfl

/-- A control frame from a connection `i` makes for a sound registry; a session
it takes out is of another connection, which it closes, and the policy is to
replace. -/
theorem handleFrame_spec (cfg : EdgeConfig) (h : Sound s) (hc : s.conns[i]? = some c)
    (hstage : c.stage = .control) (lines : Option (List Str)) :
    Sound (handleFrame cfg s i c lines) ∧ ∀ hopId session, s.registry.get? hopId = some session →
      (handleFrame cfg s i c lines).registry.get? hopId = some session ∨
        cfg.duplicate = .replace ∧ session.connection ≠ i ∧
        (handleFrame cfg s i c lines).Closed session.connection := by
  have hheld : c.held = true := by simp [Conn.held, hstage]
  have hreject : ∀ stage, Sound (s.enter i stage) ∧ ∀ hopId session, s.registry.get? hopId = some session →
      (s.enter i stage).registry.get? hopId = some session ∨
        cfg.duplicate = .replace ∧ session.connection ≠ i ∧ (s.enter i stage).Closed session.connection :=
    fun stage => ⟨h.enter_of_idle hc hheld (idle_of_control hstage) stage, fun _ _ hsession => .inl hsession⟩
  cases lines with
  | none =>
    obtain ⟨closed, hc'⟩ := conns_close hc i "bad register frame"
    exact ⟨(h.close ..).enter_of_idle hc' hheld (idle_of_control hstage) _, fun _ _ hsession => .inl hsession⟩
  | some lines =>
    unfold handleFrame
    dsimp only
    split
    · exact hreject _
    · next request _ =>
      split
      · unfold register
        cases hold : s.registry.get? request.hopId with
        | none =>
          refine ⟨h.enrol hc hstage request.hopId rfl rfl, fun hopId session hsession => .inl ?_⟩
          have hne : hopId ≠ request.hopId := fun heq => by rw [heq, hold] at hsession; cases hsession
          exact (HashMap.get?_insert_ne s.registry _ hne).trans hsession
        | some old =>
          cases hdup : cfg.duplicate with
          | reject =>
            exact ⟨(hreject _).1, fun hopId session hsession => .inl hsession⟩
          | replace =>
            obtain ⟨closed, hc'⟩ := conns_close (s := { s with registry := s.registry.erase request.hopId }) hc
              old.connection "replaced by new registration"
            refine ⟨((h.erase _).close ..).enrol hc' hstage request.hopId rfl rfl, fun hopId session hsession => ?_⟩
            by_cases heq : hopId = request.hopId
            · obtain rfl : old = session := Option.some.inj (hold.symm.trans (heq ▸ hsession))
              obtain ⟨d, hd, -, hserve⟩ := h.owned hopId old hsession
              refine .inr ⟨rfl, fun hi => ?_, Closed.enter ?_ i _⟩
              · rw [hi, hc] at hd
                exact idle_of_control hstage hopId (Option.some.inj hd ▸ hserve)
              · exact closed_close (s := { s with registry := s.registry.erase request.hopId }) hd _
            · refine .inl ((HashMap.get?_insert_ne _ _ heq).trans ?_)
              exact (HashMap.get?_erase ..).trans ((if_neg heq).trans hsession)
      · exact hreject _

/-- Deregistering takes out nothing but the session of the connection itself. -/
theorem deregister_own (h : Sound s) (hc : s.conns[i]? = some c) (hheld : c.held = true)
    {hopId hopId' session} (hsession : s.registry.get? hopId' = some session) :
    (s.deregister hopId c.stableId).registry.get? hopId' = some session ∨ session.connection = i := by
  unfold deregister
  split
  · next hstable =>
    by_cases heq : hopId' = hopId
    · right
      subst heq
      rw [hsession, Option.map_some] at hstable
      obtain ⟨d, hd, hid, hserve⟩ := h.owned hopId' session hsession
      have hheld' : d.held = true := by rcases hserve with h | h <;> simp [Conn.held, h]
      exact h.apart _ _ d c hd hc hheld' hheld (hid.trans (Option.some.inj hstable))
    · left
      exact (HashMap.get?_erase ..).trans ((if_neg heq).trans hsession)
  · exact .inl hsession

/-- How a session may go: its own connection deregisters it, after its reply
could not be written or it has ended; or another takes its place, where the
policy is to replace, and it is closed. -/
def Leaves (cfg : EdgeConfig) (s : Edge) (e : EdgeEvent) (session : HopSession) : Prop :=
  e = .acked session.connection false ∨ (e = .ended session.connection ∧ s.Closed session.connection) ∨
    cfg.duplicate = .replace ∧ (∃ i lines, e = .frame i lines ∧ i ≠ session.connection) ∧
      (s.step cfg e).Closed session.connection

theorem step_of_conn (cfg : EdgeConfig) (s : Edge) {e} (hi : e.conn = some i) :
    step cfg s e = (s.conns[i]?.map (stepConn cfg s · e)).getD s := by
  have hbind : e.conn.bind (s.conns[·]?) = s.conns[i]? := by rw [hi, Option.bind_some]
  cases e with
  | accept => cases hi
  | _ =>
    unfold step
    dsimp only
    rw [hbind]
    cases s.conns[i]? <;> rfl

theorem sound_accept (h : Sound s) {stableId}
    (hfresh : s.conns.any (fun c => c.held && c.stableId == stableId) = false) (remote : SocketAddr) :
    Sound { s with conns := s.conns ++ [{ stableId, remote }] } := by
  have hnew : ∀ c ∈ s.conns, c.held = true → c.stableId ≠ stableId := by
    intro c hc hheld heq
    have := List.any_eq_false.1 hfresh c hc
    simp [hheld, heq] at this
  have hcases : ∀ (i : Nat) (c : Conn), (s.conns ++ [({ stableId, remote } : Conn)])[i]? = some c →
      s.conns[i]? = some c ∨ i = s.conns.length ∧ c.stableId = stableId := by
    intro i c hc
    rw [List.getElem?_append] at hc
    split at hc
    · exact .inl hc
    · cases hk : i - s.conns.length with
      | zero =>
        rw [hk] at hc
        cases hc
        exact .inr ⟨by omega, rfl⟩
      | succ k =>
        rw [hk] at hc
        cases hc
  constructor
  · intro hopId session hsession
    obtain ⟨c, hc, hrest⟩ := h.owned hopId session hsession
    obtain ⟨hlt, -⟩ := List.getElem?_eq_some_iff.1 hc
    exact ⟨c, (List.getElem?_append_left hlt).trans hc, hrest⟩
  · intro i j c d hc hd hheldc hheldd heq
    rcases hcases i c hc with hc | ⟨rfl, hcid⟩ <;> rcases hcases j d hd with hd | ⟨rfl, hdid⟩
    · exact h.apart i j c d hc hd hheldc hheldd heq
    · exact absurd (heq.trans hdid) (hnew c (List.mem_of_getElem? hc) hheldc)
    · exact absurd (heq.symm.trans hcid) (hnew d (List.mem_of_getElem? hd) hheldd)
    · rfl

/-- A step of a task keeps the registry sound, and a session stays unless it may go. -/
theorem stepConn_spec (cfg : EdgeConfig) (h : Sound s) {e} (hi : e.conn = some i) (hc : s.conns[i]? = some c) :
    Sound (stepConn cfg s c e) ∧ ∀ hopId session, s.registry.get? hopId = some session →
      (stepConn cfg s c e).registry.get? hopId = some session ∨ Leaves cfg s e session := by
  have hstep : stepConn cfg s c e = step cfg s e := by rw [step_of_conn cfg s hi, hc]; rfl
  have hsame : Sound s ∧ ∀ hopId session, s.registry.get? hopId = some session →
      s.registry.get? hopId = some session ∨ Leaves cfg s e session := ⟨h, fun _ _ hsession => .inl hsession⟩
  -- closing a connection that serves no hop, and the end of its task
  have hclose : ∀ reason, c.held = true → (∀ hopId, ¬ c.Serves hopId) → Sound ((s.close i reason).enter i .done) := by
    intro reason hheld hidle
    obtain ⟨closed, hc'⟩ := conns_close hc i reason
    exact (h.close ..).enter_of_idle hc' hheld hidle _
  cases e with
  | accept => cases hi
  | noControl j timeout =>
    cases hi
    unfold stepConn
    dsimp only
    split
    · next hstage =>
      exact ⟨hclose _ (by simp [Conn.held, hstage]) (idle_of_control hstage), fun _ _ hsession => .inl hsession⟩
    · exact hsame
  | frame j lines =>
    obtain rfl := Option.some.inj hi
    unfold stepConn at hstep ⊢
    dsimp only at hstep ⊢
    split
    · next hstage =>
      rw [if_pos hstage] at hstep
      obtain ⟨hsound, hkept⟩ := handleFrame_spec cfg h hc hstage lines
      refine ⟨hsound, fun hopId session hsession => (hkept hopId session hsession).imp_right fun hgone => ?_⟩
      obtain ⟨hdup, hne, hclosed⟩ := hgone
      exact .inr (.inr ⟨hdup, ⟨j, lines, rfl, hne.symm⟩, hstep ▸ hclosed⟩)
    · exact hsame
  | lingered j =>
    cases hi
    unfold stepConn
    dsimp only
    split
    · next reason hstage =>
      refine ⟨hclose _ (by simp [Conn.held, hstage]) fun hopId hserve => ?_, fun _ _ hsession => .inl hsession⟩
      rcases hserve with h | h <;> rw [hstage] at h <;> cases h
    · exact hsame
  | acked j ok =>
    cases hi
    unfold stepConn
    dsimp only
    split
    · next hopId hstage =>
      have hheld : c.held = true := by simp [Conn.held, hstage]
      cases ok with
      | true =>
        refine ⟨h.enter hc hheld fun hopId' _ _ _ hserve => .inr ?_, fun _ _ hsession => .inl hsession⟩
        rcases hserve with h | h <;> rw [hstage] at h <;> cases h
        rfl
      | false =>
        refine ⟨h.deregister hc (.inl hstage) _, fun hopId' session hsession => ?_⟩
        exact (deregister_own h hc hheld hsession).imp_right fun hown => .inl (by rw [hown])
    · exact hsame
  | closeUnacked j =>
    cases hi
    unfold stepConn
    dsimp only
    split
    · next hstage =>
      refine ⟨hclose _ (by simp [Conn.held, hstage]) fun hopId hserve => ?_, fun _ _ hsession => .inl hsession⟩
      rcases hserve with h | h <;> rw [hstage] at h <;> cases h
    · exact hsame
  | lost j =>
    exact ⟨h.close .., fun _ _ hsession => .inl hsession⟩
  | ended j =>
    cases hi
    unfold stepConn
    dsimp only
    split
    · next hopId hstage =>
      split
      · next hsome =>
        have hheld : c.held = true := by simp [Conn.held, hstage]
        obtain ⟨reason, hreason⟩ := Option.isSome_iff_exists.1 hsome
        refine ⟨h.deregister hc (.inr hstage) _, fun hopId' session hsession => ?_⟩
        refine (deregister_own h hc hheld hsession).imp_right fun hown => .inr (.inl ?_)
        rw [hown]
        exact ⟨rfl, c, reason, hc, hreason⟩
      · exact hsame
    · exact hsame

/-- A step keeps the registry sound, and a session stays unless it may go. -/
theorem step_spec (cfg : EdgeConfig) (h : Sound s) (e : EdgeEvent) :
    Sound (step cfg s e) ∧ ∀ hopId session, s.registry.get? hopId = some session →
      (step cfg s e).registry.get? hopId = some session ∨ Leaves cfg s e session := by
  cases hi : e.conn with
  | some i =>
    rw [step_of_conn cfg s hi]
    cases hc : s.conns[i]? with
    | none => exact ⟨h, fun _ _ hsession => .inl hsession⟩
    | some c => exact stepConn_spec cfg h hi hc
  | none =>
    cases e with
    | accept stableId remote =>
      unfold step
      dsimp only
      split
      · exact ⟨h, fun _ _ hsession => .inl hsession⟩
      · next hfresh => exact ⟨sound_accept h (by simpa using hfresh) remote, fun _ _ hsession => .inl hsession⟩
    | _ => cases hi

theorem sound_run (cfg : EdgeConfig) (events : List EdgeEvent) : Sound (run cfg events) := by
  refine List.foldlRecOn events (step cfg) ⟨fun _ _ h => ?_, fun _ _ _ _ h => ?_⟩ fun s h e _ => (step_spec cfg h e).1
  · simp at h
  · simp at h

end Edge

/-- In every interleaving of what hops, the network and the tasks of an edge do,
under either policy: a hop has at most one session, and a session leaves the
registry only when its own connection is deregistered or, under the policy to
replace, when another connection takes its place and it is closed. -/
theorem registry_keeps_sessions (cfg : EdgeConfig) (events : List EdgeEvent) (e : EdgeEvent) :
    let s := Edge.run cfg events
    s.registry.keys.Nodup ∧ ∀ hopId session, s.registry.get? hopId = some session →
      (s.step cfg e).registry.get? hopId ≠ some session → Edge.Leaves cfg s e session := by
  intro s
  refine ⟨s.registry.nodup, fun hopId session hsession hgone => ?_⟩
  exact ((Edge.step_spec cfg (Edge.sound_run cfg events) e).2 hopId session hsession).resolve_left hgone

end Rove.Reverse
