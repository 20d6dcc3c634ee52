/-
Diagnostic sessions (`diagnostics.rs`): armed for a while for one user, told of
every connection that matches, and closed with a summary.

`start` drops whatever has expired, so a session that expired and was not swept
yet goes without its summary (`sessions_summarized_iff`). The caps are checked
for new sessions and not when one is armed again, possibly for another user
(`session_caps_hold`). What an event copies from the connection is left out, and
the `u64` counts of events are naturals.
-/
import Rove.Trace

namespace Rove.Diagnostics

open List HashMap
open Trace (TraceCandidate TraceResult Filters)

inductive DiagnosticEventType where
  | auth
  | policy
  | limit
  | outbound
  | splice
  | summary
  deriving DecidableEq

namespace DiagnosticEventType

def perConnection : List DiagnosticEventType := [.auth, .policy, .limit, .outbound, .splice]

def asStr : DiagnosticEventType → String
  | .auth => "auth"
  | .policy => "policy"
  | .limit => "limit"
  | .outbound => "outbound"
  | .splice => "splice"
  | .summary => "summary"

def fromCandidate (candidate : TraceCandidate) : Option DiagnosticEventType :=
  match candidate.failureStage.map String.ofList with
  | some "auth" => some .auth
  | some "policy" => some .policy
  | some "limit" => some .limit
  | some "outbound" | some "dns" | some "dial" | some "tls" | some "chain_exhausted" | some "reverse_lookup"
  | some "reverse_open" | some "hop_connect" => some .outbound
  | some "splice" | some "stream_io" => some .splice
  | some _ => none
  | none => match candidate.result with
    | .ok => some .splice
    | .error => none

end DiagnosticEventType

structure DiagnosticLimits where
  maxSessions : Nat
  maxSessionsPerUser : Nat

/-- A request to arm a session. The filters have no user of their own; times are
in nanoseconds. -/
structure DiagnosticSessionSpec where
  requestId : Str
  replyTopic : Str
  username : Str
  filters : Filters := {}
  eventTypes : List DiagnosticEventType
  ttl : Nat

inductive StartRejection where
  | globalLimit
  | userLimit

structure StartAccepted where
  ttlSecs : Nat
  eventTypes : List DiagnosticEventType

structure DiagnosticSummary where
  requestId : Str
  replyTopic : Str
  matchedEvents : Nat
  droppedEvents : Nat
  ttlSecs : Nat

structure DiagnosticSession where
  requestId : Str
  replyTopic : Str
  username : Str
  filters : Filters
  eventTypes : List DiagnosticEventType
  expiresAt : Nat
  ttlSecs : Nat
  matchedEvents : Nat := 0
  droppedEvents : Nat := 0

namespace DiagnosticSession

/-- The session that `start` arms for a request. -/
def ofSpec (spec : DiagnosticSessionSpec) (now : Nat) : DiagnosticSession where
  requestId := spec.requestId
  replyTopic := spec.replyTopic
  username := spec.username
  filters := spec.filters
  eventTypes := (spec.eventTypes.filter (· ∈ DiagnosticEventType.perConnection)).mergeSort fun a b => a.asStr ≤ b.asStr
  expiresAt := now + spec.ttl
  ttlSecs := max 1 (spec.ttl / 10 ^ 9)

/-- `matches`, and `wants` what the connection is classified as, before the session expires. -/
def selects (s : DiagnosticSession) (now : Nat) (candidate : TraceCandidate) : Bool :=
  decide (now < s.expiresAt) && { s.filters with username := some s.username : Filters }.accepts candidate &&
    (DiagnosticEventType.fromCandidate candidate).any (· ∈ s.eventTypes)

def summary (s : DiagnosticSession) : DiagnosticSummary :=
  ⟨s.requestId, s.replyTopic, s.matchedEvents, s.droppedEvents, s.ttlSecs⟩

end DiagnosticSession

abbrev DiagnosticRegistry := HashMap Str DiagnosticSession

/-- An operation, and when it takes place. -/
inductive DiagnosticOp where
  | start (now : Nat) (spec : DiagnosticSessionSpec)
  | cancel (requestId : Str)
  /-- The channel takes the event of a session or is full. -/
  | record (now : Nat) (candidate : TraceCandidate) (room : Str → Bool)
  | sweepExpired (now : Nat)

inductive DiagnosticReply where
  | started (result : Except StartRejection StartAccepted)
  | summaries (closed : List DiagnosticSummary)
  /-- The sessions that were told. -/
  | events (requestIds : List Str)

namespace DiagnosticRegistry

def ofUser (r : DiagnosticRegistry) (username : Str) : Nat := r.entries.countP (·.2.username = username)

/-- `sessions.retain(|_, s| s.expires_at > now)`. -/
def unexpired (r : DiagnosticRegistry) (now : Nat) : DiagnosticRegistry := r.retain fun _ s => now < s.expiresAt

def start (limits : DiagnosticLimits) (r : DiagnosticRegistry) (now : Nat) (spec : DiagnosticSessionSpec) :
    DiagnosticRegistry × Except StartRejection StartAccepted :=
  let r := unexpired r now
  let session := DiagnosticSession.ofSpec spec now
  if r.containsKey spec.requestId = false ∧ limits.maxSessions ≤ r.len then (r, .error .globalLimit)
  else if r.containsKey spec.requestId = false ∧ limits.maxSessionsPerUser ≤ ofUser r spec.username then
    (r, .error .userLimit)
  else (r.insert spec.requestId session, .ok ⟨session.ttlSecs, session.eventTypes⟩)

/-- The body of the loop of `record`. -/
def tell (now : Nat) (candidate : TraceCandidate) (room : Bool) (s : DiagnosticSession) : DiagnosticSession :=
  if s.selects now candidate then
    if room then { s with matchedEvents := s.matchedEvents + 1 } else { s with droppedEvents := s.droppedEvents + 1 }
  else s

def record (r : DiagnosticRegistry) (now : Nat) (candidate : TraceCandidate) (room : Str → Bool) :
    DiagnosticRegistry × List Str :=
  (⟨r.entries.map fun (id, s) => (id, tell now candidate (room id) s), by simpa [Function.comp_def] using r.nodup⟩,
    (r.entries.filter fun (id, s) => s.selects now candidate && room id).map (·.1))

def step (limits : DiagnosticLimits) (r : DiagnosticRegistry) : DiagnosticOp → DiagnosticRegistry × DiagnosticReply
  | .start now spec => ((start limits r now spec).1, .started (start limits r now spec).2)
  | .cancel requestId => (r.erase requestId, .summaries ((r.get? requestId).map (·.summary)).toList)
  | .record now candidate room => ((record r now candidate room).1, .events (record r now candidate room).2)
  | .sweepExpired now =>
    (unexpired r now, .summaries ((r.entries.filter fun e => e.2.expiresAt ≤ now).map (·.2.summary)))

end DiagnosticRegistry

namespace DiagnosticRegistry

variable {limits : DiagnosticLimits} {r : DiagnosticRegistry} {id : Str} {s : DiagnosticSession} {now : Nat}

theorem get?_unexpired : (unexpired r now).get? id = some s ↔ r.get? id = some s ∧ now < s.expiresAt := by
  rw [unexpired, get?_retain, Option.filter_eq_some_iff, decide_eq_true_eq]

theorem get?_record {candidate : TraceCandidate} {room : Str → Bool} {s' : DiagnosticSession} :
    (record r now candidate room).1.get? id = some s' ↔
      ∃ s, r.get? id = some s ∧ tell now candidate (room id) s = s' := by
  simp only [get?_eq_some_iff, record, mem_map, Prod.exists, Prod.mk.injEq]
  constructor
  · rintro ⟨_, s, h, rfl, hs⟩
    exact ⟨s, h, hs⟩
  · rintro ⟨s, h, hs⟩
    exact ⟨_, s, h, rfl, hs⟩

/-- What `start` does: it drops what has expired, and arms the session if there is room for a new one. -/
theorem start_cases (limits : DiagnosticLimits) (r : DiagnosticRegistry) (now : Nat) (spec : DiagnosticSessionSpec) :
    ((unexpired r now).containsKey spec.requestId = false ∧ (limits.maxSessions ≤ (unexpired r now).len ∨
        limits.maxSessionsPerUser ≤ ofUser (unexpired r now) spec.username) ∧
        ∃ rejection, start limits r now spec = (unexpired r now, .error rejection)) ∨
      (((unexpired r now).containsKey spec.requestId = true ∨ ((unexpired r now).len < limits.maxSessions ∧
        ofUser (unexpired r now) spec.username < limits.maxSessionsPerUser)) ∧
        ∃ accepted, start limits r now spec =
          ((unexpired r now).insert spec.requestId (.ofSpec spec now), .ok accepted)) := by
  unfold start
  dsimp only
  split
  · next h => exact .inl ⟨h.1, .inl h.2, _, rfl⟩
  · split
    · next h => exact .inl ⟨h.1, .inr h.2, _, rfl⟩
    · next h h' => exact .inr ⟨by grind, _, rfl⟩

/-! ## Caps -/

/-- The sessions that have not expired keep to the caps. -/
def WithinCaps (limits : DiagnosticLimits) (r : DiagnosticRegistry) : Prop :=
  r.len ≤ limits.maxSessions ∧ ∀ username, ofUser r username ≤ limits.maxSessionsPerUser

/-- A session that is armed again stays with its user, or goes to one with a session to spare. -/
def StaysWithUser (limits : DiagnosticLimits) (r : DiagnosticRegistry) : DiagnosticOp → Prop
  | .start now spec => ∀ s ∈ (unexpired r now).get? spec.requestId,
      s.username = spec.username ∨ ofUser (unexpired r now) spec.username < limits.maxSessionsPerUser
  | _ => True

theorem WithinCaps.of_sublist {r' : DiagnosticRegistry} (h : WithinCaps limits r)
    (hsub : r'.entries.Sublist r.entries) :
    WithinCaps limits r' :=
  ⟨hsub.length_le.trans h.1, fun username => (hsub.countP_le).trans (h.2 username)⟩

theorem WithinCaps.unexpired (h : WithinCaps limits r) (now : Nat) : WithinCaps limits (unexpired r now) :=
  h.of_sublist filter_sublist

theorem WithinCaps.step (h : WithinCaps limits r) {op : DiagnosticOp} (hop : StaysWithUser limits r op) :
    WithinCaps limits (step limits r op).1 := by
  cases op with
  | start now spec =>
    have hlive := h.unexpired now
    rcases start_cases limits r now spec with ⟨-, -, _, hstart⟩ | ⟨hroom, _, hstart⟩
    · rw [DiagnosticRegistry.step, hstart]
      exact hlive
    · rw [DiagnosticRegistry.step, hstart]
      rw [StaysWithUser] at hop
      dsimp only
      generalize r.unexpired now = live at hop hlive hroom ⊢
      have hcount : ∀ username, ofUser (live.insert spec.requestId (.ofSpec spec now)) username =
          ofUser (live.erase spec.requestId) username + if spec.username = username then 1 else 0 := by
        intro username
        simp [ofUser, HashMap.insert, DiagnosticSession.ofSpec, countP_cons]
      have hlen : (live.insert spec.requestId (.ofSpec spec now)).len = (live.erase spec.requestId).len + 1 := by
        simp [HashMap.len, HashMap.insert]
      cases hget : live.get? spec.requestId with
      | none =>
        have hnew : live.containsKey spec.requestId = false := by simp [HashMap.containsKey, hget]
        obtain ⟨hall, huser⟩ := hroom.resolve_left (by simp [hnew])
        have hsub : (live.erase spec.requestId).entries.Sublist live.entries := filter_sublist
        have hle : (live.erase spec.requestId).len ≤ live.len := hsub.length_le
        refine ⟨by omega, fun username => ?_⟩
        have hfew : ofUser (live.erase spec.requestId) username ≤ ofUser live username := hsub.countP_le
        have := hlive.2 username
        grind
      | some s =>
        have hperm := perm_erase hget
        have hold : ∀ username, ofUser live username =
            ofUser (live.erase spec.requestId) username + if s.username = username then 1 else 0 := by
          intro username
          simp [ofUser, hperm.countP_eq, countP_cons]
        have hle : (live.erase spec.requestId).len + 1 = live.len := len_erase_of_some hget
        refine ⟨by rw [hlen, hle]; exact hlive.1, fun username => ?_⟩
        have := hlive.2 username
        have := hold username
        have := hop s hget
        grind
  | cancel requestId => exact h.of_sublist filter_sublist
  | record now candidate room =>
    refine ⟨by simpa [DiagnosticRegistry.step, record, HashMap.len] using h.1, fun username => ?_⟩
    have hname : ∀ room s, (tell now candidate room s).username = s.username := by
      intro room s
      unfold tell
      split
      · split <;> rfl
      · rfl
    have := h.2 username
    simpa [DiagnosticRegistry.step, record, ofUser, countP_map, Function.comp_def, hname] using this
  | sweepExpired now => exact h.unexpired now

end DiagnosticRegistry

/-- In every history in which a session that is armed again stays with its user,
or goes to one with a session to spare, the sessions that have not expired keep
to both caps at every time. -/
theorem session_caps_hold (limits : DiagnosticLimits) (ops : List DiagnosticOp)
    (h : EveryStep (DiagnosticRegistry.step limits) (DiagnosticRegistry.StaysWithUser limits) ∅ ops) (now : Nat) :
    let r := runState (DiagnosticRegistry.step limits) ∅ ops
    (DiagnosticRegistry.unexpired r now).len ≤ limits.maxSessions ∧
      ∀ username,
        DiagnosticRegistry.ofUser (DiagnosticRegistry.unexpired r now) username ≤ limits.maxSessionsPerUser := by
  suffices hall : ∀ {r}, DiagnosticRegistry.WithinCaps limits r →
      EveryStep (DiagnosticRegistry.step limits) (DiagnosticRegistry.StaysWithUser limits) r ops →
        DiagnosticRegistry.WithinCaps limits (runState (DiagnosticRegistry.step limits) r ops) from
    (hall ⟨Nat.zero_le _, fun _ => Nat.zero_le _⟩ h).unexpired now
  clear h
  induction ops with
  | nil => exact fun hr _ => hr
  | cons op ops ih => exact fun hr hops => ih (hr.step hops.1) hops.2

/-- Two sessions of one user, the second armed for another user first. -/
def rearmOps (username : Str) : List DiagnosticOp :=
  [.start 0 ⟨"a", [], "u", {}, [], 60 * 10 ^ 9⟩, .start 0 ⟨"b", [], username, {}, [], 60 * 10 ^ 9⟩,
    .start 0 ⟨"b", [], "u", {}, [], 60 * 10 ^ 9⟩]

theorem session_caps_hold_twoEach :
    DiagnosticRegistry.ofUser (.unexpired (runState (DiagnosticRegistry.step ⟨2, 2⟩) ∅ (rearmOps "v")) 1) "u" ≤ 2 :=
  (session_caps_hold ⟨2, 2⟩ (rearmOps "v") (by
    simp only [rearmOps, EveryStep, DiagnosticRegistry.StaysWithUser]
    decide) 1).2 _

/-- With one session for each user, arming a session again for another user gives that user two. -/
theorem rearm_exceeds_user_cap :
    DiagnosticRegistry.ofUser (.unexpired (runState (DiagnosticRegistry.step ⟨2, 1⟩) ∅ (rearmOps "v")) 1) "u" = 2 := by
  decide

/-! ## Summaries -/

/-- The ids of the sessions that a reply closes. -/
def DiagnosticReply.closed : DiagnosticReply → List Str
  | .summaries closed => closed.map (·.requestId)
  | _ => []

namespace DiagnosticRegistry

def Keyed (r : DiagnosticRegistry) : Prop := ∀ id s, r.get? id = some s → s.requestId = id

/-- A step closes each session that it takes out of the registry, once, and no other. -/
def Closes (limits : DiagnosticLimits) (r : DiagnosticRegistry) (op : DiagnosticOp) : Prop :=
  ∀ id, (step limits r op).2.closed.count id =
    if r.containsKey id = true ∧ (step limits r op).1.containsKey id = false then 1 else 0

/-- When a session is armed no other has expired without being swept, and an
expired one is armed again only while there is room. -/
def Swept (limits : DiagnosticLimits) (r : DiagnosticRegistry) : DiagnosticOp → Prop
  | .start now spec => ∀ id s, r.get? id = some s → s.expiresAt ≤ now →
      id = spec.requestId ∧ (unexpired r now).len < limits.maxSessions ∧
        ofUser (unexpired r now) spec.username < limits.maxSessionsPerUser
  | _ => True

variable {limits : DiagnosticLimits} {r : DiagnosticRegistry} {id : Str} {s : DiagnosticSession} {now : Nat}

theorem requestId_tell {candidate : TraceCandidate} {room : Bool} :
    (tell now candidate room s).requestId = s.requestId := by
  unfold tell
  split
  · split <;> rfl
  · rfl

theorem Keyed.step (h : Keyed r) (op : DiagnosticOp) : Keyed (step limits r op).1 := by
  intro id s hget
  cases op with
  | start now spec =>
    rw [DiagnosticRegistry.step] at hget
    rcases start_cases limits r now spec with ⟨-, -, _, hstart⟩ | ⟨-, _, hstart⟩
    · rw [hstart] at hget
      exact h id s (get?_unexpired.1 hget).1
    · rw [hstart, get?_insert] at hget
      split at hget
      · next heq => rw [← Option.some.inj hget, heq]; rfl
      · exact h id s (get?_unexpired.1 hget).1
  | cancel requestId => exact h id s (get?_of_erase hget)
  | record now candidate room =>
    obtain ⟨s₀, h₀, rfl⟩ := get?_record.1 hget
    rw [requestId_tell, h id s₀ h₀]
  | sweepExpired now => exact h id s (get?_unexpired.1 hget).1

theorem containsKey_unexpired :
    (unexpired r now).containsKey id = true ↔ ∃ s, r.get? id = some s ∧ now < s.expiresAt := by
  rw [containsKey_iff]
  exact exists_congr fun s => get?_unexpired

theorem closes_start_iff (spec : DiagnosticSessionSpec) :
    Closes limits r (.start now spec) ↔ Swept limits r (.start now spec) := by
  have hclosed : Closes limits r (.start now spec) ↔
      ∀ id s, r.get? id = some s → (start limits r now spec).1.containsKey id = true := by
    refine ⟨fun h id s hget => ?_, fun h id => ?_⟩
    · by_contra hout
      have hone := h id
      rw [if_pos ⟨containsKey_iff.2 ⟨s, hget⟩, Bool.eq_false_iff.2 hout⟩] at hone
      cases hone
    · rw [if_neg]
      · rfl
      · rintro ⟨hin, hout⟩
        obtain ⟨s, hget⟩ := containsKey_iff.1 hin
        exact Bool.false_ne_true (hout.symm.trans (h id s hget))
  rw [hclosed, Swept]
  refine forall_congr' fun id => forall_congr' fun s => forall_congr' fun hget => ?_
  by_cases hlive : now < s.expiresAt
  · have hin : (unexpired r now).containsKey id = true := containsKey_unexpired.2 ⟨s, hget, hlive⟩
    refine iff_of_true ?_ (fun h => absurd h (Nat.not_le.2 hlive))
    rcases start_cases limits r now spec with ⟨-, -, _, hstart⟩ | ⟨-, _, hstart⟩
    · rw [hstart]
      exact hin
    · rw [hstart, containsKey_insert, hin]
      simp
  · have hout : (unexpired r now).containsKey id = false := by
      rw [Bool.eq_false_iff, ne_eq, containsKey_unexpired]
      rintro ⟨s', hget', hlive'⟩
      exact hlive (Option.some.inj (hget.symm.trans hget') ▸ hlive')
    rcases start_cases limits r now spec with ⟨-, hfull, _, hstart⟩ | ⟨hroom, _, hstart⟩
    · rw [hstart, hout]
      refine iff_of_false Bool.false_ne_true fun h => ?_
      omega
    · rw [hstart, containsKey_insert, hout]
      grind

theorem closes_iff (h : Keyed r) (op : DiagnosticOp) : Closes limits r op ↔ Swept limits r op := by
  cases op with
  | start now spec => exact closes_start_iff spec
  | cancel requestId =>
    refine iff_of_true (fun id => ?_) trivial
    simp only [step, DiagnosticReply.closed, containsKey_erase]
    by_cases hid : id = requestId
    · cases hget : r.get? requestId with
      | none => simp [hid, HashMap.containsKey, hget]
      | some s => simp [hid, HashMap.containsKey, hget, DiagnosticSession.summary, h _ s hget]
    · cases hget : r.get? requestId with
      | none => simp [hid]
      | some s => simp [hid, DiagnosticSession.summary, h _ s hget, Ne.symm hid]
  | record now candidate room =>
    refine iff_of_true (fun id => ?_) trivial
    have hsame : (record r now candidate room).1.containsKey id = true ↔ r.containsKey id = true := by
      simp only [containsKey_iff, get?_record]
      grind
    simp only [step, DiagnosticReply.closed, count_nil]
    grind
  | sweepExpired now =>
    refine iff_of_true (fun id => ?_) trivial
    have hids : (r.entries.filter fun e => e.2.expiresAt ≤ now).map (·.2.summary.requestId) =
        (r.entries.filter fun e => e.2.expiresAt ≤ now).map Prod.fst :=
      map_congr_left fun e he => h e.1 e.2 (get?_eq_some_iff.2 (mem_of_mem_filter he))
    have hnodup : ((r.entries.filter fun e => e.2.expiresAt ≤ now).map Prod.fst).Nodup :=
      r.nodup.sublist (filter_sublist.map _)
    have hmem : id ∈ (r.entries.filter fun e => e.2.expiresAt ≤ now).map Prod.fst ↔
        r.containsKey id = true ∧ (unexpired r now).containsKey id = false := by
      rw [Bool.eq_false_iff, ne_eq, containsKey_unexpired, containsKey_iff]
      simp only [mem_map, mem_filter, decide_eq_true_eq, Prod.exists, ← get?_eq_some_iff]
      grind
    simp only [step, DiagnosticReply.closed, map_map, Function.comp_def, hids, hnodup.count]
    exact if_congr hmem rfl rfl

end DiagnosticRegistry

/-! ## Counts -/

/-- The connections that a session selects and that the channel took, or did not take. -/
def told (s : DiagnosticSession) (taken : Bool) (trace : List (DiagnosticOp × DiagnosticReply)) : Nat :=
  trace.countP fun e => match e.1 with
    | .record now candidate room => s.selects now candidate && room s.requestId == taken
    | _ => false

/-- A session as its last arming left it, with what it was told since. -/
def Counted (trace : List (DiagnosticOp × DiagnosticReply)) (s : DiagnosticSession) : Prop :=
  ∃ before now spec accepted after, trace = before ++ (.start now spec, .started (.ok accepted)) :: after ∧
    spec.requestId = s.requestId ∧
    (∀ e ∈ after, ∀ now' spec' accepted', e = (.start now' spec', .started (.ok accepted')) →
      spec'.requestId ≠ s.requestId) ∧
    s = { DiagnosticSession.ofSpec spec now with
      matchedEvents := told (.ofSpec spec now) true after
      droppedEvents := told (.ofSpec spec now) false after }

/-- The session after an operation that does not arm it. -/
def DiagnosticSession.after (s : DiagnosticSession) : DiagnosticOp → DiagnosticSession
  | .record now candidate room => DiagnosticRegistry.tell now candidate (room s.requestId) s
  | _ => s

theorem Counted.append {trace : List (DiagnosticOp × DiagnosticReply)} {s : DiagnosticSession} (h : Counted trace s)
    {op : DiagnosticOp} {reply : DiagnosticReply}
    (hother : ∀ now spec accepted, (op, reply) = (.start now spec, .started (.ok accepted)) →
      spec.requestId ≠ s.requestId) :
    Counted (trace ++ [(op, reply)]) (s.after op) := by
  obtain ⟨before, now, spec, accepted, after, rfl, hid, hafter, rfl⟩ := h
  generalize hspec : DiagnosticSession.ofSpec spec now = s at hid hafter hother ⊢
  refine ⟨before, now, spec, accepted, after ++ [(op, reply)], by simp, ?_, ?_, ?_⟩
  · cases op <;> first | exact hid | exact hid.trans DiagnosticRegistry.requestId_tell.symm
  · intro e he now' spec' accepted' heq hsame
    replace hsame : spec'.requestId = s.requestId := by
      cases op <;> first | exact hsame | exact hsame.trans DiagnosticRegistry.requestId_tell
    rcases mem_append.1 he with he | he
    · exact hafter e he now' spec' accepted' heq hsame
    · exact hother now' spec' accepted' ((mem_singleton.1 he).symm.trans heq) hsame
  · rw [hspec]
    cases op with
    | record now' candidate room =>
      have hselects : ∀ m d,
          { s with matchedEvents := m, droppedEvents := d : DiagnosticSession }.selects now' candidate =
          s.selects now' candidate := fun _ _ => rfl
      rw [DiagnosticSession.after, DiagnosticRegistry.tell, hselects]
      cases hsel : s.selects now' candidate <;> cases hroom : room s.requestId <;>
        simp [told, countP_append, hsel, hroom]
    | _ => simp [DiagnosticSession.after, told]

namespace DiagnosticRegistry

/-- What a history leaves in the registry is counted. -/
def Sound (r : DiagnosticRegistry) (trace : List (DiagnosticOp × DiagnosticReply)) : Prop :=
  Keyed r ∧ ∀ id s, r.get? id = some s → Counted trace s

theorem Sound.step {limits : DiagnosticLimits} {r : DiagnosticRegistry} {trace : List (DiagnosticOp × DiagnosticReply)}
    (op : DiagnosticOp) (h : Sound r trace) : Sound (step limits r op).1 (trace ++ [(op, (step limits r op).2)]) := by
  refine ⟨h.1.step op, fun id s hget => ?_⟩
  cases op with
  | start now spec =>
    rw [DiagnosticRegistry.step] at hget ⊢
    rcases start_cases limits r now spec with ⟨-, -, _, hstart⟩ | ⟨-, accepted, hstart⟩
    · rw [hstart] at hget ⊢
      exact (h.2 id s (get?_unexpired.1 hget).1).append (by simp)
    · rw [hstart] at hget ⊢
      rw [get?_insert] at hget
      split at hget
      · obtain rfl := Option.some.inj hget
        exact ⟨trace, now, spec, accepted, [], rfl, rfl, by simp, rfl⟩
      · next hne =>
        have hold := (get?_unexpired.1 hget).1
        refine (h.2 id s hold).append fun now' spec' _ heq => ?_
        obtain ⟨rfl, rfl⟩ := DiagnosticOp.start.inj (Prod.mk.inj heq).1
        rw [h.1 id s hold]
        exact Ne.symm hne
  | cancel requestId => exact (h.2 id s (get?_of_erase hget)).append (by simp)
  | record now candidate room =>
    obtain ⟨s₀, h₀, rfl⟩ := get?_record.1 hget
    have hid := h.1 id s₀ h₀
    subst hid
    exact (h.2 _ s₀ h₀).append (by simp)
  | sweepExpired now => exact (h.2 id s (get?_unexpired.1 hget).1).append (by simp)

theorem sound_run (limits : DiagnosticLimits) (ops : List DiagnosticOp) :
    Sound (runState (step limits) ∅ ops) (runTrace (step limits) ∅ ops) :=
  @run_induction _ _ _ _ Sound (fun _ _ op h => h.step op) _ [] ⟨by simp [Keyed], by simp⟩ ops

end DiagnosticRegistry

/-- In every history each session that leaves the registry is closed by exactly
one summary, if and only if each is swept before another one is armed. Every
summary has the counts of its session since it was armed last, and no session
is told of anything once it has expired. -/
theorem sessions_summarized_iff (limits : DiagnosticLimits) (ops : List DiagnosticOp) :
    let step := DiagnosticRegistry.step limits
    (EveryStep step (DiagnosticRegistry.Closes limits) ∅ ops ↔ EveryStep step (DiagnosticRegistry.Swept limits) ∅ ops) ∧
      ∀ before op reply after, runTrace step ∅ ops = before ++ (op, reply) :: after →
        (∀ closed, reply = .summaries closed → ∀ summary ∈ closed, ∃ s, Counted before s ∧ s.summary = summary) ∧
        ∀ now candidate room ids, op = .record now candidate room → reply = .events ids → ∀ id ∈ ids,
          ∃ s, s.requestId = id ∧ Counted before s ∧ now < s.expiresAt := by
  intro step
  refine ⟨everyStep_iff (fun r op h => DiagnosticRegistry.closes_iff h op) (fun r op h _ => h.step op)
    (by simp [DiagnosticRegistry.Keyed]) ops, fun before op reply after htrace => ?_⟩
  obtain ⟨ops₁, -, -, rfl, rfl⟩ := runTrace_eq_append_cons htrace
  have hs := DiagnosticRegistry.sound_run limits ops₁
  refine ⟨fun closed hclosed summary hmem => ?_, ?_⟩
  · cases op with
    | cancel requestId =>
      obtain rfl := DiagnosticReply.summaries.inj hclosed
      obtain ⟨s, hget, rfl⟩ := Option.map_eq_some_iff.1 (Option.mem_toList.1 hmem)
      exact ⟨s, hs.2 _ s hget, rfl⟩
    | sweepExpired now =>
      obtain rfl := DiagnosticReply.summaries.inj hclosed
      obtain ⟨e, he, rfl⟩ := mem_map.1 hmem
      exact ⟨e.2, hs.2 e.1 e.2 (get?_eq_some_iff.2 (mem_of_mem_filter he)), rfl⟩
    | _ => cases hclosed
  · rintro now candidate room ids rfl hids id hid
    obtain rfl := DiagnosticReply.events.inj hids
    obtain ⟨⟨id, s⟩, he, rfl⟩ := mem_map.1 hid
    obtain ⟨he, hselects⟩ := mem_filter.1 he
    have hget := get?_eq_some_iff.2 he
    refine ⟨s, hs.1 _ s hget, hs.2 _ s hget, ?_⟩
    simp only [DiagnosticSession.selects, Bool.and_eq_true, decide_eq_true_eq] at hselects
    exact hselects.1.1.1

/-- A session expires, and before it is swept another one is armed: it is gone
without a summary, and the sweep finds nothing to close. -/
theorem expired_session_unsummarized :
    let ops : List DiagnosticOp :=
      [.start 0 ⟨"a", [], "u", {}, [], 10 ^ 9⟩, .start (10 ^ 9) ⟨"b", [], "v", {}, [], 10 ^ 10⟩,
        .sweepExpired (2 * 10 ^ 9)]
    (runState (DiagnosticRegistry.step ⟨4, 2⟩) ∅ ops).containsKey "a" = false ∧
      (runTrace (DiagnosticRegistry.step ⟨4, 2⟩) ∅ ops).flatMap (·.2.closed) = [] := by
  decide

end Rove.Diagnostics
