/-
The health of a node (`health.rs`): what the syncer notes of its attempts, how
many listeners are up and whether the node drains, and what is reported of it.

`ready_iff_history`: a node is ready by what has happened to it, not by what it
noted: the first failure since the last success is the one `failure_since` has.
-/
import Rove.Sync.Syncer

namespace Rove.Sync

open List

structure SnapshotHealth where
  loaded : Bool
  version : BitVec 64
  schemaVersion : BitVec 32

structure ControlPlaneHealth where
  status : String
  consecutiveFailures : Nat
  lastAttemptUnixSecs : Option Nat
  lastSuccessUnixSecs : Option Nat

structure DataPlaneHealth where
  required : Bool
  activeListeners : Nat

/-- `HealthSnapshot`, without the version of the program. -/
structure HealthSnapshot where
  status : String
  ready : Bool
  snapshot : SnapshotHealth
  controlPlane : ControlPlaneHealth
  dataPlane : DataPlaneHealth

def classify (snapshotVersion : BitVec 64) (schemaVersion : BitVec 32) (sync : SyncHealth) (now unreachableAfter : Nat)
    (dataPlane : DataPlaneHealth) (draining : Bool) : HealthSnapshot :=
  let loaded := decide (snapshotVersion > 0)
  let unreachable := (sync.failureSinceUnixSecs.map fun since => decide (now - since ≥ unreachableAfter)).getD false
  let dataPlaneReady := !dataPlane.required || decide (dataPlane.activeListeners > 0)
  let (status, ready) :=
    if draining then ("draining", false)
    else if !loaded then ("starting", false)
    else if !dataPlaneReady then ("unavailable", false)
    else if unreachable then ("degraded", false)
    else ("ready", true)
  let controlPlane :=
    if unreachable then "unreachable"
    else if sync.lastSuccessUnixSecs.isSome then "ok"
    else if sync.failureSinceUnixSecs.isSome then "retrying"
    else "unknown"
  { status, ready
    snapshot := ⟨loaded, snapshotVersion, schemaVersion⟩
    controlPlane := ⟨controlPlane, sync.consecutiveFailures, sync.lastAttemptUnixSecs, sync.lastSuccessUnixSecs⟩
    dataPlane }

/-- `RuntimeHealth` with the syncer and the leases that listeners hold. -/
structure RuntimeHealth where
  syncer : Syncer
  leases : List Nat := []
  activeListeners : Nat := 0
  draining : Bool := false

/-- What happens to a node. A lease is dropped once, by the listener that has it. -/
inductive HealthEvent where
  | sync (op : Op)
  | online (listener : Nat)
  | offline (listener : Nat)
  | drain

/-- An attempt at the control plane that is noted: when, and whether it succeeded. -/
def Op.attempt : Op → Answer → Option (Nat × Bool)
  | .syncOnce _ _ now, .outcome o => some (now, o.success)
  | .trySyncOnce false _ _ now, .outcome o => some (now, o.success)
  | _, _ => none

namespace RuntimeHealth

def dataPlaneOnline (s : RuntimeHealth) (listener : Nat) : RuntimeHealth :=
  if listener ∈ s.leases then s
  else { s with leases := listener :: s.leases, activeListeners := s.activeListeners + 1 }

/-- `Drop` of a lease. -/
def dropLease (s : RuntimeHealth) (listener : Nat) : RuntimeHealth :=
  if listener ∈ s.leases then
    { s with leases := s.leases.erase listener, activeListeners := s.activeListeners - 1 }
  else s

def beginDraining (s : RuntimeHealth) : RuntimeHealth := { s with draining := true }

def step (node : Node) (s : RuntimeHealth) : HealthEvent → RuntimeHealth × Option (Nat × Bool)
  | .sync op => ({ s with syncer := (s.syncer.step node op).1 }, op.attempt (s.syncer.step node op).2)
  | .online l => (s.dataPlaneOnline l, none)
  | .offline l => (s.dropLease l, none)
  | .drain => (s.beginDraining, none)

def snapshot (unreachableAfter : Nat) (dataPlaneRequired : Bool) (s : RuntimeHealth) (now : Nat) : HealthSnapshot :=
  classify s.syncer.active.version s.syncer.active.schemaVersion s.syncer.health now unreachableAfter
    ⟨dataPlaneRequired, s.activeListeners⟩ s.draining

end RuntimeHealth

/-! ## What has happened -/

def attempts (node : Node) (s : RuntimeHealth) (events : List HealthEvent) : List (Nat × Bool) :=
  (runTrace (RuntimeHealth.step node) s events).filterMap (·.2)

/-- The listener is up: it was not stopped after it was last started. -/
def Listening (events : List HealthEvent) (l : Nat) : Prop :=
  ∃ before after, events = before ++ .online l :: after ∧ ∀ e ∈ after, e ≠ .offline l

/-- The attempt at `t` failed, none succeeded after it, and it is the first such. -/
def FailingSince (as : List (Nat × Bool)) (t : Nat) : Prop :=
  ∃ before after, as = before ++ (t, false) :: after ∧ (∀ a ∈ after, a.2 = false) ∧
    ∀ a, before.getLast? = some a → a.2 = true

def Unreachable (unreachableAfter now : Nat) (as : List (Nat × Bool)) : Prop :=
  ∃ t, FailingSince as t ∧ t + unreachableAfter ≤ now

/-- What one attempt makes of `failure_since`. -/
def noteAttempt (since : Option Nat) (a : Nat × Bool) : Option Nat := if a.2 then none else some (since.getD a.1)

theorem failingSince_concat {as : List (Nat × Bool)} {a : Nat × Bool} {t : Nat} :
    FailingSince (as ++ [a]) t ↔
      a.2 = false ∧ (FailingSince as t ∨ a.1 = t ∧ ∀ x, as.getLast? = some x → x.2 = true) := by
  refine ⟨fun h => ?_, fun h => ?_⟩
  · obtain ⟨before, after, heq, hafter, hbefore⟩ := h
    rcases eq_nil_or_concat' after with rfl | ⟨after, b, rfl⟩
    · obtain ⟨rfl, ha⟩ := append_inj' heq rfl
      obtain rfl := (List.cons.inj ha).1
      exact ⟨rfl, .inr ⟨rfl, hbefore⟩⟩
    · rw [← cons_append, ← append_assoc] at heq
      obtain ⟨rfl, ha⟩ := append_inj' heq rfl
      obtain rfl := (List.cons.inj ha).1
      rw [forall_mem_append] at hafter
      exact ⟨hafter.2 a (by simp), .inl ⟨before, after, rfl, hafter.1, hbefore⟩⟩
  · obtain ⟨hfail, ⟨before, after, rfl, hafter, hbefore⟩ | ⟨rfl, hlast⟩⟩ := h
    · refine ⟨before, after ++ [a], by simp, ?_, hbefore⟩
      simpa [hfail, or_imp, forall_and] using hafter
    · exact ⟨as, [], by simp [← hfail], by simp, hlast⟩

theorem foldl_noteAttempt_none {as : List (Nat × Bool)} :
    as.foldl noteAttempt none = none ↔ ∀ a, as.getLast? = some a → a.2 = true := by
  cases as using List.reverseRecOn with
  | nil => simp
  | append_singleton as a => simp [noteAttempt]

theorem foldl_noteAttempt {as : List (Nat × Bool)} {t : Nat} :
    as.foldl noteAttempt none = some t ↔ FailingSince as t := by
  induction as using List.reverseRecOn generalizing t with
  | nil => simp [FailingSince]
  | append_singleton as a ih =>
    rw [foldl_concat, failingSince_concat, ← ih, ← foldl_noteAttempt_none, noteAttempt]
    cases as.foldl noteAttempt none <;> cases a.2 <;> simp

variable {node : Node} {e : HealthEvent}

theorem failureSince_recordHealth (s : Syncer) (o : SyncOutcome) (now : Nat) :
    (s.recordHealth o now).health.failureSinceUnixSecs =
    noteAttempt s.health.failureSinceUnixSecs (now, o.success) := by
  unfold Syncer.recordHealth noteAttempt
  cases o.success <;> rfl

theorem health_applyRemote (s : Syncer) (doc : Model.RawSnapshot) (disk : Option String) :
    (s.applyRemote node doc disk).1.health = s.health := by
  unfold Syncer.applyRemote
  split <;> rfl

theorem failureSince_syncOnceLocked (s : Syncer) (remote : Remote) (disk : Option String) (now : Nat) :
    (s.syncOnceLocked node remote disk now).1.health.failureSinceUnixSecs =
      noteAttempt s.health.failureSinceUnixSecs (now, (s.syncOnceLocked node remote disk now).2.success) := by
  unfold Syncer.syncOnceLocked
  cases node.fetch remote s.active.version with
  | error e => exact failureSince_recordHealth _ _ _
  | ok found =>
    cases found with
    | none => exact failureSince_recordHealth _ _ _
    | some raw => exact (failureSince_recordHealth _ _ _).trans (by rw [health_applyRemote])

theorem failureSince_step (s : Syncer) (op : Op) :
    (s.step node op).1.health.failureSinceUnixSecs =
      (op.attempt (s.step node op).2).elim s.health.failureSinceUnixSecs
      (noteAttempt s.health.failureSinceUnixSecs) := by
  cases op with
  | loadCache stat read =>
    show (s.loadCache node stat read).1.health.failureSinceUnixSecs = s.health.failureSinceUnixSecs
    unfold Syncer.loadCache Syncer.apply
    split
    · split <;> rfl
    · rfl
    · rfl
  | syncOnce remote disk now => exact failureSince_syncOnceLocked s remote disk now
  | trySyncOnce busy remote disk now =>
    cases busy with
    | true => rfl
    | false => exact failureSince_syncOnceLocked s remote disk now
  | adoptAddrbook book =>
    show (s.adoptAddrbook node book).1.health.failureSinceUnixSecs = s.health.failureSinceUnixSecs
    unfold Syncer.adoptAddrbook
    split
    · rfl
    · split
      · rfl
      · split <;> rfl

/-- What the node has noted is what has happened to it. -/
structure Notes (events : List HealthEvent) (as : List (Nat × Bool)) (s : RuntimeHealth) : Prop where
  since : s.syncer.health.failureSinceUnixSecs = as.foldl noteAttempt none
  draining : s.draining = true ↔ .drain ∈ events
  count : s.activeListeners = s.leases.length
  nodup : s.leases.Nodup
  leases : ∀ l, l ∈ s.leases ↔ Listening events l

theorem listening_concat {events : List HealthEvent} {l : Nat} :
    Listening (events ++ [e]) l ↔ e = .online l ∨ (e ≠ .offline l ∧ Listening events l) := by
  refine ⟨fun h => ?_, fun h => ?_⟩
  · obtain ⟨before, after, heq, hafter⟩ := h
    rcases eq_nil_or_concat' after with rfl | ⟨after, b, rfl⟩
    · exact .inl (List.cons.inj (append_inj' heq rfl).2).1
    · rw [← cons_append, ← append_assoc] at heq
      obtain ⟨rfl, he⟩ := append_inj' heq rfl
      obtain rfl := (List.cons.inj he).1
      rw [forall_mem_append] at hafter
      exact .inr ⟨hafter.2 e (by simp), before, after, rfl, hafter.1⟩
  · rcases h with rfl | ⟨hne, before, after, rfl, hafter⟩
    · exact ⟨events, [], rfl, by simp⟩
    · exact ⟨before, after ++ [e], by simp, by simpa [or_imp, forall_and, hne] using hafter⟩

variable {events : List HealthEvent} {as : List (Nat × Bool)} {s : RuntimeHealth}

theorem Notes.online (h : Notes events as s) (l : Nat) : Notes (events ++ [.online l]) as (s.dataPlaneOnline l) := by
  obtain ⟨hsince, hdraining, hcount, hnodup, hleases⟩ := h
  unfold RuntimeHealth.dataPlaneOnline
  split
  · next hmem =>
    refine ⟨hsince, by simpa using hdraining, hcount, hnodup, fun k => ?_⟩
    rw [listening_concat, ← hleases]
    grind
  · next hmem =>
    refine ⟨hsince, by simpa using hdraining, by simp [hcount], nodup_cons.2 ⟨hmem, hnodup⟩, fun k => ?_⟩
    rw [listening_concat, ← hleases]
    grind

theorem Notes.offline (h : Notes events as s) (l : Nat) : Notes (events ++ [.offline l]) as (s.dropLease l) := by
  obtain ⟨hsince, hdraining, hcount, hnodup, hleases⟩ := h
  unfold RuntimeHealth.dropLease
  split
  · next hmem =>
    refine ⟨hsince, by simpa using hdraining, ?_, hnodup.erase l, fun k => ?_⟩
    · simp [length_erase_of_mem hmem, hcount]
    · simp only [hnodup.mem_erase_iff, listening_concat, ← hleases]
      grind
  · next hmem =>
    refine ⟨hsince, by simpa using hdraining, hcount, hnodup, fun k => ?_⟩
    rw [listening_concat, ← hleases]
    grind

theorem Notes.step (h : Notes events as s) (e : HealthEvent) :
    Notes (events ++ [e]) (as ++ (s.step node e).2.toList) (s.step node e).1 := by
  cases e with
  | online l => simpa [RuntimeHealth.step] using h.online l
  | offline l => simpa [RuntimeHealth.step] using h.offline l
  | sync op =>
    refine ⟨?_, by simpa [RuntimeHealth.step] using h.draining, h.count, h.nodup, fun l => ?_⟩
    · rw [foldl_append, ← h.since]
      refine (failureSince_step s.syncer op).trans ?_
      show Option.elim _ _ _ = List.foldl _ _ (op.attempt (s.syncer.step node op).2).toList
      cases op.attempt (s.syncer.step node op).2 <;> rfl
    · rw [listening_concat, ← h.leases]
      simp [RuntimeHealth.step]
  | drain =>
    refine ⟨?_, by simp [RuntimeHealth.step, RuntimeHealth.beginDraining], h.count, h.nodup, fun l => ?_⟩
    · simpa [RuntimeHealth.step, RuntimeHealth.beginDraining] using h.since
    · rw [listening_concat, ← h.leases]
      simp [RuntimeHealth.step, RuntimeHealth.beginDraining]

theorem Notes.run (h : Notes events as s) (es : List HealthEvent) :
    Notes (events ++ es) (as ++ attempts node s es) (runState (RuntimeHealth.step node) s es) := by
  induction es generalizing events as s with
  | nil => simpa [attempts, runTrace, runState] using h
  | cons e es ih =>
    have hcons : attempts node s (e :: es) = (s.step node e).2.toList ++ attempts node (s.step node e).1 es := by
      cases ho : (s.step node e).2 <;> simp [attempts, runTrace, ho]
    rw [hcons, runState]
    simpa using ih (h.step e)

theorem ready_classify (v : BitVec 64) (sv : BitVec 32) (sync : SyncHealth)
    (now unreachableAfter : Nat) (dp : DataPlaneHealth) (draining : Bool) :
    (classify v sv sync now unreachableAfter dp draining).ready =
      (!draining && decide (v > 0) && (!dp.required || decide (dp.activeListeners > 0)) &&
        !(sync.failureSinceUnixSecs.map fun since => decide (now - since ≥ unreachableAfter)).getD false) := by
  unfold classify
  generalize decide (v > 0) = loaded
  generalize (!dp.required || decide (dp.activeListeners > 0)) = up
  generalize Option.getD _ false = unreachable
  cases draining <;> cases loaded <;> cases up <;> cases unreachable <;> rfl

/-- Whether a node reports ready, from what has happened to it: it was not told to
drain, a snapshot is loaded, a listener is up if one has to be, and the control
plane is not out of reach. -/
theorem ready_iff_history (node : Node) (book : Option AddrBook.Book) (cacheFile : Option (List UInt8))
    (unreachableAfter : Nat) (dataPlaneRequired : Bool) (events : List HealthEvent) (now : Nat)
    (hnow : ∀ a ∈ attempts node { syncer := { book, cacheFile } } events, a.1 ≤ now) :
    let s := runState (RuntimeHealth.step node) { syncer := { book, cacheFile } } events
    (s.snapshot unreachableAfter dataPlaneRequired now).ready = true ↔
      .drain ∉ events ∧ s.syncer.active.version > 0 ∧ (dataPlaneRequired = true → ∃ l, Listening events l) ∧
        ¬ Unreachable unreachableAfter now (attempts node { syncer := { book, cacheFile } } events) := by
  intro s
  have hstart : Notes [] [] { syncer := { book, cacheFile } } :=
    ⟨rfl, by simp, rfl, nodup_nil, by simp [Listening]⟩
  obtain ⟨hsince, hdraining, hcount, -, hleases⟩ := @Notes.run node _ _ _ hstart events
  rw [nil_append] at hsince hdraining hleases
  have hlisteners : s.activeListeners > 0 ↔ ∃ l, Listening events l := by
    rw [hcount, gt_iff_lt, length_pos_iff_exists_mem]
    exact exists_congr fun l => by simpa using hleases l
  have hunreachable :
      (s.syncer.health.failureSinceUnixSecs.map fun since => decide (now - since ≥ unreachableAfter)).getD false = true ↔
        Unreachable unreachableAfter now (attempts node { syncer := { book, cacheFile } } events) := by
    have hfailing : ∀ t, s.syncer.health.failureSinceUnixSecs = some t ↔
        FailingSince (attempts node { syncer := { book, cacheFile } } events) t := fun t => by
      rw [hsince, foldl_noteAttempt]
    cases hs : s.syncer.health.failureSinceUnixSecs with
    | none =>
      refine ⟨fun h => (nomatch h), fun h => ?_⟩
      obtain ⟨t, ht, -⟩ := h
      rw [← hfailing, hs] at ht
      cases ht
    | some t =>
      have ht := (hfailing t).1 hs
      have hle : t ≤ now := by
        obtain ⟨before, after, heq, -⟩ := ht
        exact hnow (t, false) (by simp [heq])
      simp only [Option.map_some, Option.getD_some, decide_eq_true_eq]
      refine ⟨fun h => ⟨t, ht, by omega⟩, fun h => ?_⟩
      obtain ⟨t', ht', hlong⟩ := h
      rw [← hfailing, hs] at ht'
      cases ht'
      omega
  have hdrain : s.draining = true ↔ .drain ∈ events := hdraining
  rw [RuntimeHealth.snapshot, ready_classify, ← hunreachable, ← hlisteners, ← hdrain]
  simp only [Bool.and_eq_true, Bool.or_eq_true, Bool.not_eq_true', decide_eq_true_eq, ← Bool.not_eq_true]
  tauto

/-- A node whose control plane is down. -/
def lonelyNode : Node where
  snapshotUrl := []
  nodeId := []
  parseIpNet _ := none
  parseDate _ := .error ""
  readJson _ := .error ""
  writeJson _ := .error ""
  order _ := .keep
  selectors _ book := .empty book

theorem ready_iff_history_lonelyNode :
    let events : List HealthEvent :=
      [.online 0, .sync (.syncOnce (fun _ => .error "down") none 5), .sync (.syncOnce (fun _ => .error "down") none 9)]
    attempts lonelyNode { syncer := { book := none, cacheFile := none } } events = [(5, false), (9, false)] ∧
      Unreachable 30 40 [(5, false), (9, false)] ∧
      ((runState (RuntimeHealth.step lonelyNode)
        { syncer := { book := none, cacheFile := none } } events).snapshot 30 true 40).ready = false := by
  intro events
  have hattempts : attempts lonelyNode { syncer := { book := none, cacheFile := none } } events =
    [(5, false), (9, false)] := rfl
  have hunreachable : Unreachable 30 40 [(5, false), (9, false)] :=
      ⟨5, ⟨[], [(9, false)], rfl, by simp, by simp⟩, by omega⟩
  refine ⟨hattempts, hunreachable, Bool.eq_false_iff.2 fun hready => ?_⟩
  have := (ready_iff_history lonelyNode none none 30 true events 40 (by simp [hattempts])).1 hready
  exact this.2.2.2 (hattempts ▸ hunreachable)

end Rove.Sync
