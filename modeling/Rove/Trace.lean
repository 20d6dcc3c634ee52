/-
Probe tracing (`trace.rs`): a probe is armed for a while, and the next proxy
connection that matches its filters is reported for it. `probe_reported_iff`
says that this is so unless two armed probes match one connection, which is
reported for one of them only.

A report's fields that are copied from the connection and that nothing decides
on are left out; the channel for reports is open.
-/
import Rove.Base.HashMap
import Rove.Base.Run
import Rove.Base.Str

namespace Rove.Trace

open HashMap

inductive TraceResult where
  | ok
  | error
  deriving DecidableEq

/-- A connection that finished, as far as probes and sessions look at it. -/
structure TraceCandidate where
  listener : Str
  protocol : Str
  username : Option Str
  targetHost : Option Str
  targetPort : Option Nat
  result : TraceResult
  failureStage : Option Str
  deriving DecidableEq

def optionalEq (expected actual : Option Str) : Bool :=
  match expected with
  | none => true
  | some expected => actual.any (Str.eqIgnoreAsciiCase · expected)

/-- What `ProbeArm` and `DiagnosticSession` select connections by. -/
structure Filters where
  username : Option Str := none
  targetHost : Option Str := none
  targetPort : Option Nat := none
  protocol : Option Str := none
  listener : Option Str := none
  deriving DecidableEq

/-- `matches`. -/
def Filters.accepts (f : Filters) (candidate : TraceCandidate) : Bool :=
  optionalEq f.username candidate.username && optionalEq f.targetHost candidate.targetHost &&
    f.targetPort.all (fun p => some p = candidate.targetPort) &&
    optionalEq f.protocol (some candidate.protocol) && optionalEq f.listener (some candidate.listener)

structure ProbeArm where
  requestId : Str
  replyTopic : Str
  filters : Filters
  expiresAt : Nat
  deriving DecidableEq

structure ProbeTraceReport where
  requestId : Str
  replyTopic : Str
  status : String
  candidate : TraceCandidate
  deriving DecidableEq

def ProbeArm.report (arm : ProbeArm) (candidate : TraceCandidate) : ProbeTraceReport where
  requestId := arm.requestId
  replyTopic := arm.replyTopic
  status := match candidate.result with
    | .ok => "ok"
    | .error => "error"
  candidate := candidate

structure ProbeTracer where
  now : Nat := 0
  probes : HashMap Str ProbeArm := ∅

/-- An order in which the map of probes can be walked. -/
abbrev Walk := { f : List (Str × ProbeArm) → List (Str × ProbeArm) // ∀ l, (f l).Perm l }

inductive ProbeEvent where
  | arm (arm : ProbeArm)
  /-- A connection finishes some time later. -/
  | finish (elapsed : Nat) (candidate : TraceCandidate) (order : Walk)

namespace ProbeTracer

def arm (t : ProbeTracer) (arm : ProbeArm) : ProbeTracer := { t with probes := t.probes.insert arm.requestId arm }

def finish (t : ProbeTracer) (candidate : TraceCandidate) (order : Walk) : ProbeTracer × Option ProbeTraceReport :=
  let probes := t.probes.retain fun _ arm => t.now < arm.expiresAt
  match (order.1 probes.entries).find? (·.2.filters.accepts candidate) with
  | none => ({ t with probes }, none)
  | some (requestId, arm) => ({ t with probes := probes.erase requestId }, some (arm.report candidate))

def step (t : ProbeTracer) : ProbeEvent → ProbeTracer × Option ProbeTraceReport
  | .arm arm => (t.arm arm, none)
  | .finish elapsed candidate order => finish { t with now := t.now + elapsed } candidate order

end ProbeTracer

/-- The probe of an id that was armed last, unless it was reported since. -/
def armed (id : Str) (trace : List (ProbeEvent × Option ProbeTraceReport)) : Option ProbeArm :=
  trace.foldl (fun found e => match e with
    | (.arm arm, _) => if arm.requestId = id then some arm else found
    | (_, some report) => if report.requestId = id then none else found
    | (_, none) => found) none

namespace ProbeTracer

/-- Probes are kept by id, and those that have not expired are the armed ones. -/
structure Sound (t : ProbeTracer) (trace : List (ProbeEvent × Option ProbeTraceReport)) : Prop where
  id : ∀ id arm, t.probes.get? id = some arm → arm.requestId = id
  armed : ∀ id arm, t.now < arm.expiresAt → (t.probes.get? id = some arm ↔ armed id trace = some arm)

variable {t : ProbeTracer} {trace : List (ProbeEvent × Option ProbeTraceReport)} {candidate : TraceCandidate}
  {order : Walk}

/-- A connection is reported for a probe that has not expired and matches, if there is one. -/
theorem finish_cases (t : ProbeTracer) (candidate : TraceCandidate) (order : Walk) :
    ((t.finish candidate order).2 = none ∧
        (t.finish candidate order).1.probes = t.probes.retain (fun _ arm => t.now < arm.expiresAt) ∧
        ∀ id arm, t.probes.get? id = some arm → t.now < arm.expiresAt → arm.filters.accepts candidate = false) ∨
      ∃ id arm, t.probes.get? id = some arm ∧ t.now < arm.expiresAt ∧ arm.filters.accepts candidate = true ∧
        (t.finish candidate order).2 = some (arm.report candidate) ∧
        (t.finish candidate order).1.probes = (t.probes.retain fun _ arm => t.now < arm.expiresAt).erase id := by
  have hmem : ∀ id arm, (id, arm) ∈ order.1 (t.probes.retain fun _ arm => t.now < arm.expiresAt).entries ↔
      t.probes.get? id = some arm ∧ t.now < arm.expiresAt := by
    intro id arm
    rw [(order.2 _).mem_iff, ← get?_eq_some_iff, get?_retain, Option.filter_eq_some_iff]
    simp
  unfold finish
  dsimp only
  split
  · next hnone =>
    refine .inl ⟨rfl, rfl, fun id arm hget hlive => ?_⟩
    simpa using List.find?_eq_none.1 hnone _ ((hmem id arm).2 ⟨hget, hlive⟩)
  · next id arm hfound =>
    obtain ⟨hget, hlive⟩ := (hmem id arm).1 (List.mem_of_find?_eq_some hfound)
    have hmatch := List.find?_some hfound
    exact .inr ⟨id, arm, hget, hlive, hmatch, rfl, rfl⟩

theorem Sound.advance (h : t.Sound trace) (elapsed : Nat) :
    ({ t with now := t.now + elapsed } : ProbeTracer).Sound trace :=
  ⟨h.id, fun id arm hlive => h.armed id arm (by dsimp only at hlive; omega)⟩

theorem Sound.step (e : ProbeEvent) (h : t.Sound trace) : (t.step e).1.Sound (trace ++ [(e, (t.step e).2)]) := by
  cases e with
  | arm arm =>
    refine ⟨fun id found hget => ?_, fun id found hlive => ?_⟩
    · simp only [ProbeTracer.step, ProbeTracer.arm, get?_insert] at hget
      grind [h.id id found]
    · simp only [ProbeTracer.step, ProbeTracer.arm, get?_insert, Trace.armed, List.foldl_concat]
      have := h.armed id found hlive
      grind [Trace.armed]
  | finish elapsed candidate order =>
    have ha := h.advance elapsed
    rw [ProbeTracer.step]
    generalize ({ t with now := t.now + elapsed } : ProbeTracer) = t' at ha ⊢
    have hnow : (t'.finish candidate order).1.now = t'.now := by
      unfold finish
      dsimp only
      split <;> rfl
    rcases t'.finish_cases candidate order with ⟨hout, hprobes, -⟩ | ⟨id', arm', hget', -, -, hout, hprobes⟩
    · refine ⟨fun id arm hget => ha.id id arm ?_, fun id arm hlive => ?_⟩
      · rw [hprobes, get?_retain, Option.filter_eq_some_iff] at hget
        exact hget.1
      · rw [hnow] at hlive
        rw [hprobes, get?_retain, Option.filter_eq_some_iff, ha.armed id arm hlive, hout]
        simp [Trace.armed, hlive]
    · have hid := ha.id id' arm' hget'
      refine ⟨fun id arm hget => ha.id id arm ?_, fun id arm hlive => ?_⟩
      · rw [hprobes] at hget
        have hget := get?_of_erase hget
        rw [get?_retain, Option.filter_eq_some_iff] at hget
        exact hget.1
      · rw [hnow] at hlive
        have harmed := ha.armed id arm hlive
        rw [hprobes, get?_erase, get?_retain, hout]
        simp only [Trace.armed, List.foldl_concat, ProbeArm.report, hid] at harmed ⊢
        by_cases heq : id = id'
        · simp [heq]
        · simp [heq, Ne.symm heq, Option.filter_eq_some_iff, harmed, hlive]

theorem sound_run (events : List ProbeEvent) :
    (runState step ({} : ProbeTracer) events).Sound (runTrace step {} events) :=
  @run_induction _ _ _ _ Sound (fun _ _ e h => h.step e) _ [] ⟨by simp, by simp [Trace.armed]⟩ events

end ProbeTracer

/-- The armed probes that a connection, finished at some time, could be reported for. -/
def Due (trace : List (ProbeEvent × Option ProbeTraceReport)) (now : Nat) (candidate : TraceCandidate)
    (arm : ProbeArm) : Prop :=
  armed arm.requestId trace = some arm ∧ now < arm.expiresAt ∧ arm.filters.accepts candidate = true

/-- After every history, a connection is reported at most for a probe that is
armed and not reported since, has not expired, and matches. It is reported for
every such probe if and only if there is at most one. -/
theorem probe_reported_iff (events : List ProbeEvent) (elapsed : Nat) (candidate : TraceCandidate) (order : Walk) :
    let trace := runTrace ProbeTracer.step {} events
    let t : ProbeTracer := runState ProbeTracer.step {} events
    let report := (t.step (.finish elapsed candidate order)).2
    (∀ r, report = some r → ∃ arm, Due trace (t.now + elapsed) candidate arm ∧ r = arm.report candidate) ∧
      ((∀ arm, Due trace (t.now + elapsed) candidate arm → report = some (arm.report candidate)) ↔
        ∀ arm arm', Due trace (t.now + elapsed) candidate arm →
        Due trace (t.now + elapsed) candidate arm' → arm = arm') := by
  intro trace t report
  have hs := (ProbeTracer.sound_run events).advance elapsed
  have hdue : ∀ arm, Due trace (t.now + elapsed) candidate arm ↔
      t.probes.get? arm.requestId = some arm ∧ t.now + elapsed < arm.expiresAt ∧
      arm.filters.accepts candidate = true := by
    intro arm
    exact and_congr_left fun h => (hs.armed _ arm h.1).symm
  rcases ({ t with now := t.now + elapsed } : ProbeTracer).finish_cases candidate order with
    ⟨hout, -, hnone⟩ | ⟨id, found, hget, hlive, hmatch, hout, -⟩
  · have hout : report = none := hout
    have hno : ∀ arm, ¬ Due trace (t.now + elapsed) candidate arm := by
      intro arm h
      obtain ⟨hget, hlive, hmatch⟩ := (hdue arm).1 h
      simp [hnone _ arm hget hlive] at hmatch
    exact ⟨by simp [hout], iff_of_true (fun arm h => absurd h (hno arm)) fun arm _ h => absurd h (hno arm)⟩
  · have hout : report = some (found.report candidate) := hout
    obtain rfl := hs.id id found hget
    have hfound := (hdue found).2 ⟨hget, hlive, hmatch⟩
    refine ⟨fun r hr => ⟨found, hfound, ?_⟩, fun h arm arm' harm harm' => ?_, fun h arm harm => ?_⟩
    · exact Option.some.inj (hr.symm.trans hout)
    · -- both would be the one report there is, which names its probe
      have hid := congrArg ProbeTraceReport.requestId (Option.some.inj ((h arm harm).symm.trans (h arm' harm')))
      have harmed := harm.1
      rw [show arm.requestId = arm'.requestId from hid, harm'.1] at harmed
      exact (Option.some.inj harmed).symm
    · rw [hout, h arm found harm hfound]

/-- Two probes for any connection: the first one that finishes is reported for
one of them, and the other is left. -/
theorem second_probe_not_reported :
    let probe (id : String) : ProbeArm := ⟨id.toList, "replies", {}, 60⟩
    let events : List ProbeEvent := [.arm (probe "a"), .arm (probe "b")]
    let candidate : TraceCandidate := ⟨"in", "http", none, none, none, .ok, none⟩
    Due (runTrace ProbeTracer.step {} events) 1 candidate (probe "b") ∧
      ((runState ProbeTracer.step ({} : ProbeTracer) events).step
        (.finish 1 candidate ⟨id, fun _ => .refl _⟩)).2 ≠ some ((probe "b").report candidate) := by
  refine ⟨⟨by decide, by decide, by decide⟩, by decide⟩

end Rove.Trace
