/-
The incremental observer of live traffic (`ObserveState` of `sniff.rs`). It
commits to a protocol by the first bytes it sees and goes on from there, read
by read; `observer_eq_classifier_iff` compares it with `classify_prefix`.
-/
import Rove.Sniff.Classify

namespace Rove.Sniff

open List

inductive SniffOutcome where
  | matched
  | unsupported
  | timeout
  | malformed
  | limitExceeded
  | incomplete
  deriving DecidableEq

structure SniffObservation where
  outcome : SniffOutcome
  protocol : Option SniffProtocol
  host : Option Str
  deriving DecidableEq

namespace SniffObservation

def terminal (outcome : SniffOutcome) : SniffObservation := ⟨outcome, none, none⟩

def matched (value : SniffedHost) : SniffObservation := ⟨.matched, some value.protocol, some value.host⟩

end SniffObservation

/-- `ObserveParser`; an acceptor is known by the bytes it was given. -/
inductive ObserveParser where
  | undecided
  | tls (given : Bytes)
  | http (scanFrom : Nat)
  | done

/-- `ObserveState`, without the clock. -/
structure ObserveState where
  parser : ObserveParser := .undecided
  prefixBytes : Bytes := []
  observedBytes : Nat := 0
  maxBytes : Nat
  observation : Option SniffObservation := none

variable (p : Parsers)

def tlsObservation : TlsVerdict → SniffObservation
  | .malformed => .terminal .malformed
  | .hello none => .terminal .unsupported
  | .hello (some name) =>
    match normalizeDnsName name with
    | some host => .matched ⟨.tls, host⟩
    | none => .terminal .malformed

/-- `observe_tls_incremental`: the observation and the acceptor after it. -/
def observeTlsIncremental (given bytes : Bytes) : Option SniffObservation × Bytes :=
  ((p.acceptor.run given bytes).1.map tlsObservation, (p.acceptor.run given bytes).2)

def httpObservation (head : Bytes) : SniffObservation :=
  match classifyHttp p head with
  | .matched value => .matched value
  | .unsupported => .terminal .unsupported
  | .malformed | .needMore | .limitExceeded => .terminal .malformed

/-- `observe_http_incremental`: the observation, the bytes kept and where the
next search starts. -/
def observeHttpIncremental (prefixBytes : Bytes) (scanFrom : Nat) (bytes : Bytes) :
    Option SniffObservation × Bytes × Nat :=
  let prefixBytes := prefixBytes ++ bytes
  let start := scanFrom - 3
  match findSub Util.headEnd (prefixBytes.drop start) with
  | none => (none, prefixBytes, prefixBytes.length)
  | some relative => (some (httpObservation p (prefixBytes.take (start + relative + 4))), prefixBytes, scanFrom)

namespace ObserveState

def new (maxBytes : Nat) : ObserveState := { maxBytes := min maxBytes hardMaxSniffBytes }

def finish (s : ObserveState) (observation : SniffObservation) : ObserveState :=
  { s with observation := some observation, parser := .done, prefixBytes := [] }

/-- The parser for what was captured, chosen by the first bytes; none when they
are of no protocol that is known. -/
def choose (parser : ObserveParser) (captured : Bytes) : Option ObserveParser :=
  match parser, captured with
  | .undecided, b :: rest =>
    if b = 0x16 then some (.tls []) else if couldBeHttp (b :: rest) then some (.http 0) else none
  | parser, _ => some parser

def parseCaptured (s : ObserveState) (captured : Bytes) : Option SniffObservation × ObserveState :=
  match choose s.parser captured with
  | none => (some (.terminal .unsupported), s)
  | some (.tls given) =>
    let (observation, given) := observeTlsIncremental p given captured
    (observation, { s with parser := .tls given })
  | some (.http scanFrom) =>
    let (observation, prefixBytes, scanFrom) := observeHttpIncremental p s.prefixBytes scanFrom captured
    (observation, { s with parser := .http scanFrom, prefixBytes })
  | some parser => (none, { s with parser })

/-- `observe`; `late` is whether the timeout has passed. -/
def observe (late : Bool) (s : ObserveState) (bytes : Bytes) : ObserveState :=
  if s.observation.isSome then s
  else if late then s.finish (.terminal .timeout)
  else
    let take := min bytes.length (s.maxBytes - s.observedBytes)
    let (observation, s) := parseCaptured p { s with observedBytes := s.observedBytes + take } (bytes.take take)
    match observation with
    | some observation => s.finish observation
    | none => if take < bytes.length ∨ s.observedBytes ≥ s.maxBytes then s.finish (.terminal .limitExceeded) else s

def finishTimeout (s : ObserveState) : ObserveState := if s.observation.isNone then s.finish (.terminal .timeout) else s

def finishStream (late : Bool) (s : ObserveState) : ObserveState :=
  if s.observation.isSome then s else s.finish (.terminal (if late then .timeout else .incomplete))

def snapshot (late : Bool) (s : ObserveState) : SniffObservation :=
  s.observation.getD (.terminal (if late then .timeout else .incomplete))

end ObserveState

/-! ## TLS by the bytes given -/

def TlsAnswer.verdict : TlsAnswer → Option TlsVerdict
  | .more => none
  | .failed => some .malformed
  | .hello serverName => some (.hello serverName)

namespace Acceptor

variable (acceptor : Acceptor)

/-- What an acceptor makes of some bytes: its answer to as many as it holds, and
an error when they do not settle it. -/
def verdict (bytes : Bytes) : Option TlsVerdict :=
  (acceptor.accept (bytes.take acceptor.capacity)).verdict.or
    (if acceptor.capacity ≤ bytes.length then some .malformed else none)

variable {acceptor}

theorem verdict_append_of_accept {given} (hlen : given.length ≤ acceptor.capacity)
    (h : acceptor.accept given ≠ .more) (later : Bytes) :
    acceptor.verdict (given ++ later) = (acceptor.accept given).verdict := by
  rw [verdict, take_append, take_of_length_le hlen, acceptor.accept_append h]
  cases hanswer : acceptor.accept given with
  | more => exact absurd hanswer h
  | failed => rfl
  | hello serverName => rfl

theorem verdict_append {bytes v} (h : acceptor.verdict bytes = some v) (later : Bytes) :
    acceptor.verdict (bytes ++ later) = some v := by
  by_cases hfull : acceptor.capacity ≤ bytes.length
  · rw [verdict, take_append_of_le_length hfull, length_append, if_pos (by omega)]
    rwa [verdict, if_pos hfull] at h
  · rw [verdict, take_of_length_le (by omega), if_neg hfull, Option.or_none] at h
    rw [verdict_append_of_accept (by omega) _ later, h]
    intro hmore
    rw [hmore] at h
    cases h

theorem run_spec {given} (h : given.length < acceptor.capacity) (offered : Bytes) :
    (acceptor.run given offered).1 = acceptor.verdict (given ++ offered) ∧
      ((acceptor.run given offered).1 = none → (acceptor.run given offered).2 = given ++ offered) := by
  induction hn : offered.length using Nat.strong_induction_on generalizing given offered with
  | _ n ih =>
    obtain ⟨hle, hcap⟩ := acceptor.take_le given offered
    have hlen : (given ++ offered.take (acceptor.take given offered)).length =
      given.length + acceptor.take given offered := by
      rw [length_append, length_take]
      omega
    have hsplit : given ++ offered =
        (given ++ offered.take (acceptor.take given offered)) ++ offered.drop (acceptor.take given offered) := by
      rw [append_assoc, take_append_drop]
    rw [run, if_neg (by omega)]
    dsimp only
    cases haccept : acceptor.accept (given ++ offered.take (acceptor.take given offered)) with
    | hello serverName =>
      refine ⟨?_, fun hnone => (by cases hnone)⟩
      rw [hsplit, verdict_append_of_accept (by omega) (by rw [haccept]; simp), haccept]
      rfl
    | failed =>
      refine ⟨?_, fun hnone => (by cases hnone)⟩
      rw [hsplit, verdict_append_of_accept (by omega) (by rw [haccept]; simp), haccept]
      rfl
    | more =>
      dsimp only
      by_cases hzero : acceptor.take given offered = 0
      · -- nothing is taken of nothing
        have hnil : offered = [] := by
          by_contra hne
          exact absurd (acceptor.take_pos h hne) (by omega)
        rw [dif_pos hzero, hnil, append_nil]
        rw [hnil, take_nil, append_nil] at haccept
        rw [verdict, take_of_length_le (by omega), haccept, if_neg (by omega)]
        exact ⟨rfl, fun _ => rfl⟩
      · rw [dif_neg hzero]
        by_cases hfull : given.length + acceptor.take given offered < acceptor.capacity
        · have hdrop : (offered.drop (acceptor.take given offered)).length < n := by
            rw [length_drop]
            omega
          rw [hsplit]
          exact ih _ hdrop (by omega) _ rfl
        · -- it is full and has no answer
          have htake : (given ++ offered).take acceptor.capacity =
            given ++ offered.take (acceptor.take given offered) := by
            rw [hsplit, take_append_of_le_length (show acceptor.capacity ≤ _ by omega)]
            exact take_of_length_le (by omega)
          rw [run, if_pos (show acceptor.capacity ≤ _ by omega), verdict, htake, haccept, length_append,
            if_pos (show acceptor.capacity ≤ _ by omega)]
          exact ⟨rfl, fun hnone => (by cases hnone)⟩

end Acceptor

/-! ## HTTP by the bytes kept -/

/-- The observation of bytes that may be a head: none before a blank line. -/
def httpVerdict (bytes : Bytes) : Option SniffObservation :=
  (findSub Util.headEnd bytes).map fun i => httpObservation p (bytes.take (i + 4))

theorem httpVerdict_append {bytes o} (h : httpVerdict p bytes = some o) (later : Bytes) :
    httpVerdict p (bytes ++ later) = some o := by
  obtain ⟨i, hfind, rfl⟩ := Option.map_eq_some_iff.1 h
  obtain ⟨-, hat, -⟩ := findSub_eq_some_iff.1 hfind
  have hlen := hat.length_le
  rw [length_drop, show Util.headEnd.length = 4 from rfl] at hlen
  rw [httpVerdict, findSub_append hfind, Option.map_some, take_append_of_le_length (by omega)]

/-- Going on three bytes before the end of what was searched finds the same. -/
theorem observeHttpIncremental_spec {kept} (h : findSub Util.headEnd kept = none) (bytes : Bytes) :
    (observeHttpIncremental p kept kept.length bytes).1 = httpVerdict p (kept ++ bytes) ∧
      ((observeHttpIncremental p kept kept.length bytes).1 = none →
        (observeHttpIncremental p kept kept.length bytes).2 = (kept ++ bytes, (kept ++ bytes).length)) := by
  have hresume := findSub_resume h bytes
  rw [show Util.headEnd.length - 1 = 3 from rfl] at hresume
  rw [observeHttpIncremental, httpVerdict, hresume]
  cases findSub Util.headEnd ((kept ++ bytes).drop (kept.length - 3)) with
  | none => exact ⟨rfl, fun _ => rfl⟩
  | some relative =>
    refine ⟨?_, fun hnone => (by cases hnone)⟩
    rw [Option.map_some, Option.map_some, Nat.add_comm relative]

end Rove.Sniff
