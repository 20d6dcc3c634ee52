/-
`capture_prefix` of `sniff.rs`: read until the observer has seen enough, keep
every byte, and replay them. `capture_replays_stream` says that whoever reads on
finds the stream as it was.

What the clock does is part of a run: before each read the deadline may have
fired, and when the bytes are observed the timeout may have passed.
-/
import Rove.Io.Prefixed
import Rove.Sniff.Agreement

namespace Rove.Sniff

open Source (read rest reads)
open Io (PrefixedIo)

/-- One turn of the loop: the deadline fires first, the read fails, the timeout
has passed when its bytes are observed. -/
structure Turn where
  deadline : Bool := false
  failed : Bool := false
  late : Bool := false

structure CapturedPrefix where
  bytes : Bytes
  observation : SniffObservation

variable {σ : Type} [Source σ] (p : Parsers)

def chunkLen (limit : Nat) : Nat := max 1 (min limit 2048)

/-- The loop of `capture_prefix`, from its `k`-th turn on; an error is a read that failed. -/
def captureLoop (limit : Nat) (turns : Nat → Turn) (k : Nat) (state : ObserveState) (bytes : Bytes) (s : σ) :
    Res (ObserveState × Bytes) × σ :=
  if state.observation.isSome then (.ok (state, bytes), s)
  else if _h₀ : limit - bytes.length = 0 then (.ok (state.observe p (turns k).late [], bytes), s)
  else if (turns k).deadline then (.ok (state.finishTimeout, bytes), s)
  else if (turns k).failed then (.error "read failed", s)
  else
    let n := min (limit - bytes.length) (chunkLen limit)
    if _h : (read n s).1 = [] then (.ok (state.finishStream (turns k).late, bytes), (read n s).2)
    else captureLoop limit turns (k + 1) (state.observe p (turns k).late (read n s).1)
    (bytes ++ (read n s).1) (read n s).2
termination_by limit - bytes.length
decreasing_by
  rw [List.length_append]
  exact Nat.sub_lt_sub_left (by omega) (Nat.lt_add_of_pos_right (List.length_pos_of_ne_nil _h))

/-- `capture_prefix`; `late` is for the observation that is reported at the end. -/
def capturePrefix (maxBytes : Nat) (turns : Nat → Turn) (late : Bool) (s : σ) : Res CapturedPrefix × σ :=
  let limit := min maxBytes hardMaxSniffBytes
  let (result, s) := captureLoop p limit turns 0 (.new maxBytes) [] s
  (result.map fun (state, bytes) => ⟨bytes, state.snapshot late⟩, s)

/-! ## What is captured and what is left -/

variable {p}

theorem stop_spec {limit state state' bytes bytes' s s'} (hlen : bytes.length ≤ limit)
    (h : ((.ok (state, bytes), s) : Res (ObserveState × Bytes) × σ) = (.ok (state', bytes'), s')) :
    bytes' ++ rest s' = bytes ++ rest s ∧ bytes'.length ≤ limit := by
  obtain ⟨hok, rfl⟩ := Prod.mk.inj h
  cases hok
  exact ⟨rfl, hlen⟩

theorem captureLoop_spec {limit : Nat} {turns : Nat → Turn} {k : Nat} {state : ObserveState} {bytes : Bytes} {s : σ}
    (hlen : bytes.length ≤ limit) :
    (∀ state' bytes' s', captureLoop p limit turns k state bytes s = (.ok (state', bytes'), s') →
        bytes' ++ rest s' = bytes ++ rest s ∧ bytes'.length ≤ limit) ∧
      ((∀ j, (turns j).failed = false) → (captureLoop p limit turns k state bytes s).1.isOk = true) := by
  induction hn : limit - bytes.length using Nat.strong_induction_on generalizing k state bytes s with
  | _ n ih =>
    rw [captureLoop]
    split
    · exact ⟨fun _ _ _ h => stop_spec hlen h, fun _ => rfl⟩
    · split
      · exact ⟨fun _ _ _ h => stop_spec hlen h, fun _ => rfl⟩
      · next hroom =>
        split
        · exact ⟨fun _ _ _ h => stop_spec hlen h, fun _ => rfl⟩
        · split
          · next hfailed =>
            refine ⟨fun _ _ _ h => (by cases h), fun hreads => ?_⟩
            rw [hreads k] at hfailed
            cases hfailed
          · dsimp only
            have hsplit := Source.read_append_rest (min (limit - bytes.length) (chunkLen limit)) s
            have hle := Source.length_read_le (min (limit - bytes.length) (chunkLen limit)) s
            split
            · next hnil =>
              rw [hnil, List.nil_append] at hsplit
              refine ⟨fun _ _ _ h => ?_, fun _ => rfl⟩
              rw [← hsplit]
              exact stop_spec hlen h
            · next hne =>
              have hpos := List.length_pos_of_ne_nil hne
              rw [← hsplit, ← List.append_assoc]
              exact ih _ (by rw [List.length_append]; omega) (by rw [List.length_append]; omega) rfl

theorem capturePrefix_spec {maxBytes : Nat} {turns : Nat → Turn} {late : Bool} {s s' : σ} {captured : CapturedPrefix}
    (h : capturePrefix p maxBytes turns late s = (.ok captured, s')) :
    captured.bytes ++ rest s' = rest s ∧ captured.bytes.length ≤ min maxBytes hardMaxSniffBytes := by
  obtain ⟨hresult, rfl⟩ := Prod.mk.inj h
  obtain ⟨⟨state, bytes⟩, hloop, rfl⟩ := Res.map_eq_ok.1 hresult
  exact (captureLoop_spec (Nat.zero_le _)).1 state bytes _ (Prod.ext hloop rfl)

/-- Whatever stream is sniffed, in whatever pieces it comes and however sniffing
ends, the bytes captured and those not read yet are the stream, the limits are
kept, and reading the replayed stream yields it; also when the stream was a
replayed one before. Without a read that fails there is always a result. -/
theorem capture_replays_stream (p : Parsers) (maxBytes : Nat) (turns : Nat → Turn) (late : Bool) :
    (∀ (σ : Type) [Source σ] (s s' : σ) captured, capturePrefix p maxBytes turns late s = (.ok captured, s') →
        captured.bytes ++ rest s' = rest s ∧ captured.bytes.length ≤ maxBytes ∧ captured.bytes.length ≤ 64 * 1024 ∧
          Source.Yields (PrefixedIo.new captured.bytes s') (rest s)) ∧
      (∀ (σ : Type) [Source σ] (s : σ) remainder s' captured,
        capturePrefix p maxBytes turns late (PrefixedIo.new remainder s) = (.ok captured, s') →
          Source.Yields (PrefixedIo.new captured.bytes s') (remainder ++ rest s)) ∧
      ∀ (σ : Type) [Source σ] (s : σ), (∀ k, (turns k).failed = false) →
        (capturePrefix p maxBytes turns late s).1.isOk = true := by
  have hyields : ∀ (σ : Type) [Source σ] (s s' : σ) captured,
    capturePrefix p maxBytes turns late s = (.ok captured, s') →
      Source.Yields (PrefixedIo.new captured.bytes s') (rest s) := by
    intro σ _ s s' captured h
    rw [← (capturePrefix_spec h).1]
    exact Source.yields_rest (PrefixedIo.new captured.bytes s')
  refine ⟨fun σ _ s s' captured h => ?_, fun σ _ s remainder s' captured h => hyields _ _ _ _ h, fun σ _ s hreads => ?_⟩
  · obtain ⟨hbytes, hlen⟩ := capturePrefix_spec h
    have hhard : hardMaxSniffBytes = 64 * 1024 := rfl
    exact ⟨hbytes, by omega, by omega, hyields σ s s' captured h⟩
  · have hok := (@captureLoop_spec σ _ p (min maxBytes hardMaxSniffBytes) turns 0 (.new maxBytes)
        [] s (Nat.zero_le _)).2 hreads
    obtain ⟨found, hfound⟩ := Res.exists_of_isOk hok
    rw [capturePrefix]
    dsimp only
    rw [hfound]
    rfl

/-- A request whose head is longer than the limit. -/
theorem capture_replays_stream_example :
    let stream : List Bytes := [exampleHead ['\r', '\n'] ++ Util.headEnd, [1, 2]]
    ∃ captured s', capturePrefix exampleParsers 30 (fun _ => {}) false stream = (.ok captured, s') ∧
      captured.bytes.length ≤ 30 ∧ Source.Yields (PrefixedIo.new captured.bytes s') stream.flatten := by
  obtain ⟨hspec, -, hok⟩ := capture_replays_stream exampleParsers 30 (fun _ => {}) false
  let stream : List Bytes := [exampleHead ['\r', '\n'] ++ Util.headEnd, [1, 2]]
  obtain ⟨captured, hcaptured⟩ := Res.exists_of_isOk (hok (List Bytes) stream fun _ => rfl)
  obtain ⟨-, hlen, -, hyields⟩ := hspec (List Bytes) stream _ captured (Prod.ext hcaptured rfl)
  exact ⟨captured, _, Prod.ext hcaptured rfl, hlen, hyields⟩

end Rove.Sniff
