/-
The name that sniffing reports of a TLS stream is the server name of the
ClientHello that was captured: whatever bytes come, in whatever pieces, a match
for TLS is the acceptor's answer to all the bytes read so far.
-/
import Rove.Sniff.Capture

namespace Rove.Sniff

open Source (read rest)

/-- The bytes are a ClientHello whose server name is the host once it is normalised. -/
def IsHelloFor (p : Parsers) (bytes : Bytes) (host : Str) : Prop :=
  bytes.head? = some 0x16 ∧ ∃ name, p.acceptor.accept (bytes.take p.acceptor.capacity) = .hello (some name) ∧
    normalizeDnsName name = some host

/-- The parser while nothing was observed of some bytes. -/
inductive ParserOf (p : Parsers) (bytes : Bytes) : ObserveParser → Prop where
  | undecided (h : bytes = []) : ParserOf p bytes .undecided
  | tls (hfirst : bytes.head? = some 0x16) (hnone : p.acceptor.verdict bytes = none) : ParserOf p bytes (.tls bytes)
  | http (scanFrom : Nat) : ParserOf p bytes (.http scanFrom)

/-- The observer was given these bytes: what it matched as TLS is the name in
them, and as long as it has observed nothing an acceptor has all of them. -/
structure Watching (p : Parsers) (limit : Nat) (bytes : Bytes) (s : ObserveState) : Prop where
  maxBytes : s.maxBytes = limit
  matched : ∀ host, s.observation = some (.matched ⟨.tls, host⟩) → IsHelloFor p bytes host
  waiting : s.observation = none → s.observedBytes = bytes.length ∧ ParserOf p bytes s.parser

variable {p : Parsers}

theorem Watching.new (maxBytes : Nat) : Watching p (min maxBytes hardMaxSniffBytes) [] (.new maxBytes) :=
  ⟨rfl, fun _ h => (by cases h), fun _ => ⟨rfl, .undecided rfl⟩⟩

theorem tlsObservation_matched {verdict host} (h : tlsObservation verdict = .matched ⟨.tls, host⟩) :
    ∃ name, verdict = .hello (some name) ∧ normalizeDnsName name = some host := by
  cases verdict with
  | malformed => exact absurd h (terminal_ne_matched _ _)
  | hello serverName =>
    cases serverName with
    | none => exact absurd h (terminal_ne_matched _ _)
    | some name =>
      rw [tlsObservation] at h
      cases hname : normalizeDnsName name with
      | none =>
        rw [hname] at h
        exact absurd h (terminal_ne_matched _ _)
      | some found =>
        rw [hname] at h
        cases matched_inj.1 h
        exact ⟨name, rfl, hname⟩

variable {bytes : Bytes} {s : ObserveState} {limit : Nat}

theorem accept_of_verdict {serverName} (h : p.acceptor.verdict bytes = some (.hello serverName)) :
    p.acceptor.accept (bytes.take p.acceptor.capacity) = .hello serverName := by
  rw [Acceptor.verdict] at h
  cases hanswer : p.acceptor.accept (bytes.take p.acceptor.capacity) with
  | more =>
    rw [hanswer, TlsAnswer.verdict, Option.none_or] at h
    cases (Option.ite_none_right_eq_some.1 h).2
  | failed =>
    rw [hanswer] at h
    cases h
  | hello found =>
    rw [hanswer] at h
    cases h
    rfl

theorem lt_capacity_of_verdict (h : p.acceptor.verdict bytes = none) : bytes.length < p.acceptor.capacity := by
  rw [Acceptor.verdict, Option.or_eq_none_iff] at h
  by_contra hfull
  rw [if_pos (Nat.le_of_not_lt hfull)] at h
  cases h.2

theorem httpObservation_ne_tls (head : Bytes) (host : Str) : httpObservation p head ≠ .matched ⟨.tls, host⟩ := by
  intro h
  have hmatched := httpObservation_matched_iff.1 h
  rw [classifyHttp] at hmatched
  cases hparse : p.http.parse head with
  | incomplete => simp [hparse] at hmatched
  | error => simp [hparse] at hmatched
  | complete request =>
    rw [hparse] at hmatched
    cases hhost : httpRequestHost p.parseUrl request with
    | none => simp [hhost] at hmatched
    | some found => cases found <;> simp [hhost] at hmatched

/-! ## One read -/

theorem observeTls_spec {bytes} (hroom : bytes.length < p.acceptor.capacity) {captured}
    (hfirst : (bytes ++ captured).head? = some 0x16) :
    (∀ host, (observeTlsIncremental p bytes captured).1 = some (.matched ⟨.tls, host⟩) →
      IsHelloFor p (bytes ++ captured) host) ∧
    ((observeTlsIncremental p bytes captured).1 = none →
        ParserOf p (bytes ++ captured) (.tls (observeTlsIncremental p bytes captured).2)) := by
  obtain ⟨hverdict, hgiven⟩ := Acceptor.run_spec hroom captured
  refine ⟨fun host hmatched => ?_, fun hnone => ?_⟩
  · obtain ⟨verdict, hrun, hobservation⟩ := Option.map_eq_some_iff.1 hmatched
    obtain ⟨name, rfl, hname⟩ := tlsObservation_matched hobservation
    exact ⟨hfirst, name, accept_of_verdict (hverdict ▸ hrun), hname⟩
  · have hrun : (p.acceptor.run bytes captured).1 = none := Option.map_eq_none_iff.1 hnone
    rw [observeTlsIncremental, hgiven hrun]
    exact .tls hfirst (hverdict ▸ hrun)

theorem observeHttp_ne_tls (prefixBytes : Bytes) (scanFrom : Nat) (captured : Bytes) (host : Str) :
    (observeHttpIncremental p prefixBytes scanFrom captured).1 ≠ some (.matched ⟨.tls, host⟩) := by
  rw [observeHttpIncremental]
  split
  · exact fun h => (by cases h)
  · exact fun h => httpObservation_ne_tls _ _ (Option.some.inj h)

theorem parseCaptured_frame (s : ObserveState) (captured : Bytes) :
    ∃ parser prefixBytes, (s.parseCaptured p captured).2 = { s with parser, prefixBytes } := by
  rw [ObserveState.parseCaptured]
  split
  · exact ⟨_, _, rfl⟩
  · exact ⟨_, _, rfl⟩
  · exact ⟨_, _, rfl⟩
  · exact ⟨_, _, rfl⟩

theorem parseCaptured_watching (h : ParserOf p bytes s.parser) (captured : Bytes) :
    (∀ host, (s.parseCaptured p captured).1 = some (.matched ⟨.tls, host⟩) → IsHelloFor p (bytes ++ captured) host) ∧
      ((s.parseCaptured p captured).1 = none →
        ParserOf p (bytes ++ captured) (s.parseCaptured p captured).2.parser) := by
  have hhttp : ∀ scanFrom, ObserveState.choose s.parser captured = some (.http scanFrom) →
      (∀ host, (s.parseCaptured p captured).1 = some (.matched ⟨.tls, host⟩) → IsHelloFor p (bytes ++ captured) host) ∧
        ((s.parseCaptured p captured).1 = none →
          ParserOf p (bytes ++ captured) (s.parseCaptured p captured).2.parser) := by
    intro scanFrom hchoose
    rw [ObserveState.parseCaptured, hchoose]
    exact ⟨fun host hmatched => absurd hmatched (observeHttp_ne_tls _ _ _ _), fun _ => .http _⟩
  obtain ⟨parser, prefixBytes, observedBytes, maxBytes, observation⟩ := s
  cases h with
  | tls hfirst hnone =>
    have hall : (bytes ++ captured).head? = some 0x16 := by
      rw [List.head?_append, hfirst]
      rfl
    exact observeTls_spec (lt_capacity_of_verdict hnone) hall
  | http scanFrom => exact hhttp scanFrom rfl
  | undecided hnil =>
    subst hnil
    cases captured with
    | nil => exact ⟨fun _ hmatched => (by cases hmatched), fun _ => .undecided rfl⟩
    | cons b rest =>
      -- the first byte decides
      by_cases htls : b = 0x16
      · subst htls
        exact @observeTls_spec p [] p.acceptor.capacity_pos (0x16 :: rest) rfl
      · by_cases hcould : couldBeHttp (b :: rest) = true
        · refine hhttp 0 ?_
          rw [ObserveState.choose, if_neg htls, if_pos hcould]
        · have hchoose : ObserveState.choose .undecided (b :: rest) = none := by
            rw [ObserveState.choose, if_neg htls, if_neg hcould]
          rw [ObserveState.parseCaptured, hchoose]
          exact ⟨fun host hmatched => absurd (Option.some.inj hmatched) (terminal_ne_matched _ _),
            fun hnone => (by cases hnone)⟩

theorem Watching.finish (h : s.maxBytes = limit) (o : SniffObservation)
    (hmatched : ∀ host, o = .matched ⟨.tls, host⟩ → IsHelloFor p bytes host) : Watching p limit bytes (s.finish o) :=
  ⟨h, fun host ho => hmatched host (Option.some.inj ho), fun hnone => (by cases hnone)⟩

theorem Watching.terminal (h : s.maxBytes = limit) (outcome : SniffOutcome) :
    Watching p limit bytes (s.finish (.terminal outcome)) :=
  Watching.finish h _ fun _ ho => absurd ho (terminal_ne_matched _ _)

theorem Watching.observe {captured} (h : Watching p limit bytes s)
    (hnone : s.observation = none) (hlen : bytes.length + captured.length ≤ limit) (late : Bool) :
    Watching p limit (bytes ++ captured) (s.observe p late captured) := by
  obtain ⟨hobserved, hparser⟩ := h.waiting hnone
  obtain rfl := h.maxBytes
  have hisSome : s.observation.isSome = false := by rw [hnone]; rfl
  rw [ObserveState.observe, hisSome, if_neg Bool.false_ne_true]
  cases late with
  | true => exact Watching.terminal rfl _
  | false =>
    have htake : min captured.length (s.maxBytes - s.observedBytes) = captured.length := by omega
    rw [if_neg Bool.false_ne_true, htake]
    dsimp only
    rw [List.take_length]
    obtain ⟨s', hs'⟩ : ∃ s' : ObserveState, s' = { s with observedBytes := s.observedBytes + captured.length } :=
        ⟨_, rfl⟩
    have hparser' : ParserOf p bytes s'.parser := by rwa [hs']
    obtain ⟨hmatched, hwaiting⟩ := parseCaptured_watching hparser' captured
    obtain ⟨parser, prefixBytes, hframe⟩ := @parseCaptured_frame p s' captured
    rw [← hs']
    cases hfound : (s'.parseCaptured p captured).1 with
    | some observation =>
      refine Watching.finish (by rw [hframe, hs']) _ fun host ho => hmatched host ?_
      rw [hfound, ho]
    | none =>
      dsimp only
      split
      · exact Watching.terminal (by rw [hframe, hs']) _
      · have hnext := hwaiting hfound
        rw [hframe, hs'] at hnext ⊢
        refine ⟨rfl, fun host ho => ?_, fun _ => ⟨?_, hnext⟩⟩
        · exact absurd (hnone.symm.trans ho) (by simp)
        · rw [List.length_append, ← hobserved]

/-! ## The whole capture -/

variable {σ : Type} [Source σ]

theorem captureLoop_watching {turns : Nat → Turn} {k : Nat} {state state' : ObserveState} {bytes' : Bytes}
    {s s' : σ} (hwatch : Watching p limit bytes state) (hlen : bytes.length ≤ limit)
    (h : captureLoop p limit turns k state bytes s = (.ok (state', bytes'), s')) : Watching p limit bytes' state' := by
  induction hn : limit - bytes.length using Nat.strong_induction_on generalizing k state bytes s with
  | _ n ih =>
    have hstop : ∀ {final : ObserveState} {t : σ}, Watching p limit bytes final →
        ((.ok (final, bytes), t) : Res (ObserveState × Bytes) × σ) = (.ok (state', bytes'), s') →
        Watching p limit bytes' state' := by
      intro final t hfinal heq
      obtain ⟨rfl, rfl⟩ := Prod.mk.inj (Except.ok.inj (Prod.mk.inj heq).1)
      exact hfinal
    rw [captureLoop] at h
    split at h
    · exact hstop hwatch h
    · next hopen =>
      have hnone : state.observation = none := Option.not_isSome_iff_eq_none.1 hopen
      split at h
      · have hobserve := hwatch.observe hnone (show bytes.length + ([] : Bytes).length ≤ limit from hlen) (turns k).late
        rw [List.append_nil] at hobserve
        exact hstop hobserve h
      · split at h
        · rw [ObserveState.finishTimeout, if_pos (by rw [hnone]; rfl)] at h
          exact hstop (Watching.terminal hwatch.maxBytes _) h
        · split at h
          · cases h
          · dsimp only at h
            have hread := Source.length_read_le (min (limit - bytes.length) (chunkLen limit)) s
            split at h
            · rw [ObserveState.finishStream, if_neg hopen] at h
              exact hstop (Watching.terminal hwatch.maxBytes _) h
            · next hne =>
              have hpos := List.length_pos_of_ne_nil hne
              refine ih _ ?_ (hwatch.observe hnone (by omega) _) ?_ h rfl
              · rw [List.length_append]
                omega
              · rw [List.length_append]
                omega

/-- A name that was captured as TLS is the one in the ClientHello captured. -/
theorem capturePrefix_tls {maxBytes : Nat} {turns : Nat → Turn} {late : Bool} {s s' : σ}
    {captured : CapturedPrefix} {host : Str} (h : capturePrefix p maxBytes turns late s = (.ok captured, s'))
    (hmatched : captured.observation = .matched ⟨.tls, host⟩) : IsHelloFor p captured.bytes host := by
  obtain ⟨hresult, rfl⟩ := Prod.mk.inj h
  obtain ⟨⟨state, bytes⟩, hloop, rfl⟩ := Res.map_eq_ok.1 hresult
  have hwatch := captureLoop_watching (Watching.new maxBytes) (Nat.zero_le _) (Prod.ext hloop rfl)
  refine hwatch.matched host ?_
  change state.snapshot late = _ at hmatched
  rw [ObserveState.snapshot] at hmatched
  cases hobservation : state.observation with
  | some o =>
    rw [hobservation] at hmatched
    exact congrArg some hmatched
  | none =>
    rw [hobservation] at hmatched
    exact absurd hmatched (terminal_ne_matched _ _)

end Rove.Sniff
