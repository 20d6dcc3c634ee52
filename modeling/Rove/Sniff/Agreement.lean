/-
The observer and the classifier see the same, or not. What the observer has found
after some reads is a function of the bytes so far (`expected`), unless its first
read already decides against HTTP; `observer_eq_classifier_iff` says on which
streams that is what `classify_prefix` finds, however they are cut.

Where it is not, the stream starts with line ends, so that the first blank line
stands before the head and the choice of the protocol depends on how much comes
with the first read, or the head has no blank line of its own and is complete by
bare line feeds.
-/
import Rove.Sniff.Observe

namespace Rove.Sniff

open List Option

variable {bytes rest : Bytes} {b : UInt8} {limit : Nat} {v : SniffedHost}

theorem skipCrlf_of_ne (h : b ≠ 13) (rest : Bytes) : skipCrlf (b :: rest) = b :: rest := by
  cases rest with
  | nil => rfl
  | cons c rest => rw [skipCrlf, if_neg fun hcr => h hcr.1]

theorem couldBeHttp_of_ne (h : b ≠ 13) (rest : Bytes) : couldBeHttp (b :: rest) = isHttpTokenByte b := by
  rw [couldBeHttp, skipCrlf_of_ne h]
  simp [h]

/-- What may be HTTP may be so however little of it is seen. -/
theorem couldBeHttp_take (h : couldBeHttp bytes = true) (n : Nat) : couldBeHttp (bytes.take n) = true := by
  induction bytes using List.twoStepInduction generalizing n with
  | nil => rwa [take_nil]
  | singleton a =>
    cases n with
    | zero => rfl
    | succ n => rwa [take_succ_cons, take_nil]
  | cons_cons a b rest ih _ =>
    match n with
    | 0 => rfl
    | 1 =>
      by_cases ha : a = 13
      · rw [ha]
        rfl
      · rw [couldBeHttp_of_ne ha] at h
        rwa [take_succ_cons, take_zero, couldBeHttp_of_ne ha]
    | n + 2 =>
      rw [take_succ_cons, take_succ_cons]
      rw [couldBeHttp, skipCrlf] at h ⊢
      by_cases hcrlf : a = 13 ∧ b = 10
      · rw [if_pos hcrlf] at h ⊢
        exact ih h n
      · rw [if_neg hcrlf] at h ⊢
        simpa using h

/-- The choice of the protocol is the one by the first byte alone. -/
def ByFirst (seen : Bytes) : Prop := ∀ b rest, seen = b :: rest → couldBeHttp seen = (isHttpTokenByte b || b == 13)

theorem byFirst_of_ne (h : bytes.head? ≠ some 13) : ByFirst bytes := by
  rintro b rest rfl
  have hb : b ≠ 13 := fun heq => h (congrArg some heq)
  rw [couldBeHttp_of_ne hb, beq_eq_false_iff_ne.2 hb, Bool.or_false]

theorem byFirst_of_couldBeHttp (h : couldBeHttp bytes = true) : ByFirst bytes := by
  rintro b rest rfl
  by_cases hb : b = 13
  · rw [h, hb]
    rfl
  · have hne : (b :: rest).head? ≠ some 13 := fun heq => hb (Option.some.inj heq)
    exact byFirst_of_ne hne b rest rfl

variable (p : Parsers)

/-! ## What is found in the bytes so far -/

/-- What the parsers make of some bytes. -/
def verdict (bytes : Bytes) : Option SniffObservation :=
  match bytes with
  | [] => none
  | b :: _ =>
    if b = 0x16 then (p.acceptor.verdict bytes).map tlsObservation
    else if isHttpTokenByte b || b == 13 then httpVerdict p bytes
    else some (.terminal .unsupported)

/-- What was observed after some bytes. -/
def expected (limit : Nat) (bytes : Bytes) : Option SniffObservation :=
  if bytes = [] then none
  else (verdict p (bytes.take limit)).or (if limit ≤ bytes.length then some (.terminal .limitExceeded) else none)

variable {p}

theorem verdict_append {o} (h : verdict p bytes = some o) (later : Bytes) :
    verdict p (bytes ++ later) = some o := by
  cases bytes with
  | nil => cases h
  | cons b rest =>
    rw [verdict] at h
    rw [cons_append, verdict]
    split at h
    · next hb =>
      obtain ⟨v, hv, rfl⟩ := map_eq_some_iff.1 h
      rw [if_pos hb, ← cons_append, Acceptor.verdict_append hv]
      rfl
    · next hb =>
      rw [if_neg hb]
      split at h
      · next hhttp =>
        rw [if_pos hhttp, ← cons_append]
        exact httpVerdict_append p h later
      · next hhttp => rwa [if_neg hhttp]

theorem expected_append {o} (h : expected p limit bytes = some o)
    (later : Bytes) : expected p limit (bytes ++ later) = some o := by
  rw [expected] at h ⊢
  split at h
  · cases h
  · next hne =>
    rw [if_neg (by simp [hne])]
    rcases or_eq_some_iff.1 h with hverdict | ⟨hnone, hlimit⟩
    · rw [take_append, verdict_append hverdict]
      rfl
    · obtain ⟨hle, hlimit⟩ := ite_none_right_eq_some.1 hlimit
      rw [take_append_of_le_length hle, hnone, none_or, length_append, if_pos (by omega), hlimit]

/-! ## Following a stream -/

/-- The parser while nothing was observed, and the bytes it keeps. -/
def keptFor (bytes : Bytes) : ObserveParser × Bytes :=
  match bytes with
  | [] => (.undecided, [])
  | b :: _ => if b = 0x16 then (.tls bytes, []) else (.http bytes.length, bytes)

/-- The protocol is the one of the first byte, whichever read brings it. -/
theorem choose_kept {captured} (hall : bytes ++ captured = b :: rest)
    (hfirst : bytes = [] → ByFirst captured) (hnone : verdict p bytes = none) :
    ObserveState.choose (keptFor bytes).1 captured =
      if b = 0x16 then some (.tls bytes)
      else if isHttpTokenByte b || b == 13 then some (.http bytes.length) else none := by
  cases bytes with
  | nil =>
    obtain rfl : captured = b :: rest := hall
    rw [← hfirst rfl b rest rfl]
    rfl
  | cons b' bytes =>
    obtain ⟨rfl, -⟩ := List.cons.inj hall
    rw [verdict] at hnone
    rw [keptFor]
    split at hnone
    · next hb =>
      rw [if_pos hb, if_pos hb]
      rfl
    · next hb =>
      rw [if_neg hb, if_neg hb]
      split at hnone
      · next hhttp =>
        rw [if_pos hhttp]
        rfl
      · cases hnone

theorem room_of_verdict {captured} (hall : bytes ++ captured = b :: rest) (htls : b = 0x16)
    (hnone : verdict p bytes = none) : bytes.length < p.acceptor.capacity := by
  cases bytes with
  | nil => exact p.acceptor.capacity_pos
  | cons b' bytes =>
    obtain ⟨rfl, -⟩ := List.cons.inj hall
    rw [verdict, if_pos htls, map_eq_none_iff, Acceptor.verdict, or_eq_none_iff] at hnone
    by_contra hfull
    rw [if_pos (Nat.le_of_not_lt hfull)] at hnone
    cases hnone.2

theorem open_of_verdict {captured} (hall : bytes ++ captured = b :: rest) (htls : b ≠ 0x16)
    (hhttp : (isHttpTokenByte b || b == 13) = true) (hnone : verdict p bytes = none) :
    findSub Util.headEnd bytes = none ∧ (keptFor bytes).2 = bytes := by
  cases bytes with
  | nil => exact ⟨rfl, rfl⟩
  | cons b' bytes =>
    obtain ⟨rfl, -⟩ := List.cons.inj hall
    rw [verdict, if_neg htls, if_pos hhttp, httpVerdict, map_eq_none_iff] at hnone
    rw [keptFor, if_neg htls]
    exact ⟨hnone, rfl⟩

/-- One step of the parser: it finds what is in the bytes together, or goes on
with all of them kept. -/
theorem parseCaptured_spec {s : ObserveState} {bytes captured : Bytes} (hfirst : bytes = [] → ByFirst captured)
    (hnone : verdict p bytes = none) (hkept : (s.parser, s.prefixBytes) = keptFor bytes) :
    (s.parseCaptured p captured).1 = verdict p (bytes ++ captured) ∧
      ∃ parser prefixBytes, (s.parseCaptured p captured).2 = { s with parser, prefixBytes } ∧
        (verdict p (bytes ++ captured) = none → (parser, prefixBytes) = keptFor (bytes ++ captured)) := by
  have hparser : s.parser = (keptFor bytes).1 := congrArg Prod.fst hkept
  have hbytes : s.prefixBytes = (keptFor bytes).2 := congrArg Prod.snd hkept
  cases hall : bytes ++ captured with
  | nil =>
    obtain ⟨rfl, rfl⟩ := append_eq_nil_iff.1 hall
    have hchoose : ObserveState.choose s.parser [] = some .undecided := by
      rw [hparser]
      rfl
    rw [ObserveState.parseCaptured, hchoose]
    exact ⟨rfl, .undecided, s.prefixBytes, rfl, fun _ => by rw [hbytes]; rfl⟩
  | cons b rest =>
    have hchoose := choose_kept hall hfirst hnone
    rw [← hparser] at hchoose
    rw [ObserveState.parseCaptured, hchoose]
    by_cases htls : b = 0x16
    · have hkeep : (keptFor bytes).2 = [] ∧ keptFor (b :: rest) = (.tls (b :: rest), []) := by
        refine ⟨?_, if_pos htls⟩
        cases bytes with
        | nil => rfl
        | cons b' bytes =>
          obtain ⟨rfl, -⟩ := List.cons.inj hall
          rw [keptFor, if_pos htls]
      obtain ⟨hverdict, hgiven⟩ := Acceptor.run_spec (room_of_verdict hall htls hnone) captured
      rw [hall] at hverdict hgiven
      have hall' : verdict p (b :: rest) = (p.acceptor.run bytes captured).1.map tlsObservation := by
        rw [verdict, if_pos htls, hverdict]
      rw [if_pos htls, hall']
      refine ⟨rfl, .tls _, s.prefixBytes, rfl, fun hwait => ?_⟩
      rw [hkeep.2, hbytes, hkeep.1, observeTlsIncremental, hgiven (map_eq_none_iff.1 hwait)]
    · rw [if_neg htls]
      by_cases hhttp : (isHttpTokenByte b || b == 13) = true
      · obtain ⟨hopen, hkeep⟩ := open_of_verdict hall htls hhttp hnone
        obtain ⟨hverdict, hnext⟩ := observeHttpIncremental_spec p hopen captured
        rw [hall] at hverdict hnext
        have hall' : verdict p (b :: rest) = (observeHttpIncremental p bytes bytes.length captured).1 := by
          rw [verdict, if_neg htls, if_pos hhttp, hverdict]
        rw [if_pos hhttp, hall']
        dsimp only
        rw [hbytes, hkeep]
        generalize observeHttpIncremental p bytes bytes.length captured = found at hnext
        obtain ⟨o, prefixBytes, scanFrom⟩ := found
        refine ⟨rfl, .http scanFrom, prefixBytes, rfl, fun hwait => ?_⟩
        obtain ⟨rfl, rfl⟩ := Prod.mk.inj (hnext hwait)
        exact (if_neg htls).symm
      · have hall' : verdict p (b :: rest) = some (.terminal .unsupported) := by rw [verdict, if_neg htls, if_neg hhttp]
        rw [if_neg hhttp, hall']
        exact ⟨rfl, s.parser, s.prefixBytes, rfl, fun hwait => (by cases hwait)⟩

/-- The observer has seen some bytes: it has observed what is in them, and
otherwise kept them. -/
structure Following (p : Parsers) (limit : Nat) (bytes : Bytes) (s : ObserveState) : Prop where
  maxBytes : s.maxBytes = limit
  observation : s.observation = expected p limit bytes
  waiting : expected p limit bytes = none → s.observedBytes = bytes.length ∧ (s.parser, s.prefixBytes) = keptFor bytes

theorem waiting_of_expected (h : expected p limit bytes = none) :
    bytes.length ≤ limit ∧ verdict p bytes = none := by
  rw [expected] at h
  split at h
  · next hnil =>
    rw [hnil]
    exact ⟨Nat.zero_le _, rfl⟩
  · obtain ⟨hverdict, hlimit⟩ := or_eq_none_iff.1 h
    have hlt : ¬ limit ≤ bytes.length := fun hle => by
      rw [if_pos hle] at hlimit
      cases hlimit
    rw [take_of_length_le (by omega)] at hverdict
    exact ⟨by omega, hverdict⟩

theorem Following.observe {read : Bytes} {s : ObserveState} (h : Following p limit bytes s)
    (hne : read ≠ []) (hfirst : bytes = [] → ByFirst (read.take limit)) :
    Following p limit (bytes ++ read) (s.observe p false read) := by
  obtain rfl := h.maxBytes
  cases hexpected : expected p s.maxBytes bytes with
  | some o =>
    have hsome : s.observation.isSome = true := by rw [h.observation, hexpected]; rfl
    have hafter := expected_append hexpected read
    rw [ObserveState.observe, if_pos hsome]
    refine ⟨h.maxBytes, ?_, fun hnone => ?_⟩
    · rw [h.observation, hexpected, hafter]
    · rw [hafter] at hnone
      cases hnone
  | none =>
    obtain ⟨hobserved, hkept⟩ := h.waiting hexpected
    obtain ⟨hle, hnone⟩ := waiting_of_expected hexpected
    have hobservation : s.observation.isSome = false := by rw [h.observation, hexpected]; rfl
    let take := min read.length (s.maxBytes - bytes.length)
    have htake : (bytes ++ read).take s.maxBytes = bytes ++ read.take take := by
      rw [take_append, take_of_length_le hle]
      exact congrArg (bytes ++ ·) (take_eq_take_iff.2 (by omega))
    have hafter : expected p s.maxBytes (bytes ++ read) =
        (verdict p (bytes ++ read.take take)).or
          (if take < read.length ∨ bytes.length + take ≥ s.maxBytes
          then some (.terminal .limitExceeded) else none) := by
      rw [expected, if_neg (by simp [hne]), htake, length_append]
      exact congrArg _ (if_congr (by omega) rfl rfl)
    have hfirst' : bytes = [] → ByFirst (read.take take) := by
      rintro rfl
      rw [nil_append, nil_append] at htake
      exact htake ▸ hfirst rfl
    obtain ⟨hfound, parser, prefixBytes, hstate, hnext⟩ := @parseCaptured_spec p
      { s with observedBytes := s.observedBytes + take } bytes (read.take take) hfirst' hnone hkept
    rw [ObserveState.observe, hobservation, hobserved]
    rw [hobserved] at hfound hstate
    simp only [Bool.false_eq_true, if_false]
    rw [hfound, hstate]
    cases hverdict : verdict p (bytes ++ read.take take) with
    | some o =>
      rw [hverdict] at hafter
      exact ⟨rfl, hafter.symm, fun hwait => by rw [hafter] at hwait; cases hwait⟩
    | none =>
      rw [hverdict, none_or] at hafter
      by_cases hlimit : take < read.length ∨ bytes.length + take ≥ s.maxBytes
      · rw [if_pos hlimit] at hafter
        rw [if_pos hlimit]
        exact ⟨rfl, hafter.symm, fun hwait => by rw [hafter] at hwait; cases hwait⟩
      · rw [if_neg hlimit] at hafter
        rw [if_neg hlimit]
        have hall : read.take take = read := take_of_length_le (by omega)
        refine ⟨rfl, ?_, fun _ => ⟨?_, ?_⟩⟩
        · rw [hafter]
          exact h.observation.trans hexpected
        · show bytes.length + take = (bytes ++ read).length
          rw [length_append]
          omega
        · rw [hall] at hnext hverdict
          exact hnext hverdict

theorem Following.observe_all {s : ObserveState} (h : Following p limit bytes s)
    {reads : List Bytes} (hne : ∀ r ∈ reads, r ≠ []) (hfirst : bytes = [] → ∀ r ∈ reads.head?, ByFirst (r.take limit)) :
    Following p limit (bytes ++ reads.flatten) (reads.foldl (ObserveState.observe p false) s) := by
  induction reads generalizing bytes s with
  | nil => simpa using h
  | cons r reads ih =>
    rw [forall_mem_cons] at hne
    rw [flatten_cons, ← append_assoc]
    refine ih (h.observe hne.1 fun hnil => hfirst hnil r rfl) hne.2 fun hnil => ?_
    exact absurd (append_eq_nil_iff.1 hnil).2 hne.1

/-! ## Matches -/

theorem matched_inj {w} : SniffObservation.matched v = .matched w ↔ v = w := by
  obtain ⟨protocol, host⟩ := v
  obtain ⟨protocol', host'⟩ := w
  simp [SniffObservation.matched]

theorem terminal_ne_matched (outcome : SniffOutcome) (v : SniffedHost) :
    SniffObservation.terminal outcome ≠ .matched v := by
  simp [SniffObservation.terminal, SniffObservation.matched]

theorem tlsVerdict_matched_iff :
    (p.acceptor.verdict bytes).map tlsObservation = some (.matched v) ↔ classifyTls p bytes = .matched v := by
  have hrun := (@Acceptor.run_spec p.acceptor [] p.acceptor.capacity_pos bytes).1
  rw [nil_append] at hrun
  rw [classifyTls, hrun]
  cases p.acceptor.verdict bytes with
  | none => simp
  | some found =>
    cases found with
    | malformed => simp [tlsObservation, terminal_ne_matched]
    | hello serverName =>
      cases serverName with
      | none => simp [tlsObservation, terminal_ne_matched]
      | some name =>
        cases hname : normalizeDnsName name with
        | none => simp [tlsObservation, hname, terminal_ne_matched]
        | some host => simp [tlsObservation, hname, matched_inj]

theorem httpObservation_matched_iff {head} :
    httpObservation p head = .matched v ↔ classifyHttp p head = .matched v := by
  rw [httpObservation]
  cases classifyHttp p head with
  | matched w => simp [matched_inj]
  | _ => simp [terminal_ne_matched]

/-- `httparse` completes a head, and it names a host; or none. -/
def NamesHost (p : Parsers) (head : Bytes) : Prop :=
  ∃ request host, p.http.parse head = .complete request ∧ httpRequestHost p.parseUrl request = some (some host)

def NamesNone (p : Parsers) (head : Bytes) : Prop :=
  ∃ request, p.http.parse head = .complete request ∧ httpRequestHost p.parseUrl request = some none

theorem namesHost_iff {head} : NamesHost p head ↔ ∃ v, classifyHttp p head = .matched v := by
  rw [NamesHost, classifyHttp]
  cases p.http.parse head with
  | incomplete | error => simp
  | complete request =>
    cases hhost : httpRequestHost p.parseUrl request with
    | none => simp [hhost]
    | some host => cases host <;> simp [hhost]

theorem namesNone_iff {head} : NamesNone p head ↔ httpObservation p head = .terminal .unsupported := by
  rw [NamesNone, httpObservation, classifyHttp]
  cases p.http.parse head with
  | incomplete | error => simp [SniffObservation.terminal]
  | complete request =>
    cases hhost : httpRequestHost p.parseUrl request with
    | none => simp [hhost, SniffObservation.terminal]
    | some host => cases host <;> simp [hhost, SniffObservation.terminal, SniffObservation.matched]

/-! ## Line ends in front -/

theorem parse_skipCrlf (http : HttpParser) (bytes : Bytes) : http.parse bytes = http.parse (skipCrlf bytes) := by
  induction bytes using List.twoStepInduction with
  | nil => rfl
  | singleton a => rfl
  | cons_cons a b rest ih _ =>
    rw [skipCrlf]
    split
    · next hcrlf =>
      obtain ⟨rfl, rfl⟩ := hcrlf
      exact (http.parse_crlf rest).trans ih
    · rfl

theorem length_skipCrlf_le (bytes : Bytes) : (skipCrlf bytes).length ≤ bytes.length := by
  induction bytes using List.twoStepInduction with
  | nil => exact Nat.le_refl _
  | singleton a => exact Nat.le_refl _
  | cons_cons a b rest ih _ =>
    rw [skipCrlf]
    split
    · exact Nat.le_trans ih (Nat.le_add_right _ 2)
    · exact Nat.le_refl _

/-- There is no line end in front, or one, or there are more. -/
theorem skipCrlf_cases (bytes : Bytes) : bytes = skipCrlf bytes ∨ bytes = 13 :: 10 :: skipCrlf bytes ∨
    (Util.headEnd <+: bytes ∧ (skipCrlf bytes).length + 4 ≤ bytes.length) := by
  match bytes with
  | [] | [_] => exact .inl rfl
  | a :: b :: rest =>
    rw [skipCrlf]
    by_cases hcrlf : a = 13 ∧ b = 10
    · obtain ⟨rfl, rfl⟩ := hcrlf
      match rest with
      | [] | [_] => exact .inr (.inl rfl)
      | c :: d :: rest =>
        rw [skipCrlf]
        by_cases hcrlf : c = 13 ∧ d = 10
        · obtain ⟨rfl, rfl⟩ := hcrlf
          exact .inr (.inr ⟨⟨rest, rfl⟩, Nat.add_le_add_right (length_skipCrlf_le rest) 4⟩)
        · rw [if_neg hcrlf]
          exact .inr (.inl rfl)
    · rw [if_neg hcrlf]
      exact .inl rfl

theorem httpObservation_congr {head head'} (h : p.http.parse head = p.http.parse head') :
    httpObservation p head = httpObservation p head' ∧ classifyHttp p head = classifyHttp p head' := by
  rw [httpObservation, httpObservation, classifyHttp, classifyHttp, h]
  exact ⟨rfl, rfl⟩

/-- A blank line in front is observed, as no head. -/
theorem httpVerdict_of_headEnd (h : Util.headEnd <+: bytes) : httpVerdict p bytes = some (.terminal .malformed) := by
  obtain ⟨later, rfl⟩ := h
  have hfind : findSub Util.headEnd (Util.headEnd ++ later) = some 0 :=
    findSub_eq_some_iff.2 ⟨by decide, ⟨later, rfl⟩, by simp⟩
  have hparse : p.http.parse Util.headEnd = p.http.parse [] :=
      (p.http.parse_crlf Util.crlf).trans (p.http.parse_crlf [])
  rw [httpVerdict, hfind, map_some, Nat.zero_add, show (Util.headEnd ++ later).take 4 = Util.headEnd from rfl,
    (httpObservation_congr hparse).1, httpObservation, classifyHttp]
  cases hnothing : p.http.parse [] with
  | complete request => exact absurd hnothing (p.http.parse_nothing (.inl rfl) request)
  | incomplete | error => rfl

theorem findSub_crlf {t : UInt8} (ht : t ≠ 13) (rest : Bytes) :
    findSub Util.headEnd (13 :: 10 :: t :: rest) = (findSub Util.headEnd (t :: rest)).map (· + 2) := by
  have hfirst : ¬ (Util.headEnd ≠ [] ∧ Util.headEnd <+: 13 :: 10 :: t :: rest) := by
    simp [Util.headEnd, cons_prefix_cons, Ne.symm ht]
  have hsecond : ¬ (Util.headEnd ≠ [] ∧ Util.headEnd <+: 10 :: t :: rest) := by
    simp [Util.headEnd, cons_prefix_cons]
  rw [findSub, if_neg hfirst, findSub, if_neg hsecond, Option.map_map]
  rfl

/-- A head that starts with a method, after one line end at most, is observed at its
blank line. -/
theorem httpVerdict_of_method {t : UInt8} (ht : isHttpTokenByte t = true)
    (h : bytes = t :: rest ∨ bytes = 13 :: 10 :: t :: rest) :
    httpVerdict p bytes = (findSub Util.headEnd (t :: rest)).map fun _ => httpObservation p (t :: rest) := by
  have hcr : t ≠ 13 := fun heq => absurd (heq ▸ ht) (by decide)
  have hsettled : ∀ i, findSub Util.headEnd (t :: rest) = some i →
      httpObservation p ((t :: rest).take (i + 4)) = httpObservation p (t :: rest) :=
    fun i hi => (httpObservation_congr (p.http.parse_head ht hi).2.symm).1
  rw [httpVerdict]
  rcases h with rfl | rfl
  · cases hfind : findSub Util.headEnd (t :: rest) with
    | none => rfl
    | some i => exact congrArg some (hsettled i hfind)
  · rw [findSub_crlf hcr]
    cases hfind : findSub Util.headEnd (t :: rest) with
    | none => rfl
    | some i => exact congrArg some ((httpObservation_congr (p.http.parse_crlf ((t :: rest).take (i + 4)))).1.trans
          (hsettled i hfind))

/-- When what is seen of a stream is observed as it is classified. Where a method
stands after the line ends in front, no head with a host does, or there is one line
end at most and a blank line ends the head. And where there is no method after a line
end, the first blank line ends a head without a host. -/
def Settled (p : Parsers) (seen : Bytes) : Prop :=
  match skipCrlf seen with
  | [] => True
  | t :: rest =>
    if isHttpTokenByte t then
      NamesHost p (t :: rest) → seen.length ≤ (t :: rest).length + 2 ∧ findSub Util.headEnd (t :: rest) ≠ none
    else
      seen.head? = some 13 → (t = 13 ∧ rest = []) ∨ ∃ i, findSub Util.headEnd seen = some i ∧
      NamesNone p (seen.take (i + 4))

/-- Line ends, and perhaps half of one, are no head for either. -/
theorem not_matched_of_lineEnds (h : skipCrlf bytes = [] ∨ skipCrlf bytes = [13]) :
    httpVerdict p bytes ≠ some (.matched v) ∧ classifyHttp p bytes ≠ .matched v := by
  constructor
  · rcases skipCrlf_cases bytes with hall | hall | ⟨hblank, -⟩
    · rw [hall]
      rcases h with h | h <;> rw [h] <;> exact nofun
    · rw [hall]
      rcases h with h | h <;> rw [h] <;> exact nofun
    · rw [httpVerdict_of_headEnd hblank]
      exact fun heq => terminal_ne_matched _ _ (Option.some.inj heq)
  · rw [(httpObservation_congr (parse_skipCrlf p.http bytes)).2]
    intro hmatched
    obtain ⟨request, _, hparse, -⟩ := namesHost_iff.2 ⟨v, hmatched⟩
    exact p.http.parse_nothing h request hparse

theorem http_settled_iff (hcould : couldBeHttp bytes = true) :
    (∀ v, httpVerdict p bytes = some (.matched v) ↔ classifyHttp p bytes = .matched v) ↔ Settled p bytes := by
  have hnothing : (skipCrlf bytes = [] ∨ skipCrlf bytes = [13]) →
      ∀ v, httpVerdict p bytes = some (.matched v) ↔ classifyHttp p bytes = .matched v :=
    fun h v => iff_of_false (not_matched_of_lineEnds h).1 (not_matched_of_lineEnds h).2
  have hcases := skipCrlf_cases bytes
  rw [couldBeHttp] at hcould
  rw [Settled]
  cases hskip : skipCrlf bytes with
  | nil => exact iff_of_true (hnothing (.inl hskip)) trivial
  | cons t rest =>
    rw [hskip] at hcould hcases
    dsimp only at hcould ⊢
    by_cases ht : isHttpTokenByte t = true
    · rw [if_pos ht, (httpObservation_congr (parse_skipCrlf p.http bytes)).2, hskip]
      -- nothing is observed, so nothing must be classified
      have hunseen : (∀ v, httpVerdict p bytes ≠ some (.matched v)) →
          ((∀ v, httpVerdict p bytes = some (.matched v) ↔ classifyHttp p (t :: rest) = .matched v) ↔
            ¬ NamesHost p (t :: rest)) := by
        intro hnone
        rw [namesHost_iff, not_exists]
        exact forall_congr' fun v => iff_false_left (hnone v)
      rcases or_assoc.2 hcases with hall | ⟨hblank, hlong⟩
      · have hshort : bytes.length ≤ (t :: rest).length + 2 := by
          rcases hall with hall | hall
          · exact hall ▸ Nat.le_add_right _ 2
          · exact hall ▸ Nat.le_refl _
        have hverdict := httpVerdict_of_method (p := p) ht hall
        cases hfind : findSub Util.headEnd (t :: rest) with
        | none =>
          rw [hfind] at hverdict
          rw [hunseen (by simp [hverdict])]
          exact ⟨fun h hnames => absurd hnames h, fun h hnames => absurd rfl (h hnames).2⟩
        | some i =>
          rw [hfind] at hverdict
          exact iff_of_true (fun v => by simp [hverdict, httpObservation_matched_iff]) fun _ => ⟨hshort, by simp⟩
      · rw [hunseen (by simp [httpVerdict_of_headEnd hblank, terminal_ne_matched])]
        exact ⟨fun h hnames => absurd hnames h, fun h hnames => absurd (h hnames).1 (by omega)⟩
    · obtain ⟨rfl, rfl⟩ : t = 13 ∧ rest = [] := by simpa [ht] using hcould
      exact iff_of_true (hnothing (.inr hskip)) fun _ => .inl ⟨rfl, rfl⟩

theorem settled_of_ne (hb : b ≠ 13) (ht : isHttpTokenByte b = false) (rest : Bytes) : Settled p (b :: rest) := by
  rw [Settled, skipCrlf_of_ne hb]
  dsimp only
  rw [ht, if_neg Bool.false_ne_true]
  exact fun h => absurd (Option.some.inj h) hb

/-- Where the first byte decides, the match in some bytes is the one that is classified. -/
theorem verdict_settled_iff {maxBytes} (hle : bytes.length ≤ min maxBytes hardMaxSniffBytes) (hfirst : ByFirst bytes) :
    (∀ v, verdict p bytes = some (.matched v) ↔ classifyPrefix p bytes maxBytes = .matched v) ↔ Settled p bytes := by
  have hlimit : ∀ (result : SniffResult) (v : SniffedHost) (full : Prop) [Decidable full],
      (if result = .needMore ∧ full then SniffResult.limitExceeded else result) = .matched v ↔ result = .matched v := by
    intro result v full _
    split
    · next h => simp [h.1]
    · rfl
  unfold classifyPrefix
  rw [if_neg (by omega)]
  simp only [hlimit]
  cases bytes with
  | nil => exact iff_of_true (fun v => by simp [verdict]) trivial
  | cons b rest =>
    simp only [verdict]
    by_cases htls : b = 0x16
    · subst htls
      exact iff_of_true (fun v => tlsVerdict_matched_iff) (settled_of_ne (by decide) (by decide) rest)
    · simp only [if_neg htls]
      rw [← hfirst b rest rfl]
      cases hcould : couldBeHttp (b :: rest) with
      | true => simpa using http_settled_iff hcould
      | false =>
        have hboth := (hfirst b rest rfl).symm.trans hcould
        rw [Bool.or_eq_false_iff, beq_eq_false_iff_ne] at hboth
        exact iff_of_true (fun v => by simp [terminal_ne_matched]) (settled_of_ne hboth.2 hboth.1 rest)

/-! ## Streams -/

/-- The bytes that the limit lets through. -/
def within (maxBytes : Nat) (bytes : Bytes) : Bytes := bytes.take (min maxBytes hardMaxSniffBytes)

/-- The observation at the end of some reads, none of them after the timeout. -/
def observeAll (p : Parsers) (maxBytes : Nat) (late : Bool) (reads : List Bytes) : SniffObservation :=
  (reads.foldl (ObserveState.observe p false) (.new maxBytes)).snapshot late

/-- What is observed where the first read leaves the choice to the first byte. -/
def ending (p : Parsers) (maxBytes : Nat) (late : Bool) (stream : Bytes) : SniffObservation :=
  (expected p (min maxBytes hardMaxSniffBytes) stream).getD (.terminal (if late then .timeout else .incomplete))

/-- Whatever is observed is a match just where it is classified, and does not depend
on how the stream was cut. -/
structure ObservedAsClassified (p : Parsers) (maxBytes : Nat) (late : Bool) (stream : Bytes) : Prop where
  matched : ∀ reads, (∀ r ∈ reads, r ≠ []) → reads.flatten = stream → ∀ v,
    observeAll p maxBytes late reads = .matched v ↔ classifyPrefix p (within maxBytes stream) maxBytes = .matched v
  cut : ∀ reads reads', (∀ r ∈ reads, r ≠ []) → (∀ r ∈ reads', r ≠ []) →
    reads.flatten = stream → reads'.flatten = stream →
    observeAll p maxBytes late reads = observeAll p maxBytes late reads'

section
variable {maxBytes : Nat} {late : Bool} {stream r : Bytes} {reads : List Bytes}

theorem observeAll_eq (hne : ∀ r ∈ reads, r ≠ []) (hfirst : ∀ r ∈ reads.head?, ByFirst (within maxBytes r))
    (late : Bool) :
    observeAll p maxBytes late reads = ending p maxBytes late reads.flatten := by
  have hstart : Following p (min maxBytes hardMaxSniffBytes) [] (.new maxBytes) := ⟨rfl, rfl, fun _ => ⟨rfl, rfl⟩⟩
  have hend := hstart.observe_all hne fun _ => hfirst
  rw [observeAll, ObserveState.snapshot, hend.observation, nil_append, ending]

/-- What is found stays. -/
theorem foldl_observe_of_some {s : ObserveState} (h : s.observation.isSome = true) (reads : List Bytes) :
    reads.foldl (ObserveState.observe p false) s = s := by
  induction reads with
  | nil => rfl
  | cons r reads ih => rw [foldl_cons, ObserveState.observe, if_pos h, ih]

/-- A first read that shows no method after its line ends decides against HTTP. -/
theorem observeAll_of_not_http (hseen : within maxBytes r = 13 :: rest) (hnot : couldBeHttp (13 :: rest) = false)
    (reads : List Bytes) (late : Bool) : observeAll p maxBytes late (r :: reads) = .terminal .unsupported := by
  have htake : r.take (min r.length (min maxBytes hardMaxSniffBytes)) = 13 :: rest := by
    rw [← hseen]
    exact take_eq_take_iff.2 (by omega)
  have hobserve : ((ObserveState.new maxBytes).observe p false r).observation = some (.terminal .unsupported) := by
    simp only [ObserveState.observe, ObserveState.new, Nat.sub_zero, htake, ObserveState.parseCaptured,
      ObserveState.choose, hnot, isSome_none, Bool.false_eq_true, if_false, show ¬ ((13 : UInt8) = 0x16) by decide]
    rfl
  rw [observeAll, foldl_cons, foldl_observe_of_some (by rw [hobserve]; rfl), ObserveState.snapshot, hobserve]
  rfl

theorem ending_eq_iff {o : SniffObservation} (hlimit : o ≠ .terminal .limitExceeded) (hlate : o ≠ .terminal .timeout)
    (hopen : o ≠ .terminal .incomplete) : ending p maxBytes late stream = o ↔
    verdict p (within maxBytes stream) = some o := by
  have hend : SniffObservation.terminal (if late then .timeout else .incomplete) ≠ o := by
    cases late
    · exact hopen.symm
    · exact hlate.symm
  rw [ending, expected, within]
  split
  · next hnil =>
    rw [hnil, take_nil]
    exact iff_of_false hend nofun
  · cases hverdict : verdict p (stream.take (min maxBytes hardMaxSniffBytes)) with
    | some o' => simp
    | none =>
      split
      · exact iff_of_false hlimit.symm nofun
      · exact iff_of_false hend nofun

/-- The shortest reads of a stream. -/
def bytewise (stream : Bytes) : List Bytes := stream.map fun b => [b]

theorem bytewise_spec (stream : Bytes) : (∀ r ∈ bytewise stream, r ≠ []) ∧ (bytewise stream).flatten = stream := by
  refine ⟨by simp [bytewise], ?_⟩
  induction stream with
  | nil => rfl
  | cons b stream ih => exact congrArg (b :: ·) ih

/-- What is seen of a first read is the start of what is seen of the stream. -/
theorem within_read (h : (r :: reads).flatten = stream) :
    within maxBytes r = (within maxBytes stream).take r.length := by
  rw [within, within, ← h, take_take, flatten_cons, take_append_of_le_length (by omega)]
  exact take_eq_take_iff.2 (by omega)

theorem observed_iff_of_byFirst (hfirst : ∀ n, ByFirst ((within maxBytes stream).take n)) :
    ObservedAsClassified p maxBytes late stream ↔ Settled p (within maxBytes stream) := by
  have hall : ∀ reads, (∀ r ∈ reads, r ≠ []) → reads.flatten = stream →
      observeAll p maxBytes late reads = ending p maxBytes late stream := by
    intro reads hne heq
    rw [← heq]
    refine observeAll_eq hne (fun r hr => ?_) late
    cases reads with
    | nil => cases hr
    | cons r' reads =>
      cases hr
      rw [within_read heq]
      exact hfirst _
  have hmatched : ∀ v, ending p maxBytes late stream = .matched v ↔
    verdict p (within maxBytes stream) = some (.matched v) :=
    fun v => ending_eq_iff (terminal_ne_matched _ v).symm (terminal_ne_matched _ v).symm (terminal_ne_matched _ v).symm
  have hwhole : ByFirst (within maxBytes stream) := by
    have := hfirst (within maxBytes stream).length
    rwa [take_length] at this
  have hlen : (within maxBytes stream).length ≤ min maxBytes hardMaxSniffBytes := length_take_le _ _
  obtain ⟨hshort, hflat⟩ := bytewise_spec stream
  rw [← verdict_settled_iff hlen hwhole]
  refine ⟨fun h v => ?_, fun h => ⟨fun reads hne heq v => ?_, fun reads reads' hne hne' heq heq' => ?_⟩⟩
  · rw [← hmatched, ← hall _ hshort hflat]
    exact h.matched _ hshort hflat v
  · rw [hall reads hne heq, hmatched, h v]
  · rw [hall reads hne heq, hall reads' hne' heq']

/-- Where no method follows line ends, the whole is settled by its first blank line. -/
theorem settled_iff_unsupported (hnot : couldBeHttp (13 :: rest) = false) :
    Settled p (13 :: rest) ↔ verdict p (13 :: rest) = some (.terminal .unsupported) := by
  have hverdict : verdict p (13 :: rest) = httpVerdict p (13 :: rest) := rfl
  rw [hverdict, httpVerdict, map_eq_some_iff, Settled]
  rw [couldBeHttp] at hnot
  cases hskip : skipCrlf (13 :: rest) with
  | nil => simp [hskip] at hnot
  | cons t tail =>
    rw [hskip] at hnot
    obtain ⟨htail, ht⟩ := Bool.or_eq_false_iff.1 hnot
    dsimp only
    rw [ht, if_neg Bool.false_ne_true]
    simp only [namesNone_iff]
    refine ⟨fun h => (h rfl).resolve_left ?_, fun h _ => .inr h⟩
    rintro ⟨rfl, rfl⟩
    cases htail

/-- The first read may then decide against HTTP, or leave it to the parser. -/
theorem observed_iff_of_not_http (hseen : within maxBytes stream = 13 :: rest)
    (hnot : couldBeHttp (13 :: rest) = false) :
    ObservedAsClassified p maxBytes late stream ↔ Settled p (13 :: rest) := by
  have hending : ending p maxBytes late stream = .terminal .unsupported ↔
      verdict p (13 :: rest) = some (.terminal .unsupported) :=
        hseen ▸ ending_eq_iff (by decide) (by decide) (by decide)
  have hclassified : ∀ v, classifyPrefix p (13 :: rest) maxBytes ≠ .matched v := by
    intro v
    have htls : (13 : UInt8) ≠ 0x16 := by decide
    simp only [classifyPrefix, if_neg htls, hnot, Bool.false_eq_true, if_false]
    split
    · exact nofun
    · simp
  obtain ⟨hshort, hflat⟩ := bytewise_spec stream
  obtain ⟨later, rfl⟩ : ∃ later, stream = 13 :: later := by
    obtain ⟨later, hlater⟩ : 13 :: rest <+: stream := hseen ▸ take_prefix _ _
    exact ⟨rest ++ later, hlater.symm⟩
  rw [settled_iff_unsupported hnot, ← hending]
  constructor
  · intro h
    have hsame := h.cut _ [13 :: later] hshort (by simp) hflat (by simp)
    rw [observeAll_of_not_http hseen hnot] at hsame
    rw [← hsame, observeAll_eq hshort (fun r hr => ?_), hflat]
    obtain rfl : [13] = r := Option.some.inj hr
    exact byFirst_of_couldBeHttp (couldBeHttp_take rfl _)
  · intro h
    have hall : ∀ reads, (∀ r ∈ reads, r ≠ []) → reads.flatten = 13 :: later →
        observeAll p maxBytes late reads = .terminal .unsupported := by
      intro reads hne heq
      cases reads with
      | nil => cases heq
      | cons r reads =>
        obtain ⟨b, r, rfl⟩ := exists_cons_of_ne_nil (hne _ mem_cons_self)
        have hread := @within_read maxBytes _ _ _ heq
        rw [hseen, length_cons, take_succ_cons] at hread
        cases hcould : couldBeHttp (13 :: rest.take r.length) with
        | false => exact observeAll_of_not_http hread hcould reads late
        | true =>
          rw [observeAll_eq hne (fun r' hr => ?_), heq, h]
          cases hr
          exact byFirst_of_couldBeHttp (hread ▸ hcould)
    refine ⟨fun reads hne heq v => ?_, fun reads reads' hne hne' heq heq' => ?_⟩
    · rw [hall reads hne heq, hseen]
      exact iff_of_false (terminal_ne_matched _ v) (hclassified v)
    · rw [hall reads hne heq, hall reads' hne' heq']

end

/-- For every stream, limit and cut: what is observed is what is classified, and is
the same for every cut, exactly when the bytes that the limit lets through are settled. -/
theorem observer_eq_classifier_iff (p : Parsers) (maxBytes : Nat) (late : Bool) (stream : Bytes) :
    ObservedAsClassified p maxBytes late stream ↔ Settled p (within maxBytes stream) := by
  by_cases hne : (within maxBytes stream).head? = some 13
  · obtain ⟨rest, hseen⟩ := head?_eq_some_iff.1 hne
    cases hcould : couldBeHttp (13 :: rest) with
    | true => exact observed_iff_of_byFirst fun n => byFirst_of_couldBeHttp (couldBeHttp_take (hseen ▸ hcould) n)
    | false => exact hseen ▸ observed_iff_of_not_http hseen hcould
  · refine observed_iff_of_byFirst fun n => ?_
    cases n with
    | zero => exact nofun
    | succ n => exact byFirst_of_ne (by rwa [head?_take, if_neg (Nat.succ_ne_zero n)])

/-! ## Where they differ -/

/-- An acceptor that never has enough. -/
def idleAcceptor : Acceptor where
  capacity := 65535
  take given offered := min offered.length (65535 - given.length)
  accept _ := .more
  capacity_pos := by decide
  take_pos h hne := by
    have := length_pos_of_ne_nil hne
    omega
  take_le given offered := by omega
  accept_append h := absurd rfl h

/-- A head that names `a.example`, with either line end. -/
def exampleHead (lineEnd : Str) : Bytes := utf8Bytes ("GET / HTTP/1.1" ++ lineEnd ++ "Host: a.example")

def exampleRequest : HttpRequest := ⟨some "GET", some "/", [("Host", utf8Bytes "a.example")]⟩

/-- The same head with bare line feeds, to its end. -/
def bareHead : Bytes := exampleHead ['\n'] ++ [10, 10]

/-- A parser that knows this head only. -/
def exampleParse (bytes : Bytes) : HttpStatus :=
  if bareHead <+: skipCrlf bytes then .complete exampleRequest
  else
    match findSub Util.headEnd (skipCrlf bytes) with
    | none => .incomplete
    | some i => if (skipCrlf bytes).take i = exampleHead ['\r', '\n'] then .complete exampleRequest else .error

theorem bareHead_length_le {i} (hbare : bareHead <+: bytes) (hfind : findSub Util.headEnd bytes = some i) :
    bareHead.length ≤ i := by
  by_contra hlt
  obtain ⟨rest, rfl⟩ := hbare
  obtain ⟨-, ⟨later, hat⟩, -⟩ := findSub_eq_some_iff.1 hfind
  rw [drop_append_of_le_length (by omega)] at hat
  obtain ⟨x, xs, hxs⟩ := exists_cons_of_ne_nil (show bareHead.drop i ≠ [] by simpa using hlt)
  rw [hxs] at hat
  obtain ⟨rfl, -⟩ := List.cons.inj hat
  have hmem : (13 : UInt8) ∈ bareHead := mem_of_mem_drop (hxs ▸ mem_cons_self)
  exact absurd hmem (by decide)

def exampleHttp : HttpParser where
  parse := exampleParse
  parse_crlf bytes := rfl
  parse_head {b bytes i} hb hfind := by
    have hne : b ≠ 13 := fun heq => absurd (heq ▸ hb) (by decide)
    have htake : (b :: bytes).take (i + 4) = b :: bytes.take (i + 3) := rfl
    have hfind' : findSub Util.headEnd (b :: bytes.take (i + 3)) = some i :=
      findSub_take hfind (Nat.le_refl (i + 4))
    have hsame : (b :: bytes.take (i + 3)).take i = (b :: bytes).take i := by
      rw [← htake, take_take, Nat.min_eq_left (by omega)]
    rw [htake, exampleParse, exampleParse, skipCrlf_of_ne hne, skipCrlf_of_ne hne, hfind, hfind']
    by_cases hbare : bareHead <+: b :: bytes
    · have hlen := bareHead_length_le hbare hfind
      have hbare' : bareHead <+: b :: bytes.take (i + 3) := htake ▸ prefix_take_iff.2 ⟨hbare, by omega⟩
      rw [if_pos hbare, if_pos hbare']
      exact ⟨by simp, rfl⟩
    · have hbare' : ¬ bareHead <+: b :: bytes.take (i + 3) := fun h => hbare ((htake ▸ h).trans (List.take_prefix _ _))
      rw [if_neg hbare, if_neg hbare']
      dsimp only
      rw [hsame]
      exact ⟨by split <;> simp, rfl⟩
  parse_nothing {bytes} h request := by
    rcases h with rfl | rfl <;> exact nofun

def exampleParsers : Parsers := ⟨idleAcceptor, exampleHttp, fun _ => none⟩

/-- One read of a stream that starts with two line ends, or of one with bare line
feeds, is classified and not observed; and after a line end what is observed of
some bytes depends on whether they came with it. -/
theorem leading_line_ends_disagree :
    let head := exampleHead ['\r', '\n'] ++ Util.headEnd
    (classifyPrefix exampleParsers (Util.headEnd ++ head) 1024 = .matched ⟨.http, "a.example"⟩ ∧
        observeAll exampleParsers 1024 false [Util.headEnd ++ head] = .terminal .malformed) ∧
      (classifyPrefix exampleParsers bareHead 1024 = .matched ⟨.http, "a.example"⟩ ∧
        observeAll exampleParsers 1024 false [bareHead] = .terminal .incomplete) ∧
      observeAll exampleParsers 1024 false [Util.crlf ++ 1 :: Util.headEnd] = .terminal .unsupported ∧
      observeAll exampleParsers 1024 false [Util.crlf, 1 :: Util.headEnd] = .terminal .malformed := by
  refine ⟨⟨by decide +kernel, by decide +kernel⟩, ⟨by decide +kernel, by decide +kernel⟩,
    by decide +kernel, by decide +kernel⟩

end Rove.Sniff
