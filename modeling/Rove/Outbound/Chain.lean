/-
Failing over along a chain (`connect_chain` and `connect_udp_chain` of
`outbound/mod.rs`). Both loops are the one of `Base/Failover` with an attempt of
their own; here they are read that way, with the members they tried.

`chain_fails_over` puts them together with `compile_chain`, which sorts the members:
the order of the attempts is that of the priorities, the first member that works is
the one reported, and there is no other way out of a chain.
-/
import Rove.Base.Failover
import Rove.Outbound.ConnectUdp
import Rove.Outbound.Https

namespace Rove.Model

open List Res

/-! ## The members of a compiled chain -/

theorem compileMembers_priorities {id raws ids ps members} (h : compileMembers id raws ids ps = .ok members) :
    (members.map (·.priority)).Nodup ∧ ∀ m ∈ members, m.priority ∉ ps := by
  induction raws generalizing ids ps members with
  | nil =>
    cases h
    simp
  | cons raw raws ih =>
    obtain ⟨-, h⟩ := ensure_bind_eq_ok.1 h
    obtain ⟨-, h⟩ := ensure_bind_eq_ok.1 h
    obtain ⟨hnew, h⟩ := ensure_bind_eq_ok.1 h
    obtain ⟨-, h⟩ := ensure_bind_eq_ok.1 h
    obtain ⟨up, -, h⟩ := bind_eq_ok.1 h
    obtain ⟨rest, hrest, h⟩ := bind_eq_ok.1 h
    cases h
    obtain ⟨hnodup, hunseen⟩ := ih hrest
    constructor
    · simp only [map_cons, nodup_cons, mem_map, not_exists, not_and]
      exact ⟨fun m hm heq => hunseen m hm (by simp [heq]), hnodup⟩
    · intro m hm
      cases mem_cons.1 hm with
      | inl heq => exact heq ▸ hnew
      | inr hm => exact fun hmem => hunseen m hm (mem_cons_of_mem _ hmem)

/-- Sorting members of different priorities puts them in strictly ascending order. -/
theorem ascending_sortByPriority {members} (h : (members.map (·.priority)).Nodup) :
    (sortByPriority members).Pairwise (·.priority < ·.priority) := by
  have hsorted : (sortByPriority members).Pairwise fun a b => decide (a.priority ≤ b.priority) = true := by
    apply pairwise_mergeSort
    · intro a b c hab hbc
      simp only [decide_eq_true_eq, BitVec.le_def] at *
      omega
    · intro a b
      simp only [Bool.or_eq_true, decide_eq_true_eq, BitVec.le_def]
      omega
  have hnodup : ((sortByPriority members).map (·.priority)).Nodup :=
    ((mergeSort_perm members _).map _).nodup_iff.2 h
  refine (hsorted.and (pairwise_map.1 hnodup)).imp ?_
  intro a b hab
  obtain ⟨hle, hne⟩ := hab
  simp only [decide_eq_true_eq, BitVec.le_def] at hle
  have hne' : a.priority.toNat ≠ b.priority.toNat := fun heq => hne (BitVec.eq_of_toNat_eq heq)
  rw [BitVec.lt_def]
  omega

/-- The members of a chain egress stand in the order of their priorities, which
are all different. -/
theorem ascending_of_compileEgress {id raw egress chain}
    (h : compileEgress id raw = .ok egress) (hchain : egress.decision = .viaChain chain) :
    chain.members.Pairwise (·.priority < ·.priority) := by
  cases raw with
  | upstream backend =>
    obtain ⟨-, h⟩ := ensure_bind_eq_ok.1 h
    obtain ⟨up, -, h⟩ := bind_eq_ok.1 h
    cases h
    cases hchain
  | chain members =>
    obtain ⟨compiled, hcompiled, h⟩ := bind_eq_ok.1 h
    cases h
    obtain rfl : compiled = chain := Decision.viaChain.inj hchain
    obtain ⟨-, h⟩ := ensure_bind_eq_ok.1 hcompiled
    obtain ⟨-, h⟩ := ensure_bind_eq_ok.1 h
    obtain ⟨-, h⟩ := ensure_bind_eq_ok.1 h
    obtain ⟨ms, hms, h⟩ := bind_eq_ok.1 h
    cases h
    exact ascending_sortByPriority (compileMembers_priorities hms).1

end Rove.Model

namespace Rove.Outbound

open Model (Upstream UpstreamKind Chain ChainMember Decision RawEgress Egress compileEgress)

/-! ## What a request may expect of its chain -/

/-- There is no time for attempt `n`: the total is used up, and it is not the first. -/
def OutOfTime (course : Course) (n : Nat) : Prop := 0 < n ∧ chainTotalTimeout ≤ course.elapsed n

/-- A request that tried the members `tried` and ended with `result`. What attempt `n`
gives at a member is `works n`, or nothing if it fails or times out. -/
structure FailsOver {β : Type} (id : Str) (eligible : List ChainMember) (works : Nat → ChainMember → Option β)
    (gaveUp : Nat → Prop) (tried : List ChainMember) (result : Except ProxyError (β × EgressInfo)) : Prop where
  initial : tried <+: eligible
  ascending : tried.Pairwise (·.priority < ·.priority)
  once : tried.Nodup
  inTime : ∀ n < tried.length, ¬ gaveUp n
  /-- The member reported is the last one tried and the only one that worked. -/
  success : ∀ b info, result = .ok (b, info) →
    ∃ failed m, tried = failed ++ [m] ∧ (∀ n m', failed[n]? = some m' → works n m' = none) ∧
      works failed.length m = some b ∧ info = ⟨egressLabel m.upstream, some id, some m.id, tried.length⟩
  exhausted : ∀ e, result = .error e →
    (∃ last, e = .chainExhausted id tried.length last) ∧ (∀ n m, tried[n]? = some m → works n m = none) ∧
      (tried = eligible ∨ gaveUp tried.length)

/-- A stream that runs over an upstream. -/
def Stream.Over (up : Upstream) : Stream → Prop
  | .direct => False
  | .dialed up' tls => up' = up ∧ tls = up.tls
  | .reverse hop => up.kind = .reverse ∧ hop = up.addr
  | .subnetra => up.kind = .subnetra

/-! ## The loops with the members they tried -/

/-- What is left for attempt `n`. -/
def Course.budget (course : Course) (n : Nat) : Option Nat := remainingBudget (course.elapsed n) n

theorem budget_eq_none {course n} : course.budget n = none ↔ OutOfTime course n := by
  rw [Course.budget, remainingBudget, OutOfTime]
  simp only [ite_eq_left_iff, reduceCtorEq, imp_false, Decidable.not_not]
  omega

/-- What a chain reports of its loop; `nobody` is the error of no attempt at all. -/
def report {β : Type} (id : Str) (nobody : ProxyError) :
    Except (Nat × Option ProxyError) (ChainMember × β × Nat) → Except ProxyError (β × EgressInfo)
  | .ok (m, b, n) => .ok (b, ⟨egressLabel m.upstream, some id, some m.id, n⟩)
  | .error (n, last) => .error (.chainExhausted id n (last.getD nobody))

/-- The loop of `Base/Failover` under the times of a course, reported for a chain. -/
theorem failsOver_run {β : Type} {course : Course} {id : Str} {nobody : ProxyError} {eligible : List ChainMember}
    {attempt : Nat → Nat → ChainMember → Except ProxyError β} {works : Nat → ChainMember → Option β}
    (hworks : ∀ n limit m, (attempt n limit m).toOption = works n m)
    (hsorted : eligible.Pairwise (·.priority < ·.priority)) :
    FailsOver id eligible works (OutOfTime course)
      (Failover.run course.budget attempt eligible 0 none).1
      (report id nobody (Failover.run course.budget attempt eligible 0 none).2) := by
  have hfails : ∀ {failed : List ChainMember},
      Failover.AllFail course.budget attempt 0 failed →
        (∀ n m, failed[n]? = some m → works n m = none) ∧ ∀ n < failed.length, ¬ OutOfTime course n := by
    intro failed hall
    constructor
    · intro n m hm
      obtain ⟨limit, e, -, he⟩ := hall n m hm
      rw [Nat.zero_add] at he
      rw [← hworks n limit m, he]
      rfl
    · intro n hn hout
      obtain ⟨limit, e, hbudget, -⟩ := hall n _ (List.getElem?_eq_getElem hn)
      rw [Nat.zero_add, budget_eq_none.2 hout] at hbudget
      cases hbudget
  have hinitial := @Failover.tried_initial _ _ _ _ course.budget attempt eligible 0 none
  have hascending := hsorted.sublist hinitial.sublist
  have honce := hascending.imp (S := (· ≠ ·)) fun hlt heq => by simp [heq] at hlt
  cases hresult : (Failover.run course.budget attempt eligible 0 none).2 with
  | ok found =>
    obtain ⟨m, b, count⟩ := found
    obtain ⟨failed, limit, htried, hcount, hall, hbudget, hm⟩ := Failover.run_ok hresult
    rw [htried] at hinitial hascending honce ⊢
    obtain ⟨hnone, htime⟩ := hfails hall
    rw [Nat.zero_add] at hcount hbudget hm
    refine ⟨hinitial, hascending, honce, ?_, ?_, ?_⟩
    · intro n hn hout
      rw [List.length_append, List.length_singleton, Nat.lt_succ_iff_lt_or_eq] at hn
      cases hn with
      | inl hlt => exact htime n hlt hout
      | inr heq =>
        rw [heq] at hout
        rw [budget_eq_none.2 hout] at hbudget
        cases hbudget
    · intro b' info hok
      obtain ⟨rfl, rfl⟩ := hok
      exact ⟨failed, m, rfl, hnone, by rw [← hworks _ limit m, hm]; rfl, by simp [hcount]⟩
    · intro e he
      cases he
  | error failure =>
    obtain ⟨count, last⟩ := failure
    obtain ⟨hcount, hall, hend⟩ := Failover.run_error hresult
    obtain ⟨hnone, htime⟩ := hfails hall
    rw [Nat.zero_add] at hcount
    refine ⟨hinitial, hascending, honce, htime, ?_, ?_⟩
    · intro b info hok
      cases hok
    · intro e he
      simp only [report, Except.error.injEq] at he
      refine ⟨⟨last.getD nobody, by rw [← he, hcount]⟩, hnone, ?_⟩
      rw [← hcount]
      exact hend.imp_right budget_eq_none.1

section
variable (base64 : Bytes → Str)

/-- One attempt of `connect_chain`. -/
def chainAttempt (course : Course) (id host : Str) (port n limit : Nat) (m : ChainMember) : Except ProxyError Stream :=
  match course.timesOut n with
  | some _ =>
    let chain := Str.display id
    let member := Str.display m.id
    let time := debugDuration limit
    .error (.upstream s!"chain {chain} member {member} attempt timed out after {time}")
  | none => (connectUpstream base64 (course.net n) m.upstream host port).2

/-- What attempt `n` writes at a member until it ends or is given up. -/
def attemptWrites (course : Course) (host : Str) (port n : Nat) (m : ChainMember) : List Write :=
  match course.timesOut n with
  | some writes => (connectUpstream base64 (course.net n) m.upstream host port).1.take writes
  | none => (connectUpstream base64 (course.net n) m.upstream host port).1

/-- The loop of `connect_chain`, with the members it tried. -/
def chainLoop (course : Course) (id host : Str) (port : Nat) :
    List ChainMember → Nat → Option ProxyError →
      List ChainMember × Except (Nat × Option ProxyError) (ChainMember × Stream × Nat) :=
  Failover.run course.budget (chainAttempt base64 course id host port)

theorem connectMembers_eq (course : Course) (id host : Str) (port : Nat) (ms : List ChainMember) (n : Nat)
    (last : Option ProxyError) :
    connectMembers base64 course id host port ms n last =
      (((chainLoop base64 course id host port ms n last).1.zipIdx n).flatMap
          fun tried => attemptWrites base64 course host port tried.2 tried.1,
        report id (.upstream ("chain " ++ Str.display id ++ " has no eligible members"))
          (chainLoop base64 course id host port ms n last).2) := by
  induction ms generalizing n last with
  | nil => rfl
  | cons m ms ih =>
    rw [connectMembers, chainLoop, Failover.run, Course.budget]
    cases hbudget : remainingBudget (course.elapsed n) n with
    | none => rfl
    | some limit =>
      rw [chainLoop] at ih
      cases htime : course.timesOut n with
      | some writes => simp [chainAttempt, attemptWrites, htime, ih]
      | none =>
        cases hattempt : (connectUpstream base64 (course.net n) m.upstream host port).2 with
        | ok stream => simp [chainAttempt, attemptWrites, htime, hattempt, report]
        | error e => simp [chainAttempt, attemptWrites, htime, hattempt, ih]

/-- The stream that attempt `n` gives at a member, if it succeeds in time. -/
def tcpWorks (course : Course) (host : Str) (port n : Nat) (m : ChainMember) : Option Stream :=
  if (course.timesOut n).isSome then none else (connectUpstream base64 (course.net n) m.upstream host port).2.toOption

theorem toOption_chainAttempt (course : Course) (id host : Str) (port n limit : Nat) (m : ChainMember) :
    (chainAttempt base64 course id host port n limit m).toOption = tcpWorks base64 course host port n m := by
  rw [chainAttempt, tcpWorks]
  cases course.timesOut n <;> rfl

/-- The members `connect_chain` tries. -/
def triedTcp (course : Course) (chain : Chain) (host : Str) (port : Nat) : List ChainMember :=
  (chainLoop base64 course chain.id host port chain.members 0 none).1

end

/-- One attempt of `connect_udp_chain`. -/
def udpAttempt (course : Course) (manager : ReverseHopManager) (id : Str) (n limit : Nat) (m : ChainMember) :
    Except ProxyError Str :=
  match course.timesOut n with
  | some _ =>
    let chain := Str.display id
    let member := Str.display m.id
    let time := debugDuration limit
    .error (.reverseOpen s!"chain {chain} member {member} udp open timed out after {time}")
  | none => (((course.net n).reverse.getD manager).openUdp m.upstream.addr).map fun _ => m.upstream.addr

/-- The loop of `connect_udp_chain`, with the members it tried. -/
def udpLoop (course : Course) (manager : ReverseHopManager) (id : Str) :
    List ChainMember → Nat → Option ProxyError →
      List ChainMember × Except (Nat × Option ProxyError) (ChainMember × Str × Nat) :=
  Failover.run course.budget (udpAttempt course manager id)

theorem connectUdpMembers_eq (course : Course) (manager : ReverseHopManager) (id : Str)
    (ms : List ChainMember) (n : Nat) (last : Option ProxyError) :
    connectUdpMembers course manager id ms n last =
      report id (.upstream ("chain " ++ Str.display id ++ " has no eligible udp members"))
        (udpLoop course manager id ms n last).2 := by
  induction ms generalizing n last with
  | nil => rfl
  | cons m ms ih =>
    rw [connectUdpMembers, udpLoop, Failover.run, Course.budget]
    cases hbudget : remainingBudget (course.elapsed n) n with
    | none => rfl
    | some limit =>
      rw [udpLoop] at ih
      cases htime : course.timesOut n with
      | some writes => simp [udpAttempt, htime, ih]
      | none =>
        cases hopen : ((course.net n).reverse.getD manager).openUdp m.upstream.addr with
        | ok u => simp [udpAttempt, htime, hopen, Except.map, report]
        | error e => simp [udpAttempt, htime, hopen, Except.map, ih]

/-- The members UDP can leave through. -/
def udpMembers (chain : Chain) : List ChainMember := chain.members.filter (·.upstream.kind = .reverse)

/-- The hop that attempt `n` opens a relay at, if it succeeds in time. -/
def udpWorks (course : Course) (n : Nat) (m : ChainMember) : Option Str :=
  if (course.timesOut n).isSome then none
  else
    ((course.net n).reverse.or (course.net 0).reverse).bind fun manager =>
      (manager.openUdp m.upstream.addr).toOption.map fun _ => m.upstream.addr

theorem toOption_udpAttempt {course manager} (hmanager : (course.net 0).reverse = some manager)
    (id : Str) (n limit : Nat) (m : ChainMember) :
    (udpAttempt course manager id n limit m).toOption = udpWorks course n m := by
  rw [udpAttempt, udpWorks, hmanager]
  have hsome : (course.net n).reverse.or (some manager) = some ((course.net n).reverse.getD manager) := by
    cases (course.net n).reverse <;> rfl
  rw [hsome]
  cases course.timesOut n with
  | some writes => rfl
  | none =>
    simp only [Option.isSome_none, Bool.false_eq_true, if_false, Option.bind_some]
    cases ((course.net n).reverse.getD manager).openUdp m.upstream.addr <;> rfl

/-- The members `connect_udp_chain` tries: none if there is nothing to open a relay with. -/
def triedUdp (course : Course) (chain : Chain) : List ChainMember :=
  match (course.net 0).reverse with
  | none => []
  | some manager => (udpLoop course manager chain.id (udpMembers chain) 0 none).1

/-! ## Where an attempt goes -/

variable {net : Network} {up : Upstream} {host : Str} {port : Nat}

/-- Speaking to an upstream writes to it alone, and gives a stream over it. -/
theorem speak_over {talk} :
    (∀ w ∈ (speak net up talk).1, w.upstream = up) ∧ ∀ stream, (speak net up talk).2 = .ok stream → stream.Over up := by
  rw [speak]
  cases hdial : dial net up with
  | error e => simp
  | ok stream =>
    obtain ⟨rfl, -⟩ := dial_asAsked hdial
    constructor
    · intro w hw
      obtain ⟨bs, -, rfl⟩ := List.mem_map.1 hw
      rfl
    · intro stream hstream
      obtain ⟨a, -, rfl⟩ := Res.map_eq_ok.1 hstream
      exact ⟨rfl, rfl⟩

theorem reverseConnect_over (hkind : up.kind = .reverse) :
    (∀ w ∈ (reverseConnect net up host port).1, w.upstream = up) ∧
      ∀ stream, (reverseConnect net up host port).2 = .ok stream → stream.Over up := by
  rw [reverseConnect]
  split
  · simp
  · refine ⟨by simp, fun stream hstream => ?_⟩
    obtain ⟨a, -, rfl⟩ := Res.map_eq_ok.1 hstream
    exact ⟨hkind, rfl⟩

theorem subnetraConnect_over (hkind : up.kind = .subnetra) :
    (∀ w ∈ (subnetraConnect net host port).1, w.upstream = up) ∧
      ∀ stream, (subnetraConnect net host port).2 = .ok stream → stream.Over up := by
  simp only [subnetraConnect]
  split
  · simp
  · split
    · simp
    · split
      · simp
      · split
        · simp
        · refine ⟨by simp, fun stream hstream => ?_⟩
          cases hstream
          exact hkind

theorem connectUpstream_over (base64 : Bytes → Str) :
    (∀ w ∈ (connectUpstream base64 net up host port).1, w.upstream = up) ∧
      ∀ stream, (connectUpstream base64 net up host port).2 = .ok stream → stream.Over up := by
  rw [connectUpstream]
  cases hkind : up.kind with
  | http => exact speak_over
  | socks5 => exact speak_over
  | reverse => exact reverseConnect_over hkind
  | subnetra => exact subnetraConnect_over hkind

theorem attemptWrites_upstream {base64 course n m w} (h : w ∈ attemptWrites base64 course host port n m) :
    w.upstream = m.upstream := by
  rw [attemptWrites] at h
  split at h
  · exact (connectUpstream_over base64).1 w (List.mem_of_mem_take h)
  · exact (connectUpstream_over base64).1 w h

theorem over_of_tcpWorks {base64 course n m stream} (h : tcpWorks base64 course host port n m = some stream) :
    stream.Over m.upstream := by
  rw [tcpWorks] at h
  split at h
  · cases h
  · cases hattempt : (connectUpstream base64 (course.net n) m.upstream host port).2 with
    | error e =>
      rw [hattempt] at h
      cases h
    | ok stream' =>
      rw [hattempt] at h
      obtain rfl : stream' = stream := Option.some.inj h
      exact (connectUpstream_over base64).2 _ hattempt

/-! ## Both chains -/

section
variable (base64 : Bytes → Str) (course : Course) {chain : Chain}

theorem failsOver_tcp (hsorted : chain.members.Pairwise (·.priority < ·.priority)) (host : Str) (port : Nat) :
    FailsOver chain.id chain.members (tcpWorks base64 course host port) (OutOfTime course)
      (triedTcp base64 course chain host port) (connect base64 course (.viaChain chain) host port).2 := by
  rw [connect, connectMembers_eq]
  exact failsOver_run (toOption_chainAttempt base64 course chain.id host port) hsorted

theorem failsOver_udp (hsorted : chain.members.Pairwise (·.priority < ·.priority)) :
    FailsOver chain.id (udpMembers chain) (udpWorks course)
      (fun n => OutOfTime course n ∨ (course.net 0).reverse = none) (triedUdp course chain)
      (connectUdp course (.viaChain chain)) := by
  rw [connectUdp, connectUdpChain, triedUdp]
  cases hmanager : (course.net 0).reverse with
  | none =>
    -- nothing is tried, with or without candidates
    have hnothing : ∀ last : ProxyError, FailsOver chain.id (udpMembers chain) (udpWorks course)
        (fun n => OutOfTime course n ∨ (none : Option ReverseHopManager) = none) []
        (.error (.chainExhausted chain.id 0 last)) := by
      intro last
      refine ⟨List.nil_prefix, .nil, .nil, by simp, by simp, fun e he => ?_⟩
      exact ⟨⟨last, (Except.error.inj he).symm⟩, by simp, .inr (.inr rfl)⟩
    dsimp only
    split
    · exact hnothing _
    · exact hnothing _
  | some manager =>
    have hgaveUp : (fun n => OutOfTime course n ∨ some manager = none) = OutOfTime course := by
      funext n
      simp
    have hsub : (udpMembers chain).Pairwise (·.priority < ·.priority) := hsorted.sublist List.filter_sublist
    rw [hgaveUp]
    dsimp only
    split
    · next hempty =>
      have hnone : udpMembers chain = [] := hempty
      rw [hnone, udpLoop, Failover.run]
      refine ⟨List.nil_prefix, .nil, .nil, by simp, by simp, fun e he => ?_⟩
      exact ⟨⟨_, (Except.error.inj he).symm⟩, by simp, .inl rfl⟩
    · rw [connectUdpMembers_eq]
      exact failsOver_run (toOption_udpAttempt hmanager chain.id) hsub

/-- For a chain egress that compiles, and whatever comes of each attempt: TCP tries
its members, and UDP its reverse members, in the order of their priorities until one
works; nothing is written but to members that were tried, and a stream runs over the
member that is reported. -/
theorem chain_fails_over {id : Str} {raw : RawEgress} {egress : Egress} (hcompiled : compileEgress id raw = .ok egress)
    (hchain : egress.decision = .viaChain chain) (host : Str) (port : Nat) :
    (FailsOver chain.id chain.members (tcpWorks base64 course host port) (OutOfTime course)
        (triedTcp base64 course chain host port) (connect base64 course (.viaChain chain) host port).2 ∧
      (∀ w ∈ (connect base64 course (.viaChain chain) host port).1,
        ∃ m ∈ triedTcp base64 course chain host port, w.upstream = m.upstream) ∧
      ∀ stream info, (connect base64 course (.viaChain chain) host port).2 = .ok (stream, info) →
        stream ≠ .direct ∧ ∃ m ∈ chain.members, info.memberId = some m.id ∧ stream.Over m.upstream) ∧
    FailsOver chain.id (udpMembers chain) (udpWorks course)
        (fun n => OutOfTime course n ∨ (course.net 0).reverse = none) (triedUdp course chain)
        (connectUdp course (.viaChain chain)) ∧
      ∀ hop info, connectUdp course (.viaChain chain) = .ok (hop, info) →
        ∃ m ∈ chain.members, info.memberId = some m.id ∧ m.upstream.kind = .reverse ∧ m.upstream.addr = hop := by
  have hsorted := Model.ascending_of_compileEgress hcompiled hchain
  have htcp := failsOver_tcp base64 course hsorted host port
  have hudp := failsOver_udp course hsorted
  refine ⟨⟨htcp, ?_, ?_⟩, hudp, ?_⟩
  · intro w hw
    rw [connect, connectMembers_eq] at hw
    obtain ⟨tried, hmem, hw⟩ := List.mem_flatMap.1 hw
    exact ⟨tried.1, List.fst_mem_of_mem_zipIdx hmem, attemptWrites_upstream hw⟩
  · intro stream info hok
    obtain ⟨failed, m, htried, -, hworks, rfl⟩ := htcp.success stream info hok
    have hover := over_of_tcpWorks hworks
    refine ⟨?_, m, htcp.initial.subset (by simp [htried]), rfl, hover⟩
    intro hdirect
    rw [hdirect] at hover
    exact hover
  · intro hop info hok
    obtain ⟨failed, m, htried, -, hworks, rfl⟩ := hudp.success hop info hok
    have hmem : m ∈ udpMembers chain := hudp.initial.subset (by simp [htried])
    obtain ⟨hmember, hkind⟩ := List.mem_filter.1 hmem
    refine ⟨m, hmember, rfl, of_decide_eq_true hkind, ?_⟩
    rw [udpWorks] at hworks
    split at hworks
    · cases hworks
    · obtain ⟨manager, -, hopen⟩ := Option.bind_eq_some_iff.1 hworks
      obtain ⟨a, -, heq⟩ := Option.map_eq_some_iff.1 hopen
      exact heq

end

/-- A chain of two members, the backup first in the document. -/
def twoMembers : RawEgress :=
  .chain [⟨"backup", 20, ⟨"reverse", "hop", none, none, false, false⟩⟩,
    ⟨"primary", 10, ⟨"http", "p.example:3128", none, none, false, false⟩⟩]

def primary : ChainMember := ⟨"primary", 10, ⟨.http, "p.example:3128", none, none, false, false⟩⟩

def backup : ChainMember := ⟨"backup", 20, ⟨.reverse, "hop", none, none, false, false⟩⟩

theorem compile_twoMembers : compileEgress "c" twoMembers = .ok ⟨"c", .chain ⟨"c", [primary, backup]⟩⟩ := by
  have hsort : Model.sortByPriority [backup, primary] = [primary, backup] := by
    have hlt : decide (backup.priority ≤ primary.priority) = false := by decide
    simp [Model.sortByPriority, List.mergeSort, List.MergeSort.Internal.splitInTwo, hlt]
  show Except.ok (⟨"c", .chain ⟨"c", Model.sortByPriority [backup, primary]⟩⟩ : Egress) = _
  rw [hsort]

/-- The proxy closes what it accepts, and the hop opens what it is asked for. -/
def hopAnswers : Course :=
  { silent with net := fun n => { silent.net n with reverse := some ⟨fun _ _ _ => .ok (), fun _ => .ok ()⟩ } }

/-- The primary fails, and the backup is reported as the second attempt. -/
theorem chain_fails_over_twoMembers :
    let chain : Chain := ⟨"c", [primary, backup]⟩
    let served := connect (fun _ => []) hopAnswers (.viaChain chain) "a.example" 443
    triedTcp (fun _ => []) hopAnswers chain "a.example" 443 = [primary, backup] ∧
      served.2 = .ok (.reverse "hop", ⟨egressLabel backup.upstream, some "c", some "backup", 2⟩) ∧
      (∀ w ∈ served.1, w.upstream = primary.upstream ∨ w.upstream = backup.upstream) ∧
      FailsOver "c" [primary, backup] (tcpWorks (fun _ => []) hopAnswers "a.example" 443) (OutOfTime hopAnswers)
        [primary, backup] served.2 := by
  intro chain served
  have htried : triedTcp (fun _ => []) hopAnswers chain "a.example" 443 = [primary, backup] := by decide +kernel
  obtain ⟨⟨hfails, hwrites, -⟩, -⟩ :=
    @chain_fails_over (fun _ => []) hopAnswers chain _ _ _ compile_twoMembers rfl "a.example" 443
  rw [htried] at hfails hwrites
  exact ⟨htried, by decide +kernel, fun w hw => by simpa using hwrites w hw, hfails⟩

end Rove.Outbound
