/-
Which writes to an upstream go through TLS. The transport of a dialed
upstream follows its `tls` field and nothing else (`connect_asAsked`), while
the kind `https` is read as `http` when the snapshot is compiled. So a
backend of kind `https` is spoken to in the clear unless `tls` is set too.
-/
import Rove.Outbound.Connect
import Rove.Model.Reference

namespace Rove.Outbound

open List
open Model

/-! ## Every write goes the way its upstream asks -/

/-- A write went the way its upstream asks: through TLS or not, to a port. -/
def Write.AsAsked (w : Write) : Prop := w.tls = w.upstream.tls ∧ (portOf w.upstream.addr).isSome

/-- A dialed stream runs the way its upstream asks. -/
def Stream.AsAsked : Stream → Prop
  | .dialed up tls => tls = up.tls ∧ (portOf up.addr).isSome
  | _ => True

theorem dial_asAsked {net up stream} (h : dial net up = .ok stream) :
    stream = .dialed up up.tls ∧ (portOf up.addr).isSome := by
  unfold dial at h
  cases hp : portOf up.addr with
  | none => simp [hp] at h
  | some port =>
    cases hc : net.tcpConnect (Util.hostOf up.addr) port with
    | error e => simp [hp, hc] at h
    | ok _ =>
      cases ht : up.tls with
      | false =>
        simp only [hp, hc, ht, Bool.false_eq_true, if_false, Except.ok.injEq] at h
        exact ⟨h.symm, rfl⟩
      | true =>
        cases hn : net.serverName (Util.hostOf up.addr) with
        | error e => simp [hp, hc, ht, hn] at h
        | ok _ =>
          cases hh : net.handshake (Util.hostOf up.addr) up.skipCertVerify with
          | error e => simp [hp, hc, ht, hn, hh] at h
          | ok _ =>
            simp only [hp, hc, ht, hn, hh, if_true, Except.ok.injEq] at h
            exact ⟨h.symm, rfl⟩

/-- So does everything an attempt wrote or established. -/
structure Attempt.AsAsked (a : Attempt) : Prop where
  writes : ∀ w ∈ a.1, w.AsAsked
  stream : ∀ s, a.2 = .ok s → s.AsAsked

structure Outcome.AsAsked (o : Outcome) : Prop where
  writes : ∀ w ∈ o.1, w.AsAsked
  stream : ∀ s info, o.2 = .ok (s, info) → s.AsAsked

theorem Outcome.AsAsked.after {ws rest} (hws : ∀ w ∈ ws, w.AsAsked)
    (hrest : Outcome.AsAsked rest) : Outcome.AsAsked (ws ++ rest.1, rest.2) := by
  refine ⟨fun w hw => ?_, hrest.stream⟩
  rcases mem_append.1 hw with hw | hw
  · exact hws w hw
  · exact hrest.writes w hw

theorem speak_asAsked (net : Network) (up : Upstream) (talk : Talk Unit) : Attempt.AsAsked (speak net up talk) := by
  unfold speak
  cases hd : dial net up with
  | error e => exact ⟨by simp, by simp⟩
  | ok stream =>
    obtain ⟨rfl, hport⟩ := dial_asAsked hd
    refine ⟨fun w hw => ?_, fun stream hs => ?_⟩
    · obtain ⟨bs, -, rfl⟩ := mem_map.1 hw
      exact ⟨rfl, hport⟩
    · cases ht : (talk (net.peer up)).2 with
      | error e => simp [ht, Except.map] at hs
      | ok r =>
        simp only [ht, Except.map, Except.ok.injEq] at hs
        rw [← hs]
        exact ⟨rfl, hport⟩

theorem reverseConnect_asAsked (net : Network) (up : Upstream) (host : Str) (port : Nat) :
    Attempt.AsAsked (reverseConnect net up host port) := by
  unfold reverseConnect
  cases net.reverse with
  | none => exact ⟨by simp, by simp⟩
  | some manager =>
    refine ⟨by simp, fun s hs => ?_⟩
    cases ho : manager.openTunnel up.addr host port with
    | error e => simp [ho, Except.map] at hs
    | ok _ =>
      simp only [ho, Except.map, Except.ok.injEq] at hs
      rw [← hs]
      trivial

theorem subnetraConnect_asAsked (net : Network) (host : Str) (port : Nat) :
    Attempt.AsAsked (subnetraConnect net host port) := by
  have hfail : ∀ e, Attempt.AsAsked ([], .error e) := fun e => ⟨by simp, by simp⟩
  unfold subnetraConnect
  split
  · exact hfail _
  · split
    · exact hfail _
    · split
      · exact hfail _
      · split
        · exact hfail _
        · refine ⟨by simp, fun s hs => ?_⟩
          cases hs
          trivial

theorem connectUpstream_asAsked (base64 : Bytes → Str) (net : Network) (up : Upstream) (host : Str) (port : Nat) :
    Attempt.AsAsked (connectUpstream base64 net up host port) := by
  unfold connectUpstream
  split
  · exact speak_asAsked net up _
  · exact speak_asAsked net up _
  · exact reverseConnect_asAsked net up host port
  · exact subnetraConnect_asAsked net host port

/-- Over every course of events, whatever a chain writes goes the way the
member it is written to asks. -/
theorem connectMembers_asAsked (base64 : Bytes → Str) (course : Course) (id host : Str) (port : Nat)
    (ms : List ChainMember) (attempts : Nat) (last : Option ProxyError) :
    Outcome.AsAsked (connectMembers base64 course id host port ms attempts last) := by
  induction ms generalizing attempts last with
  | nil => exact ⟨by simp [connectMembers], by simp [connectMembers]⟩
  | cons m ms ih =>
    have hattempt := connectUpstream_asAsked base64 (course.net attempts) m.upstream host port
    unfold connectMembers
    dsimp only
    split
    · exact ⟨by simp, by simp⟩
    · split
      · exact .after (fun w hw => hattempt.writes w (mem_of_mem_take hw)) (ih _ _)
      · next s _ hs =>
        refine ⟨hattempt.writes, fun s' info h => ?_⟩
        cases h
        exact hattempt.stream s hs
      · exact .after hattempt.writes (ih _ _)

theorem connect_asAsked (base64 : Bytes → Str) (course : Course) (decision : Decision) (host : Str) (port : Nat) :
    Outcome.AsAsked (connect base64 course decision host port) := by
  unfold connect
  split
  · split
    · exact ⟨by simp, by simp⟩
    · refine ⟨by simp, fun s info h => ?_⟩
      cases h
      trivial
  · next up =>
    have hattempt := connectUpstream_asAsked base64 (course.net 0) up host port
    refine ⟨hattempt.writes, fun s info h => ?_⟩
    cases hr : (connectUpstream base64 (course.net 0) up host port).2 with
    | error e => simp [hr, Except.map] at h
    | ok s' =>
      simp only [hr, Except.map, Except.ok.injEq, Prod.mk.injEq] at h
      exact h.1 ▸ hattempt.stream s' hr
  · exact connectMembers_asAsked base64 course _ host port _ 0 none
  · exact ⟨by simp, by simp⟩

/-! ## A silent network -/

/-- Every upstream accepts a connection and closes it again; there is no other
way out. -/
def silent : Course where
  net := fun _ =>
    { tcpConnect := fun _ _ => .ok ()
      serverName := fun _ => .error "closed"
      handshake := fun _ _ => .error "closed"
      peer := fun _ => ⟨[], none⟩
      reverse := none
      subnetra := none
      subnetraTun := false }
  elapsed := fun _ => 0
  timesOut := fun _ => none

/-- Nothing is established there, so a chain tries all of its members. -/
theorem silent_fails (base64 : Bytes → Str) (n : Nat) (up : Upstream) (host : Str) (port : Nat) :
    ∃ e, (connectUpstream base64 (silent.net n) up host port).2 = .error e := by
  have hspeak : ∀ talk : Talk Unit, (∃ e, (talk ⟨[], none⟩).2 = .error e) →
      ∃ e, (speak (silent.net n) up talk).2 = .error e := by
    intro talk ⟨e, he⟩
    unfold speak
    cases dial (silent.net n) up with
    | error e => exact ⟨e, rfl⟩
    | ok stream => exact ⟨e, by simp [silent, he, Except.map]⟩
  unfold connectUpstream
  cases up.kind with
  | http => exact hspeak _ ⟨_, rfl⟩
  | socks5 => exact hspeak _ ⟨_, rfl⟩
  | reverse => exact ⟨_, rfl⟩
  | subnetra => exact ⟨_, rfl⟩

/-- An HTTP upstream without TLS is written to, once it has a port. -/
theorem silent_writes (base64 : Bytes → Str) (n : Nat) {up} (host : Str) (port : Nat) (hk : up.kind = .http)
    (ht : up.tls = false) (hp : (portOf up.addr).isSome) :
    ∃ w ∈ (connectUpstream base64 (silent.net n) up host port).1, w.upstream = up ∧ w.tls = false := by
  obtain ⟨p, hp⟩ := Option.isSome_iff_exists.1 hp
  have hdial : dial (silent.net n) up = .ok (.dialed up false) := by
    simp [dial, silent, hp, ht]
  have hwrite : utf8Bytes (connectRequest base64 up host port) ∈
      (httpConnect base64 up host port ((silent.net n).peer up)).1 :=
    Talk.mem_bind_left (Talk.mem_writeAll _ _)
  refine ⟨⟨up, false, utf8Bytes (connectRequest base64 up host port)⟩, ?_, rfl, rfl⟩
  simp only [connectUpstream, hk, speak, hdial]
  exact mem_map.2 ⟨_, hwrite, rfl⟩

theorem silent_members (base64 : Bytes → Str) (id host : Str) (port : Nat) {m ms}
    (hm : m ∈ ms) (hk : m.upstream.kind = .http) (ht : m.upstream.tls = false)
    (hp : (portOf m.upstream.addr).isSome) (attempts : Nat) (last : Option ProxyError) :
    ∃ w ∈ (connectMembers base64 silent id host port ms attempts last).1, w.upstream = m.upstream ∧ w.tls = false := by
  induction ms generalizing attempts last with
  | nil => cases hm
  | cons m' ms ih =>
    obtain ⟨e, he⟩ := silent_fails base64 attempts m'.upstream host port
    have hbudget : remainingBudget (silent.elapsed attempts) attempts = some chainAttemptTimeout := by
      simp [remainingBudget, silent, chainTotalTimeout, chainAttemptTimeout]
    have hout : silent.timesOut attempts = none := rfl
    unfold connectMembers
    simp only [hbudget, hout, he]
    rcases mem_cons.1 hm with rfl | hm
    · obtain ⟨w, hw, hup⟩ := silent_writes base64 attempts host port hk ht hp
      exact ⟨w, mem_append_left _ hw, hup⟩
    · obtain ⟨w, hw, hup⟩ := ih hm (attempts + 1) (some e)
      exact ⟨w, mem_append_right _ hw, hup⟩

/-! ## Backends of kind `https` -/

/-- The backends an egress may speak to. -/
def backends : RawEgress → List RawUpstream
  | .upstream backend => [backend]
  | .chain members => members.map (·.backend)

/-- A request wrote to the upstream outside TLS, or handed out a stream to it
that is outside TLS. -/
def InClear (up : Upstream) (o : Outcome) : Prop :=
  (∃ w ∈ o.1, w.upstream = up ∧ w.tls = false) ∨ ∃ info, o.2 = .ok (.dialed up false, info)

theorem not_inClear_of_asAsked {up o} (ho : Outcome.AsAsked o)
    (h : up.tls = true ∨ portOf up.addr = none) : ¬ InClear up o := by
  have hasked : ¬ (false = up.tls ∧ (portOf up.addr).isSome = true) := by
    rcases h with h | h <;> simp [h]
  intro hclear
  rcases hclear with ⟨w, hw, rfl, htls⟩ | ⟨info, hs⟩
  · exact hasked (htls ▸ ho.writes w hw)
  · exact hasked (ho.stream _ info hs)

theorem exists_member {ms : List RawChainMember} {cs : List ChainMember} (h : ms.mapM Reference.member = some cs)
    {m : RawChainMember} (hm : m ∈ ms) : ∃ c ∈ cs, Reference.upstream m.backend = some c.upstream := by
  induction ms generalizing cs with
  | nil => cases hm
  | cons m' ms ih =>
    rw [mapM_cons] at h
    obtain ⟨c, hc, h⟩ := Option.bind_eq_some_iff.1 h
    obtain ⟨cs', hcs, h⟩ := Option.bind_eq_some_iff.1 h
    cases h
    rcases mem_cons.1 hm with rfl | hm
    · obtain ⟨up, hup, rfl⟩ := Option.map_eq_some_iff.1 hc
      exact ⟨_, mem_cons_self, hup⟩
    · obtain ⟨c', hc', hup⟩ := ih hcs hm
      exact ⟨c', mem_cons_of_mem _ hc', hup⟩

/-- Without TLS, every HTTP backend of an egress is spoken to in the clear when
the network is silent. -/
theorem silent_inClear (base64 : Bytes → Str) {id : Str} {e : RawEgress} {d : Decision}
    (hd : Reference.realize id e = some d) {u : RawUpstream} (hu : u ∈ backends e) {up : Upstream}
    (hup : Reference.upstream u = some up) (hk : up.kind = .http) (ht : up.tls = false)
    (hp : (portOf up.addr).isSome) (host : Str) (port : Nat) : InClear up (connect base64 silent d host port) := by
  left
  cases e with
  | upstream backend =>
    obtain rfl := mem_singleton.1 hu
    simp only [Reference.realize, hup, Option.map_some, Option.some.injEq] at hd
    rw [← hd]
    exact silent_writes base64 0 host port hk ht hp
  | chain members =>
    obtain ⟨m, hm, rfl⟩ := mem_map.1 hu
    obtain ⟨cs, hcs, rfl⟩ := Option.map_eq_some_iff.1 hd
    obtain ⟨c, hc, hcup⟩ := exists_member hcs hm
    obtain rfl := Option.some.inj (hup.symm.trans hcup)
    exact silent_members base64 id host port (mem_sortByPriority.2 hc) hk ht hp 0 none

/-- A backend of kind `https`, in any letter case, is never spoken to outside
TLS exactly when its `tls` field is set or its address has no port to dial. -/
theorem https_backend_never_in_clear_iff (base64 : Bytes → Str) (parseIpNet : Str → Option IpNet)
    (parseDate : Str → Res NaiveDate) (o : IterOrder) (raw : RawSnapshot) (nodeId : Str)
    (book book' : Option Policy.LoadedBook) (s : Snapshot)
    (h : compileChecked parseIpNet parseDate o raw nodeId book = .ok (s, book')) (username : Str) (user : RawUser)
    (huser : raw.users.get? username = some user) (policy : RawRoutingPolicy)
    (hpolicy : raw.routingPolicies.get? user.policy = some policy) (host : Str) (port : Nat) (sniffed : Option Str)
    (id : Str)
    (hroute : Reference.responsible policy (s.decideWithSniff username host sniffed).matchedRoute = some (.egress id))
    (e : RawEgress) (he : Reference.egressOf raw nodeId (Str.trim id) = some e) (u : RawUpstream)
    (hu : u ∈ backends e) (hkind : Str.toAsciiLowercase u.kind = "https") :
    (∀ course up, Reference.upstream u = some up →
        ¬ InClear up (connect base64 course (s.decideWithSniff username host sniffed).decision host port)) ↔
      u.tls = true ∨ portOf u.addr = none := by
  have hupstream : Reference.upstream u =
      some ⟨.http, u.addr, u.username, u.password, u.tls, u.skipCertVerify⟩ := by
    have hk : upstreamKindOf (Str.toAsciiLowercase u.kind) = some .http := by
      rw [hkind]
      decide +kernel
    simp [Reference.upstream, hk]
  obtain ⟨e', he', hreal⟩ := (compileChecked_spec h).decision_of_egress huser hpolicy hroute
  obtain rfl := Option.some.inj (he.symm.trans he')
  refine ⟨fun hnever => ?_, fun hcond course up hup => ?_⟩
  · by_contra hcond
    obtain ⟨htls, hport⟩ := not_or.1 hcond
    exact hnever silent _ hupstream (silent_inClear base64 hreal hu hupstream rfl (by simpa using htls)
      (Option.isSome_iff_ne_none.2 hport) host port)
  · obtain rfl := Option.some.inj (hupstream.symm.trans hup)
    exact not_inClear_of_asAsked (connect_asAsked base64 course _ host port) hcond

/-- A backend of kind `HTTPS` with a credential. -/
def httpsBackend (tls : Bool) : RawUpstream :=
  ⟨"HTTPS", "p.example:443", some "u", some "p", tls, false⟩

/-- A user whose every request goes through it. -/
def httpsSnapshot (tls : Bool) : RawSnapshot where
  schemaVersion := 1
  version := 1
  users := ⟨[("alice", { password := "pw", policy := "main" })], by simp⟩
  routingPolicies := ⟨[("main", { defaultAction := some (.egress "out") })], by simp⟩
  egresses := ⟨[("out", .upstream (httpsBackend tls))], by simp⟩

/-- The credential of an `https` backend goes out in the clear. -/
theorem https_backend_spoken_to_in_clear :
    ∃ s book', compileChecked (fun _ => none) (fun _ => .error "") .keep (httpsSnapshot false) "n1" none =
        .ok (s, book') ∧
      ⟨⟨.http, "p.example:443", some "u", some "p", false, false⟩, false,
          utf8Bytes ("CONNECT a.example:80 HTTP/1.1\r\nHost: a.example:80\r\n" ++
            "Proxy-Authorization: Basic dTpw\r\nProxy-Connection: keep-alive\r\n\r\n").toList⟩ ∈
        (connect (fun _ => "dTpw") silent (s.decideWithSniff "alice" "a.example" none).decision
          "a.example" 80).1 := by
  have hok : (compileChecked (fun _ => none) (fun _ => .error "") .keep (httpsSnapshot false) "n1" none).isOk =
      true := by decide +kernel
  obtain ⟨⟨s, book'⟩, hs⟩ := Res.exists_of_isOk hok
  refine ⟨s, book', hs, ?_⟩
  rw [(compileChecked_spec hs).decideWithSniff]
  decide +kernel

theorem https_backend_never_in_clear_iff_tls :
    ∃ s book', compileChecked (fun _ => none) (fun _ => .error "") .keep (httpsSnapshot true) "n1" none =
        .ok (s, book') ∧
      ∀ course, ¬ InClear ⟨.http, "p.example:443", some "u", some "p", true, false⟩
        (connect (fun _ => "dTpw") course (s.decideWithSniff "alice" "a.example" none).decision
          "a.example" 80) := by
  have hok : (compileChecked (fun _ => none) (fun _ => .error "") .keep (httpsSnapshot true) "n1" none).isOk =
      true := by decide +kernel
  obtain ⟨⟨s, book'⟩, hs⟩ := Res.exists_of_isOk hok
  have hroute : (s.decideWithSniff "alice" "a.example" none).matchedRoute = none := by
    rw [(compileChecked_spec hs).decideWithSniff]
    decide +kernel
  have hiff := https_backend_never_in_clear_iff (fun _ => "dTpw") (fun _ => none) (fun _ => .error "") .keep
    (httpsSnapshot true) "n1" none book' s hs "alice" _ rfl _ rfl "a.example" 80 none
    "out" (by rw [hroute]; rfl) _ rfl
    (httpsBackend true) mem_cons_self (by decide +kernel)
  exact ⟨s, book', hs, fun course => hiff.2 (.inl rfl) course _ (by decide +kernel)⟩

end Rove.Outbound
