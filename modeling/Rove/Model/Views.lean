/-
What a node shows of its users and its decisions: the view of a user's policy
(`user_policy`, which MQTT replies carry) and the labels that are logged. A
secret reaches neither: decisions are computed from the redacted tables as well
as from the tables themselves (`Reference.actionDecision_redact`), and views and
labels do not tell a decision from its redacted form.
-/
import Rove.Model.NodeIndependence
import Rove.Outbound.Connect

namespace Rove.Model

open List
open Policy (LoadedBook)

structure ChainMemberView where
  id : Str
  priority : BitVec 32
  kind : Str
  addr : Str
  tls : Bool
  auth : Bool

structure UpstreamView where
  kind : Str
  addr : Str
  tls : Bool
  auth : Bool
  members : Option (List ChainMemberView)

structure EgressView where
  id : Str
  upstream : UpstreamView

structure ActionView where
  action : Str
  egress : Option EgressView

structure RouteView where
  selectors : List Str
  action : ActionView

structure RoutingPolicyView where
  id : Str
  routes : List RouteView
  defaultAction : ActionView

structure UserPolicyView where
  username : Str
  expire : Option Str
  policy : Str
  upRate : BitVec 64
  downRate : BitVec 64
  maxConnections : BitVec 64
  routingPolicy : Option RoutingPolicyView

def upstreamKindName : UpstreamKind → Str
  | .http => "http"
  | .socks5 => "socks5"
  | .reverse => "reverse"
  | .subnetra => "subnetra"

def Upstream.auth (up : Upstream) : Bool := up.username.isSome || up.password.isSome

/-- `From<&Upstream>`. -/
def UpstreamView.ofUpstream (up : Upstream) : UpstreamView := ⟨upstreamKindName up.kind, up.addr, up.tls, up.auth, none⟩

def ChainMemberView.ofMember (m : ChainMember) : ChainMemberView :=
  ⟨m.id, m.priority, upstreamKindName m.upstream.kind, m.upstream.addr, m.upstream.tls, m.upstream.auth⟩

def UpstreamView.fromChain (chain : Chain) : UpstreamView where
  kind := "chain"
  addr := chain.id
  tls := false
  auth := false
  members := some (chain.members.map .ofMember)

def Egress.view (e : Egress) : EgressView :=
  match e.kind with
  | .upstream up => ⟨e.id, .ofUpstream up⟩
  | .chain chain => ⟨e.id, .fromChain chain⟩

def ActionView.build : RouteAction → ActionView
  | .egress e => ⟨"egress", some e.view⟩
  | .direct => ⟨"direct", none⟩
  | .block => ⟨"block", none⟩

def RouteView.build (route : Route) : RouteView := ⟨route.selectorRules, .build route.action⟩

def RoutingPolicyView.build (id : Str) (policy : RoutingPolicy) : RoutingPolicyView :=
  ⟨id, policy.routes.map .build, .build policy.defaultAction⟩

/-- `formatDate` prints a date as `%Y-%m-%d`. -/
def Snapshot.userPolicy (formatDate : NaiveDate → Str) (s : Snapshot) (username : Str) : Option UserPolicyView :=
  (s.users.get? username).map fun user =>
    { username, expire := user.expire.map formatDate, policy := user.policy, upRate := user.upRate
      downRate := user.downRate, maxConnections := user.maxConnections
      routingPolicy := (s.policies.get? user.policy).map (.build user.policy) }

def decisionLabel : Decision → Str
  | .direct => "direct"
  | .via up => Outbound.egressLabel up
  | .viaChain chain => "chain:" ++ chain.id
  | .block => "block"

/-- The labels of the upstreams a decision may be served by. -/
def egressLabels : Decision → List Str
  | .via up => [Outbound.egressLabel up]
  | .viaChain chain => chain.members.map fun m => Outbound.egressLabel m.upstream
  | _ => []

/-! ## Redaction -/

/-- That there is a secret, and nothing of it. -/
def hidden (secret : Option Str) : Option Str := secret.map fun _ => []

def RawUpstream.redact (u : RawUpstream) : RawUpstream :=
  { u with username := hidden u.username, password := hidden u.password }

def RawChainMember.redact (m : RawChainMember) : RawChainMember := { m with backend := m.backend.redact }

def RawEgress.redact : RawEgress → RawEgress
  | .upstream backend => .upstream backend.redact
  | .chain members => .chain (members.map (·.redact))

/-- A user without password and front-end credentials. -/
def RawUser.redact (u : RawUser) : RawUser := { u with password := [], frontends := ∅ }

def Upstream.redact (up : Upstream) : Upstream :=
  { up with username := hidden up.username, password := hidden up.password }

def ChainMember.redact (m : ChainMember) : ChainMember := { m with upstream := m.upstream.redact }

def Chain.redact (c : Chain) : Chain := { c with members := c.members.map (·.redact) }

def Decision.redact : Decision → Decision
  | .via up => .via up.redact
  | .viaChain chain => .viaChain chain.redact
  | d => d

/-- Two snapshots that differ in secrets at most. -/
structure SameButSecrets (raw raw' : RawSnapshot) : Prop where
  users : ∀ name, (raw.users.get? name).map (·.redact) = (raw'.users.get? name).map (·.redact)
  policies : ∀ id, raw.routingPolicies.get? id = raw'.routingPolicies.get? id
  egresses : ∀ id, (raw.egresses.get? id).map (·.redact) = (raw'.egresses.get? id).map (·.redact)
  overrides : ∀ node id, ((raw.nodeOverrides.get? node).bind (·.egresses.get? id)).map (·.redact) =
    ((raw'.nodeOverrides.get? node).bind (·.egresses.get? id)).map (·.redact)

/-! ## Views and labels of redacted values -/

@[simp] theorem Upstream.auth_redact (up : Upstream) : up.redact.auth = up.auth := by
  simp [Upstream.auth, Upstream.redact, hidden]

theorem UpstreamView.ofUpstream_redact (up : Upstream) : ofUpstream up.redact = ofUpstream up := by
  rw [ofUpstream, Upstream.auth_redact]
  rfl

theorem UpstreamView.fromChain_redact (chain : Chain) : fromChain chain.redact = fromChain chain := by
  have hmember : ∀ m : ChainMember, ChainMemberView.ofMember m.redact = .ofMember m := by
    intro m
    rw [ChainMemberView.ofMember, ChainMember.redact, Upstream.auth_redact]
    rfl
  rw [fromChain, fromChain, Chain.redact, map_map]
  exact congrArg (UpstreamView.mk _ _ _ _ <| some ·) (map_congr_left fun m _ => hmember m)

theorem decisionLabel_redact (d : Decision) : decisionLabel d.redact = decisionLabel d := by
  cases d <;> rfl

theorem egressLabels_redact (d : Decision) : egressLabels d.redact = egressLabels d := by
  cases d with
  | viaChain chain =>
    simp only [Decision.redact, egressLabels, Chain.redact, map_map]
    rfl
  | _ => rfl

/-- An action shows its kind and what its decision is like without secrets. -/
theorem ActionView.build_congr {a b : RouteAction} (hkind : a.kind = b.kind)
    (hdec : (routeActionDecision a).redact = (routeActionDecision b).redact) : build a = build b := by
  cases a with
  | egress e =>
    cases b with
    | egress e' =>
      obtain ⟨id, kind⟩ := e
      obtain ⟨id', kind'⟩ := e'
      obtain rfl : id = id' := DecisionKind.egress.inj hkind
      cases kind with
      | upstream up =>
        cases kind' with
        | upstream up' =>
          have hup : up.redact = up'.redact := Decision.via.inj hdec
          have hview : UpstreamView.ofUpstream up = .ofUpstream up' := by
            rw [← UpstreamView.ofUpstream_redact, hup, UpstreamView.ofUpstream_redact]
          exact congrArg (fun v => ActionView.mk _ (some ⟨id, v⟩)) hview
        | chain chain' => cases hdec
      | chain chain =>
        cases kind' with
        | upstream up' => cases hdec
        | chain chain' =>
          have hchain : chain.redact = chain'.redact := Decision.viaChain.inj hdec
          have hview : UpstreamView.fromChain chain = .fromChain chain' := by
            rw [← UpstreamView.fromChain_redact, hchain, UpstreamView.fromChain_redact]
          exact congrArg (fun v => ActionView.mk _ (some ⟨id, v⟩)) hview
    | direct => cases hkind
    | block => cases hkind
  | direct =>
    cases b with
    | direct => rfl
    | _ => cases hkind
  | block =>
    cases b with
    | block => rfl
    | _ => cases hkind

namespace Reference

theorem upstream_redact (u : RawUpstream) : upstream u.redact = (upstream u).map (·.redact) := by
  simp only [upstream, Option.map_map]
  rfl

theorem mapM_member_redact (members : List RawChainMember) :
    (members.map (·.redact)).mapM member = (members.mapM member).map (List.map (·.redact)) := by
  induction members with
  | nil => rfl
  | cons m members ih =>
    have hm : member m.redact = (member m).map (·.redact) := by
      simp only [member, RawChainMember.redact, upstream_redact, Option.map_map]
      rfl
    rw [map_cons, mapM_cons, mapM_cons, hm, ih]
    cases member m <;> cases members.mapM member <;> rfl

theorem realize_redact (id : Str) (e : RawEgress) : realize id e.redact = (realize id e).map (·.redact) := by
  cases e with
  | upstream backend => simp [RawEgress.redact, realize, upstream_redact, Function.comp_def, Decision.redact]
  | chain members =>
    have hsort : ∀ ms : List ChainMember, (sortByPriority ms).map (·.redact) = sortByPriority (ms.map (·.redact)) :=
      fun ms => map_mergeSort fun _ _ _ _ => rfl
    simp only [RawEgress.redact, realize, mapM_member_redact, Option.map_map]
    congr 1
    funext ms
    simp [Decision.redact, Chain.redact, hsort]

variable {raw raw' : RawSnapshot}

/-- What an action decides without secrets, the snapshot without secrets tells. -/
theorem actionDecision_redact (h : SameButSecrets raw raw') (nodeId : Str) (action : RawAction) :
    (actionDecision raw nodeId action).redact = (actionDecision raw' nodeId action).redact := by
  cases action with
  | egress id =>
    have hof : ∀ id, (egressOf raw nodeId id).map (·.redact) = (egressOf raw' nodeId id).map (·.redact) := by
      intro id
      rw [egressOf, egressOf, Option.map_or, Option.map_or, h.overrides, h.egresses]
    have hreal : ∀ (e : Option RawEgress) id, ((e.bind (realize id)).getD .block).redact =
        ((e.map (·.redact)).bind (realize id)).getD .block := by
      intro e id
      cases e with
      | none => rfl
      | some e =>
        rw [Option.map_some, Option.bind_some, Option.bind_some, realize_redact]
        cases realize id e <;> rfl
    rw [actionDecision, actionDecision, hreal, hreal, hof]
  | direct => rfl
  | block => rfl

end Reference

/-! ## Snapshots that differ in secrets -/

variable {parseIpNet : Str → Option IpNet} {parseDate : Str → Res NaiveDate} {book : Option AddrBook.Book}
  {raw raw' : RawSnapshot} {nodeId : Str}

theorem compileUser_eq_ok {name u fi fi' user} (h : compileUser parseDate name u fi = .ok (user, fi')) :
    ∃ expire frontends, compileExpire parseDate name u.expire = .ok expire ∧
      user = ⟨u.password, expire, u.upRate, u.downRate, u.maxConnections, u.policy, frontends⟩ := by
  obtain ⟨expire, hexpire, h⟩ := Res.bind_eq_ok.1 h
  obtain ⟨⟨frontends, _⟩, -, h⟩ := Res.bind_eq_ok.1 h
  cases h
  exact ⟨expire, frontends, hexpire, rfl⟩

theorem ActionOK.view_eq (hsame : SameButSecrets raw raw') {rawAction a b} (ha : ActionOK raw nodeId rawAction a)
    (hb : ActionOK raw' nodeId rawAction b) : ActionView.build a = ActionView.build b := by
  refine ActionView.build_congr (ha.kind.trans hb.kind.symm) ?_
  rw [ha.decision, hb.decision, Reference.actionDecision_redact hsame]

theorem PolicyOK.view_eq (hsame : SameButSecrets raw raw') {rawPolicy p p'}
    (hp : PolicyOK parseIpNet book raw nodeId rawPolicy p) (hp' : PolicyOK parseIpNet book raw' nodeId rawPolicy p')
    (id : Str) : RoutingPolicyView.build id p = RoutingPolicyView.build id p' := by
  have hroutes : ∀ {raws routes routes'}, List.Forall₂ (RouteOK parseIpNet book raw nodeId) raws routes →
      List.Forall₂ (RouteOK parseIpNet book raw' nodeId) raws routes' →
      routes.map RouteView.build = routes'.map RouteView.build := by
    intro raws routes routes' h
    induction h generalizing routes' with
    | nil =>
      rintro ⟨⟩
      rfl
    | cons hr _ ih =>
      rintro ⟨⟩
      next hr' hrest =>
      rw [map_cons, map_cons, ih hrest, RouteView.build, RouteView.build, hr.rules, hr'.rules,
        hr.action.view_eq hsame hr'.action]
  rw [RoutingPolicyView.build, RoutingPolicyView.build, hroutes hp.routes hp'.routes,
    hp.default.view_eq hsame hp'.default]

/-- Two snapshots that compile on a node and differ in secrets at most show the
same view of every user, and label every decision and the upstreams it may be
served by alike. -/
theorem views_independent_of_secrets (parseIpNet : Str → Option IpNet) (parseDate : Str → Res NaiveDate)
    (formatDate : NaiveDate → Str) (o o' : IterOrder) (raw raw' : RawSnapshot) (hsame : SameButSecrets raw raw')
    (nodeId : Str) (book book' served served' : Option LoadedBook) (hbook : book.map (·.book) = book'.map (·.book))
    (s s' : Snapshot) (h : compileChecked parseIpNet parseDate o raw nodeId book = .ok (s, served))
    (h' : compileChecked parseIpNet parseDate o' raw' nodeId book' = .ok (s', served'))
    (username requestedHost : Str) (sniffedHost : Option Str) :
    s.userPolicy formatDate username = s'.userPolicy formatDate username ∧
      let d := s.decideWithSniff username requestedHost sniffedHost
      let d' := s'.decideWithSniff username requestedHost sniffedHost
      decisionLabel d.decision = decisionLabel d'.decision ∧ egressLabels d.decision = egressLabels d'.decision := by
  have hfrom := compileChecked_spec h
  have hfrom' := compileChecked_spec h'
  rw [← hbook] at hfrom'
  have huser := hsame.users username
  cases hu : raw.users.get? username with
  | none =>
    rw [hu, eq_comm, Option.map_none, Option.map_eq_none_iff] at huser
    rw [hfrom.decideWithSniff, hfrom'.decideWithSniff, Snapshot.userPolicy, Snapshot.userPolicy,
      hfrom.users.get?_of_none hu, hfrom'.users.get?_of_none huser, Reference.decide, Reference.decide, hu, huser]
    exact ⟨rfl, rfl, rfl⟩
  | some u =>
    rw [hu, eq_comm, Option.map_some, Option.map_eq_some_iff] at huser
    obtain ⟨u', hu', hredact⟩ := huser
    obtain ⟨hexpire, hup, hdown, hmax, hpolicy⟩ : u'.expire = u.expire ∧ u'.upRate = u.upRate ∧
        u'.downRate = u.downRate ∧ u'.maxConnections = u.maxConnections ∧ u'.policy = u.policy := by
      simpa [RawUser.redact] using hredact
    -- the policy of the user, in both snapshots
    obtain ⟨_, -, -, hkey⟩ := hfrom.users.exists_get? hu
    obtain ⟨p, hp⟩ := HashMap.containsKey_iff.1 hkey
    obtain ⟨rawPolicy, hraw, hok⟩ := hfrom.policies.get?_eq_some hp
    have hraw' := (hsame.policies _).symm.trans hraw
    obtain ⟨p', hp', hok'⟩ := hfrom'.policies.exists_get? hraw'
    constructor
    · obtain ⟨_, _, _, -, -, -, husers, -⟩ := compileChecked_eq_ok h
      obtain ⟨_, _, _, -, -, -, husers', -⟩ := compileChecked_eq_ok h'
      obtain ⟨_, hget, ⟨_, _, hc⟩, -⟩ := (compileUsers_spec raw.users.nodup husers).exists_get? hu
      obtain ⟨_, hget', ⟨_, _, hc'⟩, -⟩ := (compileUsers_spec raw'.users.nodup husers').exists_get? hu'
      obtain ⟨expire, _, he, rfl⟩ := compileUser_eq_ok hc
      obtain ⟨expire', _, he', rfl⟩ := compileUser_eq_ok hc'
      rw [hexpire] at he'
      obtain rfl := Except.ok.inj (he.symm.trans he')
      simp [Snapshot.userPolicy, hget, hget', hup, hdown, hmax, hpolicy, hp, hp', hok.view_eq hsame hok']
    · have hsome : (raw.users.get? username).map (·.policy) = (raw'.users.get? username).map (·.policy) := by
        rw [hu, hu', Option.map_some, Option.map_some, hpolicy]
      obtain ⟨-, hroute, -⟩ := Reference.decide_attribution parseIpNet (book.map (·.book)) hsome hsame.policies
        nodeId nodeId requestedHost sniffedHost
      obtain ⟨action, hresp, hdec⟩ := Reference.decide_responsible parseIpNet (book.map (·.book)) hu hraw nodeId
        requestedHost sniffedHost
      obtain ⟨action', hresp', hdec'⟩ := Reference.decide_responsible parseIpNet (book.map (·.book)) hu'
        (hpolicy ▸ hraw') nodeId requestedHost sniffedHost
      rw [← hroute, hresp] at hresp'
      cases hresp'
      have hsecret := Reference.actionDecision_redact hsame nodeId action
      rw [hfrom.decideWithSniff, hfrom'.decideWithSniff]
      dsimp only
      rw [hdec, hdec']
      constructor
      · rw [← decisionLabel_redact, hsecret, decisionLabel_redact]
      · rw [← egressLabels_redact, hsecret, egressLabels_redact]

/-- One user and one egress, whose passwords are this one. -/
def secretSnapshot (secret : Str) : RawSnapshot where
  schemaVersion := 1
  version := 7
  users := ⟨[("u", { password := secret, policy := "main" })], by simp⟩
  routingPolicies := ⟨[("main", { routes := [⟨["example"], .egress "hop"⟩] })], by simp⟩
  egresses := ⟨[("hop", .upstream { kind := "http", addr := "h:1", password := some secret })], by simp⟩

theorem views_independent_of_secrets_password :
    ∃ s s' book book',
      compileChecked (fun _ => none) (fun _ => .error "") .keep (secretSnapshot "a") [] none = .ok (s, book) ∧
      compileChecked (fun _ => none) (fun _ => .error "") .keep (secretSnapshot "b") [] none = .ok (s', book') ∧
      s.userPolicy (fun _ => []) "u" = s'.userPolicy (fun _ => []) "u" := by
  obtain ⟨⟨s, book⟩, h⟩ := Res.exists_of_isOk (show (compileChecked (fun _ => none) (fun _ => .error "") .keep
    (secretSnapshot "a") [] none).isOk = true by decide +kernel)
  obtain ⟨⟨s', book'⟩, h'⟩ := Res.exists_of_isOk (show (compileChecked (fun _ => none) (fun _ => .error "") .keep
    (secretSnapshot "b") [] none).isOk = true by decide +kernel)
  have hmap : ∀ {V : Type} (k k' : Str) (f : V → V) (v w : V), f v = f w →
      ((HashMap.mk [(k, v)] (by simp)).get? k').map f = ((HashMap.mk [(k, w)] (by simp)).get? k').map f := by
    intro V k k' f v w hf
    by_cases hk : k = k' <;> simp [HashMap.get?, hk, hf]
  have hsame : SameButSecrets (secretSnapshot "a") (secretSnapshot "b") :=
    ⟨fun name => hmap _ name _ _ _ rfl, fun _ => rfl, fun id => hmap _ id _ _ _ rfl, fun _ _ => rfl⟩
  exact ⟨s, s', book, book', h, h', (views_independent_of_secrets _ _ (fun _ => []) _ _ _ _ hsame _ none none _ _ rfl
    s s' h h' "u" [] none).1⟩

end Rove.Model
