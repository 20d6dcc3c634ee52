/-
What a snapshot decides, read off its raw tables: the first route whose
selectors match, the egress an id stands for on this node, the precedence
between the requested and the sniffed host. Nothing is compiled here.

`decide_with_sniff_eq_reference` says that compiling a snapshot and asking
the result gives the same answer, with the same attribution.
-/
import Rove.Model.Compile
import Rove.Policy.Rule

namespace Rove.Model

open List Res
open Policy (RuleSet Rule LoadedBook)
open AddrBook (Book)

namespace Reference

/-- The upstream a backend describes. A reverse hop is named by its trimmed id. -/
def upstream (u : RawUpstream) : Option Upstream :=
  (upstreamKindOf (Str.toAsciiLowercase u.kind)).map fun kind =>
    ⟨kind, if kind = .reverse then Str.trim u.addr else u.addr, u.username, u.password, u.tls, u.skipCertVerify⟩

/-- The member a chain entry describes. -/
def member (m : RawChainMember) : Option ChainMember := (upstream m.backend).map (⟨Str.trim m.id, m.priority, ·⟩)

/-- What going through an egress means; a chain tries its members by priority. -/
def realize (id : Str) : RawEgress → Option Decision
  | .upstream backend => (upstream backend).map .via
  | .chain members => (members.mapM member).map fun ms => .viaChain ⟨id, sortByPriority ms⟩

/-- The egress an id stands for on a node: the node's override, if it has one. -/
def egressOf (raw : RawSnapshot) (nodeId id : Str) : Option RawEgress :=
  ((raw.nodeOverrides.get? nodeId).bind (·.egresses.get? id)).or (raw.egresses.get? id)

def actionDecision (raw : RawSnapshot) (nodeId : Str) : RawAction → Decision
  | .egress id => ((egressOf raw nodeId (Str.trim id)).bind (realize (Str.trim id))).getD .block
  | .direct => .direct
  | .block => .block

/-- The first route, in declaration order, that has a selector matching the host. -/
def firstRoute (parseIpNet : Str → Option IpNet) (book : Option Book) (p : RawRoutingPolicy) (host : Str) :
    Option (Nat × RawAction) :=
  (p.routes.zipIdx.find? fun (r, _) => r.selectors.any fun s => (Rule.ofText parseIpNet s).matchesHost book host).map
    fun (r, i) => (i, r.action)

def blockRoute : Option (Nat × RawAction) → Option Nat
  | some (i, .block) => some i
  | _ => none

def decide (parseIpNet : Str → Option IpNet) (book : Option Book) (raw : RawSnapshot) (nodeId : Str)
    (username requestedHost : Str) (sniffedHost : Option Str) : ResolvedDecision :=
  match raw.users.get? username with
  | none => ⟨.block, requestedHost, raw.version, none, none⟩
  | some user =>
    match raw.routingPolicies.get? user.policy with
    | none => ⟨.block, requestedHost, raw.version, none, none⟩
    | some policy =>
      let verdict (action : RawAction) (host : Str) (route : Option Nat) : ResolvedDecision :=
        ⟨actionDecision raw nodeId action, host, raw.version, some user.policy, route⟩
      let requested := firstRoute parseIpNet book policy requestedHost
      let sniffed := sniffedHost.bind fun host => (firstRoute parseIpNet book policy host).map (host, ·)
      match blockRoute requested with
      | some i => verdict .block requestedHost (some i)
      | none =>
        match sniffed.bind fun (host, found) => (blockRoute (some found)).map (host, ·) with
        | some (host, i) => verdict .block host (some i)
        | none =>
          match (if (parseIpAddr requestedHost).isSome then sniffed else none), requested with
          | some (host, i, action), _ => verdict action host (some i)
          | none, some (i, action) => verdict action requestedHost (some i)
          | none, none => verdict (policy.defaultAction.getD .direct) requestedHost none

end Reference

/-- What a decision comes to before any egress table is consulted. -/
inductive DecisionKind where
  | block
  | direct
  | egress (id : Str)

def RouteAction.kind : RouteAction → DecisionKind
  | .egress e => .egress e.id
  | .direct => .direct
  | .block => .block

def RawAction.kind : RawAction → DecisionKind
  | .egress id => .egress (Str.trim id)
  | .direct => .direct
  | .block => .block

/-! ## Egresses -/

theorem compileUpstream_spec {context u up}
    (h : compileUpstream context u = .ok up) : Reference.upstream u = some up := by
  unfold compileUpstream at h
  unfold Reference.upstream
  split at h
  · cases h
  · next hk =>
    obtain ⟨-, h⟩ := ensure_bind_eq_ok.1 h
    obtain ⟨⟨hu, hp⟩, h⟩ := ensure_bind_eq_ok.1 h
    obtain ⟨⟨ht, hs⟩, h⟩ := ensure_bind_eq_ok.1 h
    cases h
    simp [hk, hu, hp, ht, hs]
  · next hk =>
    obtain ⟨⟨hu, hp⟩, h⟩ := ensure_bind_eq_ok.1 h
    obtain ⟨⟨ht, hs⟩, h⟩ := ensure_bind_eq_ok.1 h
    cases h
    simp [hk, hu, hp, ht, hs]
  · next kind hr _ hk =>
    cases h
    have hne : kind ≠ .reverse := hr
    simp [hk, hne]

variable {id nodeId : Str} {raw : RawSnapshot} {o : IterOrder} {egresses : HashMap Str Egress}
  {parseIpNet : Str → Option IpNet} {rawRoutes : List RawRoute} {routes : List Route} {book : Option Book}
  {parseDate : Str → Res NaiveDate} {s : Snapshot}

theorem compileMembers_spec {raws ids ps ms} (h : compileMembers id raws ids ps = .ok ms) :
    raws.mapM Reference.member = some ms := by
  induction raws generalizing ids ps ms with
  | nil =>
    cases h
    rfl
  | cons m raws ih =>
    obtain ⟨-, h⟩ := ensure_bind_eq_ok.1 h
    obtain ⟨-, h⟩ := ensure_bind_eq_ok.1 h
    obtain ⟨-, h⟩ := ensure_bind_eq_ok.1 h
    obtain ⟨-, h⟩ := ensure_bind_eq_ok.1 h
    obtain ⟨up, hup, h⟩ := bind_eq_ok.1 h
    obtain ⟨rest, hrest, h⟩ := bind_eq_ok.1 h
    cases h
    simp [mapM_cons, Reference.member, compileUpstream_spec hup, ih hrest]

/-- A compiled egress carries its id, and decides what its raw form means. -/
theorem compileEgress_spec {rawEgress e}
    (h : compileEgress id rawEgress = .ok e) :
    e.id = id ∧ Reference.realize id rawEgress = some e.decision := by
  cases rawEgress with
  | upstream backend =>
    obtain ⟨-, h⟩ := ensure_bind_eq_ok.1 h
    obtain ⟨up, hup, h⟩ := bind_eq_ok.1 h
    cases h
    exact ⟨rfl, by simp [Reference.realize, compileUpstream_spec hup, Egress.decision]⟩
  | chain members =>
    obtain ⟨chain, hchain, h⟩ := bind_eq_ok.1 h
    cases h
    obtain ⟨-, h⟩ := ensure_bind_eq_ok.1 hchain
    obtain ⟨-, h⟩ := ensure_bind_eq_ok.1 h
    obtain ⟨-, h⟩ := ensure_bind_eq_ok.1 h
    obtain ⟨ms, hms, h⟩ := bind_eq_ok.1 h
    cases h
    exact ⟨rfl, by simp [Reference.realize, compileMembers_spec hms, Egress.decision]⟩

theorem replaceEgresses_spec {es base m}
    (hnd : (es.map Prod.fst).Nodup) (h : replaceEgresses es base = .ok m) :
    HashMap.Filled (fun _ v w => v = w) es base m := by
  induction es generalizing base with
  | nil =>
    cases h
    exact .nil
  | cons e es ih =>
    obtain ⟨id, egress⟩ := e
    obtain ⟨hid, hnd⟩ := nodup_cons.1 hnd
    obtain ⟨-, h⟩ := ensure_bind_eq_ok.1 h
    obtain ⟨-, h⟩ := ensure_bind_eq_ok.1 h
    exact .cons hid rfl (ih hnd h)

/-- The egress table of a node holds the override of an id, or else its base egress. -/
theorem nodeEgresses_get? {m}
    (h : nodeEgresses raw nodeId = .ok m) (id : Str) : m.get? id = Reference.egressOf raw nodeId id := by
  unfold nodeEgresses at h
  unfold Reference.egressOf
  cases ho : raw.nodeOverrides.get? nodeId with
  | none =>
    rw [ho] at h
    cases h
    simp
  | some ov =>
    rw [ho] at h
    have hfill := replaceEgresses_spec ov.egresses.nodup h
    cases hg : ov.egresses.get? id with
    | none => simp [hfill.get?_of_none hg, hg]
    | some e =>
      obtain ⟨w, hw, rfl⟩ := hfill.exists_get? hg
      simp [hw, hg]

theorem compileEgresses_spec {es base m}
    (hnd : (es.map Prod.fst).Nodup) (h : compileEgresses es base = .ok m) :
    HashMap.Filled (fun id r e => e.id = id ∧ Reference.realize id r = some e.decision) es base m := by
  induction es generalizing base with
  | nil =>
    cases h
    exact .nil
  | cons e es ih =>
    obtain ⟨id, rawEgress⟩ := e
    obtain ⟨hid, hnd⟩ := nodup_cons.1 hnd
    obtain ⟨-, h⟩ := ensure_bind_eq_ok.1 h
    obtain ⟨egress, he, h⟩ := bind_eq_ok.1 h
    exact .cons hid (compileEgress_spec he) (ih hnd h)

/-! ## Actions and routes -/

/-- Every egress of the compiled table carries its id and decides what the raw tables mean. -/
def EgressesOK (raw : RawSnapshot) (nodeId : Str) (egresses : HashMap Str Egress) : Prop :=
  ∀ id e, egresses.get? id = some e → e.id = id ∧
    (Reference.egressOf raw nodeId id).bind (Reference.realize id) = some e.decision

theorem egressesOK_of_compile
    {rawEgresses}
    (hnode : nodeEgresses raw nodeId = .ok rawEgresses)
    (h : compileEgresses (o.run rawEgresses.entries) ∅ = .ok egresses) : EgressesOK raw nodeId egresses := by
  intro id e he
  have hnd : ((o.run rawEgresses.entries).map Prod.fst).Nodup :=
    ((o.perm rawEgresses.entries).map Prod.fst).nodup_iff.2 rawEgresses.nodup
  obtain ⟨r, hr, hid, hreal⟩ := ((compileEgresses_spec hnd h).perm (o.perm _)).get?_eq_some he
  refine ⟨hid, ?_⟩
  rw [← nodeEgresses_get? hnode, hr]
  exact hreal

/-- A compiled action decides what the raw one does, and is of its kind. -/
structure ActionOK (raw : RawSnapshot) (nodeId : Str) (rawAction : RawAction) (action : RouteAction) : Prop where
  decision : routeActionDecision action = Reference.actionDecision raw nodeId rawAction
  kind : action.kind = rawAction.kind

theorem compileAction_spec
    (heg : EgressesOK raw nodeId egresses) {context rawAction action}
    (h : compileAction egresses context rawAction = .ok action) : ActionOK raw nodeId rawAction action := by
  cases rawAction with
  | egress id =>
    obtain ⟨-, h⟩ := ensure_bind_eq_ok.1 h
    split at h
    · next e he =>
      cases h
      obtain ⟨hid, hreal⟩ := heg _ _ he
      exact ⟨by simp [routeActionDecision, Reference.actionDecision, hreal], congrArg DecisionKind.egress hid⟩
    · cases h
  | direct =>
    cases h
    exact ⟨rfl, rfl⟩
  | block =>
    cases h
    exact ⟨rfl, rfl⟩

/-- A compiled route matches the hosts its selectors mean, and acts as its raw action. -/
structure RouteOK (parseIpNet : Str → Option IpNet) (book : Option Book) (raw : RawSnapshot) (nodeId : Str)
    (rawRoute : RawRoute) (route : Route) : Prop where
  rules : route.selectorRules = rawRoute.selectors
  selectors : ∀ host, route.selectors.matchesHost host =
    rawRoute.selectors.any fun s => (Rule.ofText parseIpNet s).matchesHost book host
  action : ActionOK raw nodeId rawRoute.action route.action

theorem accountBookSelector_spec {rules st st' limit}
    (h : accountBookSelector rules st limit = .ok st') : st'.book = st.book ∧ st'.totalRules = st.totalRules := by
  unfold accountBookSelector at h
  split at h
  · cases h
    exact ⟨rfl, rfl⟩
  · split at h
    · cases h
      exact ⟨rfl, rfl⟩
    · obtain ⟨-, h⟩ := ensure_bind_eq_ok.1 h
      obtain ⟨-, h⟩ := ensure_bind_eq_ok.1 h
      cases h
      exact ⟨rfl, rfl⟩

/-- Compiling routes keeps them in order, each meaning what it says, against a
book that stays the same. Every route has a selector, so the rule limit also
bounds the routes. -/
theorem compileRoutes_spec (heg : EgressesOK raw nodeId egresses)
    {idx st st'}
    (h : compileRoutes parseIpNet egresses id rawRoutes idx st = .ok (routes, st')) :
    List.Forall₂ (RouteOK parseIpNet (st.book.map (·.book)) raw nodeId) rawRoutes routes ∧
      st'.book.map (·.book) = st.book.map (·.book) ∧
      st.totalRules + routes.length ≤ st'.totalRules ∧
      (st.totalRules ≤ maxSnapshotRules → st'.totalRules ≤ maxSnapshotRules) := by
  induction rawRoutes generalizing idx st routes with
  | nil =>
    cases h
    exact ⟨.nil, rfl, by simp, fun h => h⟩
  | cons rawRoute rest ih =>
    obtain ⟨hpos, h⟩ := ensure_bind_eq_ok.1 h
    obtain ⟨hmax, h⟩ := ensure_bind_eq_ok.1 h
    obtain ⟨⟨selectors, book⟩, hsel, h⟩ := bind_eq_ok.1 h
    obtain ⟨st₁, hacc, h⟩ := bind_eq_ok.1 h
    obtain ⟨action, haction, h⟩ := bind_eq_ok.1 h
    obtain ⟨⟨routes', st₂⟩, hrest, h⟩ := bind_eq_ok.1 h
    cases h
    obtain ⟨hbook, hmatch⟩ := Policy.fromRules_matchesHost (mapError_eq_ok.1 hsel)
    obtain ⟨hbook₁, htotal₁⟩ := accountBookSelector_spec (mapError_eq_ok.1 hacc)
    have hb : st₁.book.map (·.book) = st.book.map (·.book) := by rw [hbook₁, hbook]
    obtain ⟨hroutes, hbook₂, hlen, hle⟩ := ih hrest
    rw [hb] at hroutes hbook₂
    refine ⟨.cons ⟨rfl, fun host => ?_, compileAction_spec heg haction⟩ hroutes, hbook₂, ?_, fun _ => hle ?_⟩
    · rw [Bool.eq_iff_iff, hmatch, any_eq_true]
    · have hmin : min (2 ^ 64 - 1) (st.totalRules + (rawRoute.selectors.filter fun s => Str.trim s ≠ []).length) ≤
          maxSnapshotRules := hmax
      have hone : st₁.totalRules = min (2 ^ 64 - 1)
        (st.totalRules + (rawRoute.selectors.filter fun s => Str.trim s ≠ []).length) := htotal₁
      simp only [maxSnapshotRules] at hmin
      rw [length_cons]
      omega
    · rw [htotal₁]
      exact hmax

/-! ## Policies -/

/-- What a compiled lookup found stands for what the raw one found. -/
def FoundOK (raw : RawSnapshot) (nodeId : Str) : Option (Nat × RawAction) → Option (Nat × RouteAction) → Prop
  | none, none => True
  | some (i, rawAction), some (j, action) => i = j ∧ ActionOK raw nodeId rawAction action
  | _, _ => False

theorem foundOK_find
    (h : List.Forall₂ (RouteOK parseIpNet book raw nodeId) rawRoutes routes) (host : Str) (n : Nat) :
    FoundOK raw nodeId
      (((rawRoutes.zipIdx n).find? fun (r, _) => r.selectors.any fun s =>
        (Rule.ofText parseIpNet s).matchesHost book host).map fun (r, i) => (i, r.action))
      (((routes.zipIdx n).find? fun (r, _) => r.selectors.matchesHost host).map fun (r, i) => (i, r.action)) := by
  induction h generalizing n with
  | nil => trivial
  | cons hr _ ih =>
    simp only [zipIdx_cons, find?_cons, hr.selectors host]
    split
    · exact ⟨rfl, hr.action⟩
    · exact ih (n + 1)

/-- A compiled policy has the routes of its raw form, finds those it means, and
falls back to the same default. -/
structure PolicyOK (parseIpNet : Str → Option IpNet) (book : Option Book) (raw : RawSnapshot) (nodeId : Str)
    (rawPolicy : RawRoutingPolicy) (policy : RoutingPolicy) : Prop where
  found : ∀ host, FoundOK raw nodeId (Reference.firstRoute parseIpNet book rawPolicy host) (policy.firstMatch host)
  routes : List.Forall₂ (RouteOK parseIpNet book raw nodeId) rawPolicy.routes policy.routes
  default : ActionOK raw nodeId (rawPolicy.defaultAction.getD .direct) policy.defaultAction

theorem compileDefault_spec
    (heg : EgressesOK raw nodeId egresses) {rawDefault action}
    (h : compileDefault egresses id rawDefault = .ok action) :
    ActionOK raw nodeId (rawDefault.getD .direct) action := by
  cases rawDefault with
  | none =>
    cases h
    exact ⟨rfl, rfl⟩
  | some rawAction => exact compileAction_spec heg h

theorem compilePolicies_spec (heg : EgressesOK raw nodeId egresses)
    {es} (hnd : (es.map Prod.fst).Nodup)
    {base m st st'} (hst : st.totalRules ≤ maxSnapshotRules)
    (h : compilePolicies parseIpNet o egresses es base st = .ok (m, st')) :
    HashMap.Filled (fun _ => PolicyOK parseIpNet (st.book.map (·.book)) raw nodeId) es base m := by
  induction es generalizing base st with
  | nil =>
    cases h
    exact .nil
  | cons e es ih =>
    obtain ⟨id, rawPolicy⟩ := e
    obtain ⟨hid, hnd⟩ := nodup_cons.1 hnd
    obtain ⟨-, h⟩ := ensure_bind_eq_ok.1 h
    obtain ⟨defaultAction, hdefault, h⟩ := bind_eq_ok.1 h
    obtain ⟨⟨routes, st₁⟩, hroutes, h⟩ := bind_eq_ok.1 h
    obtain ⟨hall, hbook, hlen, hle⟩ := compileRoutes_spec heg hroutes
    have hfew : routes.length < Policy.u32Max := by
      have := hle hst
      simp only [maxSnapshotRules, Policy.u32Max] at this ⊢
      omega
    have hrest := ih hnd (hle hst) h
    rw [hbook] at hrest
    refine .cons hid ⟨fun host => ?_, hall, compileDefault_spec heg hdefault⟩ hrest
    rw [firstMatch_fromRoutes o routes defaultAction hfew host]
    exact foundOK_find hall host 0

/-! ## Users -/

theorem compileUser_policy {name u fi fi' user}
    (h : compileUser parseDate name u fi = .ok (user, fi')) : user.policy = u.policy := by
  obtain ⟨expire, -, h⟩ := bind_eq_ok.1 h
  obtain ⟨⟨frontends, fi₁⟩, -, h⟩ := bind_eq_ok.1 h
  cases h
  rfl

/-- Every user is compiled, against a policy that is there. -/
theorem compileUsers_spec {policies es} (hnd : (es.map Prod.fst).Nodup) {base m fi fi'}
    (h : compileUsers parseDate policies es base fi = .ok (m, fi')) :
    HashMap.Filled (fun name u user => (∃ fi fi', compileUser parseDate name u fi = .ok (user, fi')) ∧
      policies.containsKey u.policy = true) es base m := by
  induction es generalizing base fi with
  | nil =>
    cases h
    exact .nil
  | cons e es ih =>
    obtain ⟨name, u⟩ := e
    obtain ⟨hid, hnd⟩ := nodup_cons.1 hnd
    obtain ⟨-, h⟩ := ensure_bind_eq_ok.1 h
    obtain ⟨hpol, h⟩ := ensure_bind_eq_ok.1 h
    obtain ⟨⟨user, fi₁⟩, huser, h⟩ := bind_eq_ok.1 h
    exact .cons hid ⟨⟨_, _, huser⟩, hpol⟩ (ih hnd h)

/-! ## Decisions -/

/-- What a snapshot compiled from raw tables holds, as far as deciding goes. -/
structure CompiledFrom (parseIpNet : Str → Option IpNet) (book : Option Book) (raw : RawSnapshot) (nodeId : Str)
    (s : Snapshot) : Prop where
  version : s.version = raw.version
  policies : HashMap.Filled (fun _ => PolicyOK parseIpNet book raw nodeId) raw.routingPolicies.entries ∅ s.policies
  users : HashMap.Filled (fun _ u user => user.policy = u.policy ∧ s.policies.containsKey u.policy = true)
    raw.users.entries ∅ s.users

/-- The tables a snapshot that compiles was made of. -/
theorem compileChecked_eq_ok {book book'}
    (h : compileChecked parseIpNet parseDate o raw nodeId book = .ok (s, book')) :
    ∃ rawEgresses egresses st, nodeEgresses raw nodeId = .ok rawEgresses ∧
      compileEgresses (o.run rawEgresses.entries) ∅ = .ok egresses ∧
      compilePolicies parseIpNet o egresses raw.routingPolicies.entries ∅ { book := pruneBook book } =
        .ok (s.policies, st) ∧
      compileUsers parseDate s.policies raw.users.entries ∅ ∅ = .ok (s.users, s.frontendIndex) ∧
      s.version = raw.version := by
  obtain ⟨-, h⟩ := ensure_bind_eq_ok.1 h
  obtain ⟨-, h⟩ := ensure_bind_eq_ok.1 h
  obtain ⟨-, h⟩ := ensure_bind_eq_ok.1 h
  obtain ⟨-, h⟩ := ensure_bind_eq_ok.1 h
  obtain ⟨-, h⟩ := ensure_bind_eq_ok.1 h
  obtain ⟨rawEgresses, hnode, h⟩ := bind_eq_ok.1 h
  obtain ⟨-, h⟩ := ensure_bind_eq_ok.1 h
  obtain ⟨egresses, hegr, h⟩ := bind_eq_ok.1 h
  obtain ⟨⟨policies, st⟩, hpol, h⟩ := bind_eq_ok.1 h
  obtain ⟨⟨users, fi⟩, husers, h⟩ := bind_eq_ok.1 h
  cases h
  exact ⟨rawEgresses, egresses, st, hnode, hegr, hpol, husers, rfl⟩

theorem compileChecked_spec {book book'}
    (h : compileChecked parseIpNet parseDate o raw nodeId book = .ok (s, book')) :
    CompiledFrom parseIpNet (book.map (·.book)) raw nodeId s := by
  obtain ⟨_, _, _, hnode, hegr, hpol, husers, hversion⟩ := compileChecked_eq_ok h
  have heg := egressesOK_of_compile hnode hegr
  have hbook : (pruneBook book).map (·.book) = book.map (·.book) := by cases book <;> rfl
  have hpolicies := compilePolicies_spec heg raw.routingPolicies.nodup (by simp) hpol
  rw [hbook] at hpolicies
  refine ⟨hversion, hpolicies, (compileUsers_spec raw.users.nodup husers).imp ?_⟩
  rintro name u user ⟨⟨_, _, huser⟩, hkey⟩
  exact ⟨compileUser_policy huser, hkey⟩

theorem FoundOK.cases {found found'} (h : FoundOK raw nodeId found found') :
    (found = none ∧ found' = none) ∨
      ∃ i rawAction action, found = some (i, rawAction) ∧ found' = some (i, action) ∧
        ActionOK raw nodeId rawAction action := by
  cases found with
  | none =>
    cases found' with
    | none => exact .inl ⟨rfl, rfl⟩
    | some e => exact h.elim
  | some e =>
    cases found' with
    | none => exact h.elim
    | some e' =>
      obtain ⟨i, rawAction⟩ := e
      obtain ⟨j, action⟩ := e'
      obtain ⟨rfl, haction⟩ := h
      exact .inr ⟨i, rawAction, action, rfl, rfl, haction⟩

theorem FoundOK.blockAt {found found'} (h : FoundOK raw nodeId found found') :
    Model.blockAt found' = Reference.blockRoute found := by
  obtain ⟨rfl, rfl⟩ | ⟨i, rawAction, action, rfl, rfl, -, hkind⟩ := h.cases
  · rfl
  · cases rawAction <;> cases action <;>
      simp_all [Model.blockAt, Reference.blockRoute, RouteAction.kind, RawAction.kind]

theorem CompiledFrom.decideWithSniff (h : CompiledFrom parseIpNet book raw nodeId s)
    (username requestedHost : Str) (sniffedHost : Option Str) :
    s.decideWithSniff username requestedHost sniffedHost =
      Reference.decide parseIpNet book raw nodeId username requestedHost sniffedHost := by
  unfold Snapshot.decideWithSniff Reference.decide
  rw [h.version]
  cases hu : raw.users.get? username with
  | none =>
    have hnone := h.users.get?_of_none hu
    rw [HashMap.get?_empty] at hnone
    simp only [hnone]
  | some u =>
    obtain ⟨user, huser, hpolicy, hkey⟩ := h.users.exists_get? hu
    obtain ⟨policy, hp⟩ := HashMap.containsKey_iff.1 hkey
    obtain ⟨rawPolicy, hraw, hok⟩ := h.policies.get?_eq_some hp
    simp only [huser, hpolicy, hp, hraw, (hok.found requestedHost).blockAt]
    cases Reference.blockRoute (Reference.firstRoute parseIpNet book rawPolicy requestedHost) with
    | some i => rfl
    | none =>
      -- what the sniffed host found: nothing to ask, nothing found, or a route
      cases sniffedHost with
      | none =>
        obtain ⟨hr, hr'⟩ | ⟨i, ra, a, hr, hr', ha⟩ := (hok.found requestedHost).cases
        · simp [hr, hr', hok.default.decision]
        · simp [hr, hr', ha.decision]
      | some host =>
        have hb := (hok.found host).blockAt
        obtain ⟨hs, hs'⟩ | ⟨j, rb, b, hs, hs', hbok⟩ := (hok.found host).cases
        · obtain ⟨hr, hr'⟩ | ⟨i, ra, a, hr, hr', ha⟩ := (hok.found requestedHost).cases
          · simp [hs, hs', hr, hr', hok.default.decision, Model.blockAt]
          · simp [hs, hs', hr, hr', ha.decision, Model.blockAt]
        · rw [hs, hs'] at hb
          simp only [hs, hs', Option.map_some, Option.bind_some, hb]
          cases Reference.blockRoute (some (j, rb)) with
          | some i => rfl
          | none =>
            obtain ⟨hr, hr'⟩ | ⟨i, ra, a, hr, hr', ha⟩ := (hok.found requestedHost).cases
            · cases (parseIpAddr requestedHost).isSome <;> simp [hr, hr', hok.default.decision, hbok.decision]
            · cases (parseIpAddr requestedHost).isSome <;> simp [hr, hr', ha.decision, hbok.decision]

namespace Reference

variable {raw : RawSnapshot}

/-- An egress that an action of a compiled policy names is there, and decides. -/
theorem exists_realize {nodeId id action}
    (h : ActionOK raw nodeId (.egress id) action) :
    ∃ e d, egressOf raw nodeId (Str.trim id) = some e ∧ realize (Str.trim id) e = some d := by
  cases hb : (egressOf raw nodeId (Str.trim id)).bind (realize (Str.trim id)) with
  | some d =>
    obtain ⟨e, he, hd⟩ := Option.bind_eq_some_iff.1 hb
    exact ⟨e, d, he, hd⟩
  | none =>
    -- the compiled action would have to decide to block, which only a block does
    have hdec := h.decision
    simp only [actionDecision, hb, Option.getD_none] at hdec
    cases action with
    | egress e => cases hk : e.kind <;> simp [routeActionDecision, Egress.decision, hk] at hdec
    | direct => cases hdec
    | block => cases h.kind

/-- Only a direct action decides direct: an egress never stands for it. -/
theorem actionDecision_direct {nodeId action}
    (h : actionDecision raw nodeId action = .direct) : action = .direct := by
  cases action with
  | direct => rfl
  | block => cases h
  | egress id =>
    unfold actionDecision at h
    cases he : egressOf raw nodeId (Str.trim id) with
    | none => simp [he] at h
    | some e =>
      cases e with
      | upstream backend => cases hu : upstream backend <;> simp [he, realize, hu] at h
      | chain members => cases hm : members.mapM member <;> simp [he, realize, hm] at h

theorem firstRoute_eq_some {parseIpNet book p host i action}
    (h : firstRoute parseIpNet book p host = some (i, action)) :
    p.routes[i]?.map (·.action) = some action := by
  obtain ⟨⟨r, j⟩, hf, he⟩ := Option.map_eq_some_iff.1 h
  obtain ⟨rfl, rfl⟩ := Prod.mk.inj he
  have hr : p.routes[j]? = some r := mem_zipIdx_iff_getElem?.1 (mem_of_find?_eq_some hf)
  rw [hr]
  rfl

/-- The action the raw tables hold a decision responsible to: that of the
matched route, or else the policy's default. -/
def responsible (p : RawRoutingPolicy) : Option Nat → Option RawAction
  | some i => p.routes[i]?.map (·.action)
  | none => some (p.defaultAction.getD .direct)

theorem blockRoute_eq_some {found i} (h : blockRoute found = some i) :
    found = some (i, .block) := by
  unfold blockRoute at h
  split at h
  · rw [Option.some.inj h]
  · cases h

/-- A user's decision is what the responsible action of the user's policy decides. -/
theorem decide_responsible (parseIpNet : Str → Option IpNet) (book : Option Book)
    {username user policy} (hu : raw.users.get? username = some user)
    (hp : raw.routingPolicies.get? user.policy = some policy) (nodeId requestedHost : Str) (sniffedHost : Option Str) :
    let d := decide parseIpNet book raw nodeId username requestedHost sniffedHost
    ∃ action, responsible policy d.matchedRoute = some action ∧ d.decision = actionDecision raw nodeId action := by
  unfold decide
  simp only [hu, hp]
  split
  · next i hb => exact ⟨.block, firstRoute_eq_some (blockRoute_eq_some hb), rfl⟩
  · split
    · next host i hb =>
      obtain ⟨⟨host', found⟩, hs, hb⟩ := Option.bind_eq_some_iff.1 hb
      obtain ⟨j, hj, he⟩ := Option.map_eq_some_iff.1 hb
      cases he
      obtain ⟨host, -, hf⟩ := Option.bind_eq_some_iff.1 hs
      obtain ⟨found', hroute, he⟩ := Option.map_eq_some_iff.1 hf
      cases he
      obtain rfl := Option.some.inj (blockRoute_eq_some hj)
      exact ⟨.block, firstRoute_eq_some hroute, rfl⟩
    · split
      · next host i action hs =>
        refine ⟨action, ?_, rfl⟩
        split at hs
        · obtain ⟨host', -, hf⟩ := Option.bind_eq_some_iff.1 hs
          obtain ⟨found, hroute, he⟩ := Option.map_eq_some_iff.1 hf
          cases he
          exact firstRoute_eq_some hroute
        · cases hs
      · next i action _ hr => exact ⟨action, firstRoute_eq_some hr, rfl⟩
      · exact ⟨_, rfl, rfl⟩

end Reference

/-- The action of a compiled policy that a decision is attributed to. -/
def RoutingPolicy.responsible (p : RoutingPolicy) : Option Nat → Option RouteAction
  | some i => p.routes[i]?.map (·.action)
  | none => some p.defaultAction

/-- The actions the two forms of a policy hold responsible for a route agree. -/
theorem PolicyOK.responsible {rawPolicy policy}
    (hok : PolicyOK parseIpNet book raw nodeId rawPolicy policy) {route rawAction}
    (hr : Reference.responsible rawPolicy route = some rawAction) :
    ∃ action, policy.responsible route = some action ∧ ActionOK raw nodeId rawAction action := by
  cases route with
  | none =>
    cases hr
    exact ⟨_, rfl, hok.default⟩
  | some i =>
    obtain ⟨r, hget, rfl⟩ := Option.map_eq_some_iff.1 hr
    obtain ⟨hi, rfl⟩ := List.getElem?_eq_some_iff.1 hget
    have hi' : i < policy.routes.length := hok.routes.length_eq ▸ hi
    refine ⟨policy.routes[i].action, ?_, (hok.routes.get hi hi').action⟩
    rw [RoutingPolicy.responsible, getElem?_eq_getElem hi', Option.map_some]

/-- A request that a route or the default sends to an egress is decided by
that egress. -/
theorem CompiledFrom.decision_of_egress (hfrom : CompiledFrom parseIpNet book raw nodeId s) {username user policy}
    (hu : raw.users.get? username = some user) (hp : raw.routingPolicies.get? user.policy = some policy) {host sniffed}
    (hr : Reference.responsible policy (s.decideWithSniff username host sniffed).matchedRoute = some (.egress id)) :
    ∃ e, Reference.egressOf raw nodeId (Str.trim id) = some e ∧
      Reference.realize (Str.trim id) e = some (s.decideWithSniff username host sniffed).decision := by
  obtain ⟨_, -, hok⟩ := hfrom.policies.exists_get? hp
  obtain ⟨action, -, hact⟩ := hok.responsible hr
  obtain ⟨e, d, he, hd⟩ := Reference.exists_realize hact
  obtain ⟨action', hresp, hdec⟩ := Reference.decide_responsible parseIpNet book hu hp nodeId host sniffed
  rw [hfrom.decideWithSniff] at hr ⊢
  obtain rfl := Option.some.inj (hresp.symm.trans hr)
  refine ⟨e, he, ?_⟩
  rw [hdec, Reference.actionDecision, he, Option.bind_some, hd, Option.getD_some]

/-- A snapshot that compiles decides as its raw tables read: for every user,
requested host and sniffed host, with the same policy id, route and host held
responsible. So the answer is direct only if the responsible action is. -/
theorem decide_with_sniff_eq_reference (parseIpNet : Str → Option IpNet) (parseDate : Str → Res NaiveDate)
    (o : IterOrder) (raw : RawSnapshot) (nodeId : Str) (book book' : Option LoadedBook) (s : Snapshot)
    (h : compileChecked parseIpNet parseDate o raw nodeId book = .ok (s, book'))
    (username requestedHost : Str) (sniffedHost : Option Str) :
    s.decideWithSniff username requestedHost sniffedHost =
        Reference.decide parseIpNet (book.map (·.book)) raw nodeId username requestedHost sniffedHost ∧
      ((s.decideWithSniff username requestedHost sniffedHost).decision = .direct →
        ∃ user policy, raw.users.get? username = some user ∧ raw.routingPolicies.get? user.policy = some policy ∧
          Reference.responsible policy (s.decideWithSniff username requestedHost sniffedHost).matchedRoute =
            some .direct) := by
  have hfrom := compileChecked_spec h
  have heq := hfrom.decideWithSniff username requestedHost sniffedHost
  refine ⟨heq, fun hdirect => ?_⟩
  rw [heq] at hdirect ⊢
  cases hu : raw.users.get? username with
  | none => simp [Reference.decide, hu] at hdirect
  | some user =>
    obtain ⟨_, -, -, hkey⟩ := hfrom.users.exists_get? hu
    obtain ⟨_, hcompiled⟩ := HashMap.containsKey_iff.1 hkey
    obtain ⟨policy, hp, -⟩ := hfrom.policies.get?_eq_some hcompiled
    obtain ⟨action, hresp, hdec⟩ := Reference.decide_responsible parseIpNet (book.map (·.book)) hu hp
      nodeId requestedHost sniffedHost
    rw [hdec] at hdirect
    rw [Reference.actionDecision_direct hdirect] at hresp
    exact ⟨user, policy, rfl, hp, hresp⟩

/-- One user, two routes, and an egress that the node `n1` overrides. -/
def overriddenSnapshot : RawSnapshot where
  schemaVersion := 1
  version := 7
  users := ⟨[("u", { password := "p", policy := "main" })], by simp⟩
  routingPolicies := ⟨[("main",
    { routes := [⟨["full:ads.example"], .block⟩, ⟨["example"], .egress " hop "⟩] })], by simp⟩
  egresses := ⟨[("hop", .upstream { kind := "http", addr := "h:1" })], by simp⟩
  nodeOverrides := ⟨[("n1",
    ⟨⟨[("hop", .upstream { kind := "Reverse", addr := " r " })], by simp⟩⟩)], by simp⟩

theorem decide_with_sniff_eq_reference_override :
    ∃ s book', compileChecked (fun _ => none) (fun _ => .error "") .keep overriddenSnapshot "n1" none =
        .ok (s, book') ∧
      s.decideWithSniff "u" "a.example" none =
        ⟨.via ⟨.reverse, "r", none, none, false, false⟩, "a.example", 7, some "main", some 1⟩ := by
  have hok : (compileChecked (fun _ => none) (fun _ => .error "") .keep overriddenSnapshot "n1" none).isOk =
      true := by decide +kernel
  obtain ⟨⟨s, book'⟩, hs⟩ := exists_of_isOk hok
  exact ⟨s, book', hs, (decide_with_sniff_eq_reference _ _ _ _ _ _ _ s hs "u" "a.example" none).1.trans
    (by decide +kernel)⟩

end Rove.Model
