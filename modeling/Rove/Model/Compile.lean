/-
Compiling a snapshot (`Snapshot::compile_checked` of `model.rs`): every
reference is resolved and every table checked, or the whole document is
refused.

Maps are iterated in the order of their entries, which is any order at all;
the one map that the code itself rearranges before iterating it, the egress
table with this node's overrides in it, takes its order from `IterOrder`.
-/
import Rove.Model.Snapshot

namespace Rove.Model

open Policy (RuleSet LoadedBook)

def maxSnapshotUsers : Nat := 100000
def maxSnapshotPolicies : Nat := 10000
def maxSnapshotEgresses : Nat := 10000
def maxSnapshotRules : Nat := 200000
def maxSnapshotNodeOverrides : Nat := 10000
def maxChainMembers : Nat := 16
def maxAddrbookSelectorBytes : Nat := 64 * 1024 * 1024

def schemaVersion : BitVec 32 := 1

def maxSupportedSchemaVersion : BitVec 32 := schemaVersion

def schemaVersionSupported (v maxSupported : BitVec 32) : Bool := decide (1 ≤ v) && decide (v ≤ maxSupported)

/-! ## Egresses -/

/-- The kind a backend's lower-cased `kind` names. -/
def upstreamKindOf (kind : Str) : Option UpstreamKind :=
  if kind = "http" ∨ kind = "https" then some .http
  else if kind = "socks5" ∨ kind = "socks" then some .socks5
  else if kind = "reverse" then some .reverse
  else if kind = "subnetra" then some .subnetra
  else none

def compileUpstream (context : String) (u : RawUpstream) : Res Upstream :=
  match upstreamKindOf (Str.toAsciiLowercase u.kind) with
  | none => throw s!"{context}: unsupported upstream kind {Str.debug (Str.toAsciiLowercase u.kind)}"
  | some .reverse => do
    let hopId := Str.trim u.addr
    ensure (hopId ≠ []) s!"{context}: reverse upstream requires a non-empty hop_id in addr"
    ensure (u.username = none ∧ u.password = none)
      s!"{context}: reverse upstream must not set username/password (auth is the hop session token)"
    ensure (u.tls = false ∧ u.skipCertVerify = false)
      s!"{context}: reverse upstream must not set tls/skip_cert_verify (QUIC transport already encrypts)"
    pure ⟨.reverse, hopId, none, none, false, false⟩
  | some .subnetra => do
    ensure (u.username = none ∧ u.password = none)
      s!"{context}: subnetra upstream must not set username/password (the overlay is authenticated by per-link PSK)"
    ensure (u.tls = false ∧ u.skipCertVerify = false)
      s!"{context}: subnetra upstream must not set tls/skip_cert_verify (the overlay already encrypts)"
    pure ⟨.subnetra, u.addr, none, none, false, false⟩
  | some kind => pure ⟨kind, u.addr, u.username, u.password, u.tls, u.skipCertVerify⟩

/-- The loop of `compile_chain`, with the member ids and priorities seen. -/
def compileMembers (id : Str) : List RawChainMember → List Str → List (BitVec 32) → Res (List ChainMember)
  | [], _, _ => pure []
  | m :: ms, memberIds, priorities => do
    let memberId := Str.trim m.id
    ensure (memberId ≠ []) s!"chain {Str.display id}: member id is required"
    ensure (memberId ∉ memberIds) s!"chain {Str.display id}: duplicate member id {Str.debug memberId}"
    ensure (m.priority ∉ priorities) s!"chain {Str.display id}: duplicate member priority {m.priority.toNat}"
    ensure (Str.eqIgnoreAsciiCase m.backend.kind "chain" = false)
      s!"chain {Str.display id}: member {Str.display memberId} backend must not be another chain"
    let upstream ← compileUpstream s!"chain {Str.display id} member {Str.display memberId}" m.backend
    let rest ← compileMembers id ms (memberId :: memberIds) (m.priority :: priorities)
    pure (⟨memberId, m.priority, upstream⟩ :: rest)

/-- `members.sort_by_key(|m| m.priority)`. -/
def sortByPriority (members : List ChainMember) : List ChainMember :=
  members.mergeSort fun a b => decide (a.priority ≤ b.priority)

@[simp] theorem mem_sortByPriority {m members} :
    m ∈ sortByPriority members ↔ m ∈ members := List.mem_mergeSort

def compileChain (id : Str) (rawMembers : List RawChainMember) : Res Chain := do
  ensure (Str.trim id ≠ []) "chain id is required"
  ensure (rawMembers ≠ []) s!"chain {Str.display id}: must have at least one member"
  ensure (rawMembers.length ≤ maxChainMembers)
    s!"chain {Str.display id}: too many members: {rawMembers.length} > {maxChainMembers}"
  let members ← compileMembers id rawMembers [] []
  pure ⟨id, sortByPriority members⟩

def compileEgress (id : Str) : RawEgress → Res Egress
  | .upstream backend => do
    ensure (Str.eqIgnoreAsciiCase backend.kind "chain" = false)
      s!"egress {Str.display id}: upstream backend must not be a chain (use \"type\":\"chain\")"
    let up ← compileUpstream s!"egress {Str.display id}" backend
    pure ⟨id, .upstream up⟩
  | .chain members => do
    let chain ← compileChain id members
    pure ⟨id, .chain chain⟩

/-- The loop over this node's overrides: each replaces a base egress. -/
def replaceEgresses : List (Str × RawEgress) → HashMap Str RawEgress → Res (HashMap Str RawEgress)
  | [], rawEgresses => pure rawEgresses
  | (egressId, egress) :: rest, rawEgresses => do
    ensure (Str.trim egressId ≠ []) "node override egress id is required"
    ensure (rawEgresses.containsKey egressId = true)
      s!"node override egress {Str.debug egressId} does not replace an existing base egress"
    replaceEgresses rest (rawEgresses.insert egressId egress)

/-- The egress table as this node sees it. -/
def nodeEgresses (raw : RawSnapshot) (nodeId : Str) : Res (HashMap Str RawEgress) :=
  match raw.nodeOverrides.get? nodeId with
  | some overrideForNode => replaceEgresses overrideForNode.egresses.entries raw.egresses
  | none => pure raw.egresses

def compileEgresses : List (Str × RawEgress) → HashMap Str Egress → Res (HashMap Str Egress)
  | [], egresses => pure egresses
  | (id, rawEgress) :: rest, egresses => do
    ensure (Str.trim id ≠ []) "egress id is required"
    let egress ← compileEgress id rawEgress
    compileEgresses rest (egresses.insert id egress)

/-! ## Policies -/

def compileAction (egresses : HashMap Str Egress) (context : String) : RawAction → Res RouteAction
  | .egress egress => do
    let egress := Str.trim egress
    ensure (egress ≠ []) s!"{context}: egress action requires an egress id"
    match egresses.get? egress with
    | some e => pure (.egress e)
    | none => throw s!"{context}: references unknown egress {Str.debug egress}"
  | .direct => pure .direct
  | .block => pure .block

/-- The default action of a policy; absent, it is direct. -/
def compileDefault (egresses : HashMap Str Egress) (id : Str) : Option RawAction → Res RouteAction
  | some action => compileAction egresses s!"policy {Str.display id} default" action
  | none => pure .direct

/-- What compiling the policies carries along: the address book, the selector
allocations and bytes accounted for, and the number of rules. -/
structure PolicyState where
  book : Option LoadedBook
  allocations : List Nat := []
  selectorBytes : Nat := 0
  totalRules : Nat := 0

def accountBookSelector (rules : RuleSet) (st : PolicyState) (limit : Nat) : Res PolicyState :=
  match rules.bookSelectorAllocation with
  | none => pure st
  | some (allocation, bytes) =>
    if allocation ∈ st.allocations then pure st
    else do
      let total := st.selectorBytes + bytes
      ensure (total < 2 ^ 64) "addrbook selector memory size overflow"
      ensure (total ≤ limit) s!"addrbook selector memory budget exceeded: {total} > {limit} bytes"
      pure { st with allocations := allocation :: st.allocations, selectorBytes := total }

section
variable (parseIpNet : Str → Option IpNet)

/-- The loop over the routes of a policy, from route `idx` on. -/
def compileRoutes (egresses : HashMap Str Egress) (id : Str) :
    List RawRoute → Nat → PolicyState → Res (List Route × PolicyState)
  | [], _, st => pure ([], st)
  | rawRoute :: rest, idx, st => do
    let nonEmptySelectors := (rawRoute.selectors.filter fun s => Str.trim s ≠ []).length
    ensure (0 < nonEmptySelectors) s!"policy {Str.display id} route {idx}: at least one selector is required"
    let totalRules := min (2 ^ 64 - 1) (st.totalRules + nonEmptySelectors)
    ensure (totalRules ≤ maxSnapshotRules)
      s!"snapshot has too many policy rules: {totalRules} > {maxSnapshotRules}"
    let (selectors, book) ← (RuleSet.fromRules parseIpNet rawRoute.selectors st.book).mapError
      fun e => s!"policy {Str.display id} route {idx}: selectors: {e}"
    let st ← (accountBookSelector selectors { st with book, totalRules } maxAddrbookSelectorBytes).mapError
      fun e => s!"policy {Str.display id} route {idx}: selectors: {e}"
    let action ← compileAction egresses s!"policy {Str.display id} route {idx}" rawRoute.action
    let (routes, st) ← compileRoutes egresses id rest (idx + 1) st
    pure (⟨selectors, rawRoute.selectors, action⟩ :: routes, st)

def compilePolicies (o : IterOrder) (egresses : HashMap Str Egress) :
    List (Str × RawRoutingPolicy) → HashMap Str RoutingPolicy → PolicyState →
      Res (HashMap Str RoutingPolicy × PolicyState)
  | [], policies, st => pure (policies, st)
  | (id, rawPolicy) :: rest, policies, st => do
    ensure (Str.trim id ≠ []) "routing policy id is required"
    let defaultAction ← compileDefault egresses id rawPolicy.defaultAction
    let (routes, st) ← compileRoutes parseIpNet egresses id rawPolicy.routes 0 st
    compilePolicies o egresses rest (policies.insert id (.fromRoutes o routes defaultAction)) st

end

/-! ## Users -/

/-- Index the uuid of a front-end credential, which no other user may claim. -/
def indexFrontend (name proto : Str) (cred : RawFrontendCred) (frontendIndex : HashMap Str (HashMap Str Str)) :
    Res (HashMap Str (HashMap Str Str)) :=
  match cred.uuid with
  | none => pure frontendIndex
  | some uuid => do
    let key := Str.toAsciiLowercase (Str.trim uuid)
    if key = [] then pure frontendIndex
    else
      let idx := (frontendIndex.get? proto).getD ∅
      match idx.get? key with
      | some prev =>
        throw
          s!"frontend {Str.display proto} uuid {Str.display key} claimed by both {Str.display prev} and {Str.display name}"
      | none => pure (frontendIndex.insert proto (idx.insert key name))

/-- The loop over the front-end credentials of a user. -/
def compileFrontends (name : Str) :
    List (Str × RawFrontendCred) → HashMap Str FrontendCred → HashMap Str (HashMap Str Str) →
      Res (HashMap Str FrontendCred × HashMap Str (HashMap Str Str))
  | [], frontends, frontendIndex => pure (frontends, frontendIndex)
  | (proto, cred) :: rest, frontends, frontendIndex => do
    let frontendIndex ← indexFrontend name proto cred frontendIndex
    compileFrontends name rest (frontends.insert proto ⟨cred.uuid, cred.password⟩) frontendIndex

section
variable (parseDate : Str → Res NaiveDate)

/-- The expiry date of a user; blank is none. -/
def compileExpire (name : Str) : Option Str → Res (Option NaiveDate)
  | none => pure none
  | some s =>
    if Str.trim s = [] then pure none
    else do
      let date ← (parseDate (Str.trim s)).mapError
        fun e => s!"user {Str.display name}: bad expire {Str.debug s}: {e}"
      pure (some date)

def compileUser (name : Str) (u : RawUser) (frontendIndex : HashMap Str (HashMap Str Str)) :
    Res (User × HashMap Str (HashMap Str Str)) := do
  let expire ← compileExpire parseDate name u.expire
  let (frontends, frontendIndex) ← compileFrontends name u.frontends.entries ∅ frontendIndex
  pure ({ password := u.password, expire, upRate := u.upRate, downRate := u.downRate,
          maxConnections := u.maxConnections, policy := u.policy, frontends }, frontendIndex)

def compileUsers (policies : HashMap Str RoutingPolicy) :
    List (Str × RawUser) → HashMap Str User → HashMap Str (HashMap Str Str) →
      Res (HashMap Str User × HashMap Str (HashMap Str Str))
  | [], users, frontendIndex => pure (users, frontendIndex)
  | (name, u) :: rest, users, frontendIndex => do
    ensure (Str.trim u.policy ≠ []) s!"user {Str.display name}: policy is required"
    ensure (policies.containsKey u.policy = true)
      s!"user {Str.display name}: unknown policy {Str.debug u.policy}"
    let (user, frontendIndex) ← compileUser parseDate name u frontendIndex
    compileUsers policies rest (users.insert name user) frontendIndex

end

/-- `prune_selector_cache` on the book, if there is one. -/
def pruneBook (book : Option LoadedBook) : Option LoadedBook := book.map fun lb => ⟨lb.book, lb.cache.prune⟩

/-- `Snapshot::compile_checked`, with the address book before and after. -/
def compileChecked (parseIpNet : Str → Option IpNet) (parseDate : Str → Res NaiveDate) (o : IterOrder)
    (raw : RawSnapshot) (nodeId : Str) (book : Option LoadedBook) : Res (Snapshot × Option LoadedBook) := do
  ensure (schemaVersionSupported raw.schemaVersion maxSupportedSchemaVersion = true)
    s!"unsupported snapshot schema_version {raw.schemaVersion.toNat} (this node supports 1..={maxSupportedSchemaVersion.toNat})"
  ensure (raw.schemaVersion = schemaVersion)
    s!"routing-policy snapshot requires schema_version {schemaVersion.toNat} (found {raw.schemaVersion.toNat})"
  ensure (raw.users.len ≤ maxSnapshotUsers)
    s!"snapshot has too many users: {raw.users.len} > {maxSnapshotUsers}"
  ensure (raw.routingPolicies.len ≤ maxSnapshotPolicies)
    s!"snapshot has too many routing policies: {raw.routingPolicies.len} > {maxSnapshotPolicies}"
  ensure (raw.nodeOverrides.len ≤ maxSnapshotNodeOverrides)
    s!"snapshot has too many node overrides: {raw.nodeOverrides.len} > {maxSnapshotNodeOverrides}"
  let rawEgresses ← nodeEgresses raw nodeId
  ensure (rawEgresses.len ≤ maxSnapshotEgresses)
    s!"snapshot has too many egresses: {rawEgresses.len} > {maxSnapshotEgresses}"
  let egresses ← compileEgresses (o.run rawEgresses.entries) ∅
  let (policies, st) ← compilePolicies parseIpNet o egresses raw.routingPolicies.entries ∅ { book := pruneBook book }
  let (users, frontendIndex) ← compileUsers parseDate policies raw.users.entries ∅ ∅
  pure ({ version := raw.version, schemaVersion := raw.schemaVersion, users, policies, frontendIndex }, st.book)

/-! ## Deciding -/

def Egress.decision (e : Egress) : Decision :=
  match e.kind with
  | .upstream up => .via up
  | .chain chain => .viaChain chain

def routeActionDecision : RouteAction → Decision
  | .egress egress => egress.decision
  | .direct => .direct
  | .block => .block

/-- The route found, if its action is to block. -/
def blockAt : Option (Nat × RouteAction) → Option Nat
  | some (idx, .block) => some idx
  | _ => none

def Snapshot.decideWithSniff (s : Snapshot) (username requestedHost : Str) (sniffedHost : Option Str) :
    ResolvedDecision :=
  let unattributedBlock (host : Str) : ResolvedDecision := ⟨.block, host, s.version, none, none⟩
  match s.users.get? username with
  | none => unattributedBlock requestedHost
  | some user =>
    match s.policies.get? user.policy with
    | none => unattributedBlock requestedHost
    | some policy =>
      let resolved (decision : Decision) (host : Str) (matchedRoute : Option Nat) : ResolvedDecision :=
        ⟨decision, host, s.version, some user.policy, matchedRoute⟩
      let requestedAction := policy.firstMatch requestedHost
      let sniffed := sniffedHost.map fun host => (host, policy.firstMatch host)
      -- the requested host vetoes first, then the sniffed one
      match blockAt requestedAction with
      | some idx => resolved .block requestedHost (some idx)
      | none =>
        match sniffed.bind fun (host, found) => (blockAt found).map (host, ·) with
        | some (host, idx) => resolved .block host (some idx)
        | none =>
          match (parseIpAddr requestedHost).isSome, sniffed with
          | true, some (host, some (idx, action)) => resolved (routeActionDecision action) host (some idx)
          | _, _ =>
            match requestedAction with
            | some (idx, action) => resolved (routeActionDecision action) requestedHost (some idx)
            | none => resolved (routeActionDecision policy.defaultAction) requestedHost none

def Snapshot.decide (s : Snapshot) (username host : Str) : Decision :=
  (s.decideWithSniff username host none).decision

end Rove.Model
