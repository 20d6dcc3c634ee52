/-
The tables of a snapshot (`model.rs`), as they arrive and as they are served:
the raw tables keep identity, policy and egress apart and refer by id, the
compiled ones hold what the ids stand for.

A policy is served through an index over its routes. That the index answers
as reading the routes one by one would is `first_match_eq_first_match_naive`.
-/
import Rove.Policy.RouteIndex

namespace Rove.Model

open List
open Policy (RuleSet RouteIndex)

/-! ## Wire format -/

structure RawUpstream where
  kind : Str
  addr : Str
  username : Option Str := none
  password : Option Str := none
  tls : Bool := false
  skipCertVerify : Bool := false

structure RawChainMember where
  id : Str
  priority : BitVec 32
  backend : RawUpstream

structure RawFrontendCred where
  uuid : Option Str := none
  password : Option Str := none

structure RawUser where
  password : Str
  expire : Option Str := none
  upRate : BitVec 64 := 0
  downRate : BitVec 64 := 0
  maxConnections : BitVec 64 := 0
  policy : Str
  frontends : HashMap Str RawFrontendCred := ∅

inductive RawAction where
  | egress (egress : Str)
  | direct
  | block
  deriving DecidableEq

structure RawRoute where
  selectors : List Str := []
  action : RawAction

structure RawRoutingPolicy where
  routes : List RawRoute := []
  defaultAction : Option RawAction := none

inductive RawEgress where
  | upstream (backend : RawUpstream)
  | chain (members : List RawChainMember)

structure NodeOverride where
  egresses : HashMap Str RawEgress := ∅

structure RawSnapshot where
  schemaVersion : BitVec 32
  version : BitVec 64
  users : HashMap Str RawUser := ∅
  routingPolicies : HashMap Str RawRoutingPolicy := ∅
  egresses : HashMap Str RawEgress := ∅
  nodeOverrides : HashMap Str NodeOverride := ∅

/-! ## Compiled, serving format -/

inductive UpstreamKind where
  | http | socks5 | reverse | subnetra
  deriving DecidableEq

structure Upstream where
  kind : UpstreamKind
  addr : Str
  username : Option Str
  password : Option Str
  tls : Bool
  skipCertVerify : Bool
  deriving DecidableEq

structure ChainMember where
  id : Str
  priority : BitVec 32
  upstream : Upstream
  deriving DecidableEq

structure Chain where
  id : Str
  members : List ChainMember
  deriving DecidableEq

structure NaiveDate where
  year : Int
  month : Nat
  day : Nat

structure FrontendCred where
  uuid : Option Str
  password : Option Str

structure User where
  password : Str
  expire : Option NaiveDate
  upRate : BitVec 64
  downRate : BitVec 64
  maxConnections : BitVec 64
  policy : Str
  frontends : HashMap Str FrontendCred

inductive EgressKind where
  | upstream (up : Upstream)
  | chain (chain : Chain)
  deriving DecidableEq

structure Egress where
  id : Str
  kind : EgressKind
  deriving DecidableEq

inductive RouteAction where
  | egress (egress : Egress)
  | direct
  | block
  deriving DecidableEq

structure Route where
  selectors : RuleSet
  selectorRules : List Str
  action : RouteAction

structure RoutingPolicy where
  routes : List Route
  defaultAction : RouteAction
  index : RouteIndex

inductive Decision where
  | direct
  | via (up : Upstream)
  | viaChain (chain : Chain)
  | block
  deriving DecidableEq

structure ResolvedDecision where
  decision : Decision
  effectivePolicyHost : Str
  snapshotVersion : BitVec 64
  policyId : Option Str
  matchedRoute : Option Nat
  deriving DecidableEq

structure Snapshot where
  version : BitVec 64
  schemaVersion : BitVec 32
  users : HashMap Str User
  policies : HashMap Str RoutingPolicy
  frontendIndex : HashMap Str (HashMap Str Str)

def Snapshot.empty : Snapshot := ⟨0, 1, ∅, ∅, ∅⟩

/-! ## First match -/

/-- The loop of `from_routes`, from route `idx` on. -/
def indexRoutes (o : IterOrder) : List Route → Nat → RouteIndex → RouteIndex
  | [], _, ix => ix
  | route :: routes, idx, ix =>
    indexRoutes o routes (idx + 1) (route.selectors.indexInto o (idx % 2 ^ 32) ix)

def RoutingPolicy.fromRoutes (o : IterOrder) (routes : List Route) (defaultAction : RouteAction) :
    RoutingPolicy :=
  { routes, defaultAction, index := indexRoutes o routes 0 .empty }

def RoutingPolicy.firstMatch (p : RoutingPolicy) (host : Str) : Option (Nat × RouteAction) :=
  (p.index.firstMatch host).bind fun idx => p.routes[idx]?.map fun route => (idx, route.action)

/-- `RoutingPolicy::first_match_naive`: the routes one by one. -/
def RoutingPolicy.firstMatchNaive (p : RoutingPolicy) (host : Str) : Option (Nat × RouteAction) :=
  (p.routes.zipIdx.find? fun (route, _) => route.selectors.matchesHost host).map
    fun (route, idx) => (idx, route.action)

theorem indexes_indexRoutes (o : IterOrder) (routes : List Route) (idx : Nat) (ix : RouteIndex)
    (noted : List (RuleSet × Nat)) (h : Policy.Indexes ix noted) (hlen : idx + routes.length < Policy.u32Max) :
    Policy.Indexes (indexRoutes o routes idx ix)
      (noted ++ (routes.map (·.selectors)).zipIdx idx) := by
  induction routes generalizing idx ix noted with
  | nil => simpa [indexRoutes] using h
  | cons route routes ih =>
    rw [length_cons] at hlen
    have hmod : idx % 2 ^ 32 = idx := Nat.mod_eq_of_lt (by unfold Policy.u32Max at hlen; omega)
    have hstep := ih (idx + 1) _ _ (h.indexInto o route.selectors idx) (by omega)
    rw [indexRoutes, hmod]
    simpa [zipIdx_cons] using hstep

/-- The index of a policy's routes yields the first route that matches. -/
theorem index_firstMatch_minOf (o : IterOrder) (routes : List Route) (d : RouteAction)
    (hlen : routes.length < Policy.u32Max) (host : Str) :
    MinOf ((RoutingPolicy.fromRoutes o routes d).index.firstMatch host)
      {i | ∃ r, routes[i]? = some r ∧ r.selectors.matchesHost host = true} := by
  have hix := indexes_indexRoutes o routes 0 .empty [] .empty (by omega)
  have hmem : ∀ rs i, (rs, i) ∈ (routes.map (·.selectors)).zipIdx ↔
      ∃ r, routes[i]? = some r ∧ r.selectors = rs := by
    intro rs i
    rw [mem_zipIdx_iff_getElem?, getElem?_map, Option.map_eq_some_iff]
  have hmin := Policy.firstMatch_minOf hix ?_ host
  · have hset : Policy.indicesOf ([] ++ (routes.map (·.selectors)).zipIdx) (·.matchesHost host = true) =
        {i | ∃ r, routes[i]? = some r ∧ r.selectors.matchesHost host = true} := by
      ext i
      simp only [Policy.indicesOf, nil_append, Set.mem_ofPred_eq, hmem]
      constructor
      · rintro ⟨rs, ⟨r, hr, rfl⟩, hh⟩; exact ⟨r, hr, hh⟩
      · rintro ⟨r, hr, hh⟩; exact ⟨_, ⟨r, hr, rfl⟩, hh⟩
    rwa [hset] at hmin
  · rintro ⟨rs, i⟩ hi
    obtain ⟨r, hr, -⟩ := (hmem rs i).1 hi
    exact lt_trans (List.getElem?_eq_some_iff.1 hr).1 hlen

theorem firstMatch_fromRoutes (o : IterOrder) (routes : List Route) (d : RouteAction)
    (hlen : routes.length < Policy.u32Max) (host : Str) :
    (RoutingPolicy.fromRoutes o routes d).firstMatch host =
      (RoutingPolicy.fromRoutes o routes d).firstMatchNaive host := by
  have hmin := index_firstMatch_minOf o routes d hlen host
  have heq := hmin.unique (minOf_find?_zipIdx routes fun r => r.selectors.matchesHost host)
  unfold RoutingPolicy.firstMatch RoutingPolicy.firstMatchNaive
  rw [heq]
  cases hf : routes.zipIdx.find? fun (r, _) => r.selectors.matchesHost host with
  | none => simp [RoutingPolicy.fromRoutes, hf]
  | some e =>
    obtain ⟨r, i⟩ := e
    have hr : routes[i]? = some r := mem_zipIdx_iff_getElem?.1 (mem_of_find?_eq_some hf)
    simp [RoutingPolicy.fromRoutes, hf, hr]

/-- Looking a host up in a policy's index finds the route that reading its
routes in order finds, with its action; and the index never points past them. -/
theorem first_match_eq_first_match_naive (o : IterOrder) (routes : List Route) (defaultAction : RouteAction)
    (hlen : routes.length < Policy.u32Max) (host : Str) :
    (RoutingPolicy.fromRoutes o routes defaultAction).firstMatch host =
        (RoutingPolicy.fromRoutes o routes defaultAction).firstMatchNaive host ∧
      ∀ idx, (RoutingPolicy.fromRoutes o routes defaultAction).index.firstMatch host = some idx →
        idx < routes.length := by
  refine ⟨firstMatch_fromRoutes o routes defaultAction hlen host, fun idx hidx => ?_⟩
  obtain ⟨r, hr, -⟩ := (index_firstMatch_minOf o routes defaultAction hlen host).mem hidx
  exact (List.getElem?_eq_some_iff.1 hr).1

theorem first_match_eq_first_match_naive_two_routes :
    (RoutingPolicy.fromRoutes .keep
      [⟨{ RuleSet.empty with domains := Policy.DomainMatcher.empty.add "full:a.example" },
          ["full:a.example"], .block⟩,
        ⟨{ RuleSet.empty with domains := Policy.DomainMatcher.empty.add "example" }, ["example"], .direct⟩]
      .block).firstMatch "B.example." = some (1, .direct) :=
  (first_match_eq_first_match_naive .keep _ .block (by decide) "B.example.").1.trans (by decide)

end Rove.Model
