/-
One destination, several spellings: what a policy decides when an IPv4
address is asked for as a dotted quad, as the IPv6 address it is mapped to,
or in one of the old forms a resolver still takes.

Rules about addresses look at the address as parsed. A book looks through
the mapping; a single address or a network of one family never covers an
address of the other. So the two literals can part ways, and the old forms,
which do not parse as addresses, are matched as names.
-/
import Rove.Model.Reference
import Rove.Sniff.DnsName
import Rove.Inbound.Target
import Rove.Base.IpDisplay

namespace Rove.Model

open Policy (Rule LoadedBook)
open AddrBook (Book)

section
variable (parseIpNet : Str → Option IpNet) (book : Option Book)

/-! ## Routes and addresses -/

/-- Has the route a rule, of its own, that covers the address? -/
def RawRoute.covers (ip : IpAddr) (r : RawRoute) : Bool :=
  r.selectors.any fun s => (Rule.ofText parseIpNet s).matchesAddr ip

/-- Has the route a book rule that selects the address? -/
def RawRoute.bookCovers (ip : IpAddr) (r : RawRoute) : Bool :=
  r.selectors.any fun s => book.any fun b => (Rule.ofText parseIpNet s).bookPattern.any (b.selectsIp · ip)

def RawRoute.matchesHost (host : Str) (r : RawRoute) : Bool :=
  r.selectors.any fun s => (Rule.ofText parseIpNet s).matchesHost book host

variable {parseIpNet book}

theorem RawRoute.matchesHost_of_parseIpAddr {host ip} (h : parseIpAddr host = some ip)
    (r : RawRoute) : r.matchesHost parseIpNet book host =
    (r.covers parseIpNet ip || r.bookCovers parseIpNet book ip) := by
  unfold matchesHost covers bookCovers
  rw [Bool.eq_iff_iff, Bool.or_eq_true, List.any_eq_true, List.any_eq_true, List.any_eq_true]
  simp only [Rule.matchesHost, Rule.matchesDirect, h, AddrBook.selects_of_parseIpAddr _ _ h, Bool.or_eq_true,
    and_or_left, exists_or]

theorem RawRoute.bookCovers_mapped (a : Ipv4Addr) (r : RawRoute) :
    r.bookCovers parseIpNet book (.v6 a.toIpv6Mapped) = r.bookCovers parseIpNet book (.v4 a) := by
  simp only [bookCovers, AddrBook.selectsIp_mapped]

/-! ## Deciding without a sniffed host -/

theorem Reference.firstRoute_fst (p : RawRoutingPolicy) (host : Str) :
    (Reference.firstRoute parseIpNet book p host).map (·.1) =
      p.routes.findIdx? (·.matchesHost parseIpNet book host) := by
  unfold Reference.firstRoute
  rw [Option.map_map, List.findIdx?_eq_fst_find?_zipIdx]
  rfl

/-- The action of what a lookup found, or the policy's default. -/
def RawRoutingPolicy.actionOf (p : RawRoutingPolicy) (found : Option (Nat × RawAction)) : RawAction :=
  found.elim (p.defaultAction.getD .direct) (·.2)

/-- Without a sniffed host, the first matching route decides, or the default. -/
theorem Reference.decide_none {raw nodeId username user policy} (hu : raw.users.get? username = some user)
    (hp : raw.routingPolicies.get? user.policy = some policy) (host : Str) :
    Reference.decide parseIpNet book raw nodeId username host none =
      ⟨Reference.actionDecision raw nodeId (policy.actionOf (Reference.firstRoute parseIpNet book policy host)), host,
        raw.version, some user.policy, (Reference.firstRoute parseIpNet book policy host).map (·.1)⟩ := by
  unfold Reference.decide
  simp only [hu, hp, Option.bind_none, ite_self]
  cases hb : Reference.blockRoute (Reference.firstRoute parseIpNet book policy host) with
  | some i => simp [Reference.blockRoute_eq_some hb, RawRoutingPolicy.actionOf]
  | none =>
    cases hf : Reference.firstRoute parseIpNet book policy host with
    | none => simp [RawRoutingPolicy.actionOf]
    | some e => simp [RawRoutingPolicy.actionOf]

end

/-! ## Mapped addresses -/

/-- The first route that has the address, in either form, has it in both, or
through its book; or no route has it. -/
def spelledAlike (parseIpNet : Str → Option IpNet) (book : Option Book) (routes : List RawRoute) (a : Ipv4Addr) :
    Bool :=
  (routes.find? fun r => r.covers parseIpNet (.v4 a) || r.covers parseIpNet (.v6 a.toIpv6Mapped) ||
      r.bookCovers parseIpNet book (.v4 a)).all
    fun r => r.covers parseIpNet (.v4 a) && r.covers parseIpNet (.v6 a.toIpv6Mapped) ||
      r.bookCovers parseIpNet book (.v4 a)

/-- A dotted quad and the IPv6 spelling of the same address select the same
route exactly when the first route that has the address in either form has it
in both. -/
theorem mapped_literal_same_route_iff (parseIpNet : Str → Option IpNet) (parseDate : Str → Res NaiveDate)
    (o : IterOrder) (raw : RawSnapshot) (nodeId : Str) (book book' : Option LoadedBook) (s : Snapshot)
    (h : compileChecked parseIpNet parseDate o raw nodeId book = .ok (s, book')) (username : Str) (user : RawUser)
    (hu : raw.users.get? username = some user) (policy : RawRoutingPolicy)
    (hp : raw.routingPolicies.get? user.policy = some policy) (a : Ipv4Addr) :
    (s.decideWithSniff username a.toText none).matchedRoute =
        (s.decideWithSniff username a.toIpv6Mapped.toText none).matchedRoute ↔
      spelledAlike parseIpNet (book.map (·.book)) policy.routes a = true := by
  have hfrom := compileChecked_spec h
  have hshare : ∀ x y b : Bool, (x || b || (y || b)) = (x || y || b) := by decide
  rw [hfrom.decideWithSniff, hfrom.decideWithSniff, Reference.decide_none hu hp, Reference.decide_none hu hp]
  simp only [Reference.firstRoute_fst, findIdx?_eq_findIdx?_iff,
    RawRoute.matchesHost_of_parseIpAddr (IpText.parseIpAddr_toText a),
    RawRoute.matchesHost_of_parseIpAddr (IpText.parseIpAddr_v6_toText a.toIpv6Mapped), RawRoute.bookCovers_mapped,
    hshare, ← Bool.or_and_distrib_right, spelledAlike]

/-- One user whose policy blocks one address and sends everything else out
directly. -/
def blockedAddress : RawSnapshot where
  schemaVersion := 1
  version := 1
  users := ⟨[("u", { password := "pw", policy := "main" })], by simp⟩
  routingPolicies := ⟨[("main", { routes := [⟨["127.0.0.1"], .block⟩] })], by simp⟩
  egresses := ∅
  nodeOverrides := ∅

theorem compileChecked_blockedAddress :
    ∃ s book', compileChecked (fun _ => none) (fun _ => .error "") .keep blockedAddress "n1" none =
      .ok (s, book') := by
  have hok : (compileChecked (fun _ => none) (fun _ => .error "") .keep blockedAddress "n1" none).isOk =
      true := by decide +kernel
  obtain ⟨⟨s, book'⟩, hs⟩ := Res.exists_of_isOk hok
  exact ⟨s, book', hs⟩

/-- A blocked address is reached by its mapped spelling. -/
theorem mapped_literal_passes_block :
    ∃ s book', compileChecked (fun _ => none) (fun _ => .error "") .keep blockedAddress "n1" none =
        .ok (s, book') ∧
      s.decideWithSniff "u" "127.0.0.1" none =
        ⟨.block, "127.0.0.1", 1, some "main", some 0⟩ ∧
      s.decideWithSniff "u" "::ffff:127.0.0.1" none =
        ⟨.direct, "::ffff:127.0.0.1", 1, some "main", none⟩ := by
  obtain ⟨s, book', hs⟩ := compileChecked_blockedAddress
  refine ⟨s, book', hs, ?_, ?_⟩
  · rw [(compileChecked_spec hs).decideWithSniff]
    decide +kernel
  · rw [(compileChecked_spec hs).decideWithSniff]
    decide +kernel

theorem mapped_literal_same_route_iff_blockedAddress :
    ∃ s book', compileChecked (fun _ => none) (fun _ => .error "") .keep blockedAddress "n1" none =
        .ok (s, book') ∧
      (s.decideWithSniff "u" "1.2.3.4" none).matchedRoute =
        (s.decideWithSniff "u" "::ffff:1.2.3.4" none).matchedRoute := by
  obtain ⟨s, book', hs⟩ := compileChecked_blockedAddress
  have hiff := mapped_literal_same_route_iff (fun _ => none) (fun _ => .error "") .keep blockedAddress "n1"
    none book' s hs "u" { password := "pw", policy := "main" } rfl
    { routes := [⟨["127.0.0.1"], .block⟩] } rfl (Ipv4Addr.new 1 2 3 4)
  exact ⟨s, book', hs, hiff.2 (by decide +kernel)⟩

end Rove.Model
