/-
What a front end does with a request once it has read the target: ask the
policy about the host, refuse if it blocks, and with route sniffing ask again
with the host seen in the stream (`serve` of the HTTP, SOCKS5 and TUIC front
ends; the dial comes after).

The host is a text. An old spelling of an IPv4 address is no IP literal for
the policy, so the rules for names pick the route of a destination that the
rules for addresses would have picked.
-/
import Rove.Model.Spelling

namespace Rove.Model

open Option
open Policy (Rule LoadedBook normalize)
open AddrBook (Book)

/-- The decision a request for a host ends with. `sniffed` is the host that
route sniffing saw in the stream, if it is on and saw one. -/
def Snapshot.serve (s : Snapshot) (username host : Str) (sniffed : Option Str) : Decision :=
  if (s.decideWithSniff username host none).decision = .block then .block
  else (s.decideWithSniff username host sniffed).decision

section
variable (parseIpNet : Str → Option IpNet) (book : Option Book)

/-- Has the route a rule for names, or a book rule, that matches the name? -/
def RawRoute.matchesName (name : Str) (r : RawRoute) : Bool :=
  r.selectors.any fun s =>
    (decide (normalize name ≠ []) && (Rule.ofText parseIpNet s).matchesName (normalize name)) ||
      book.any fun b => (Rule.ofText parseIpNet s).bookPattern.any (b.selects · name)

/-- The action of the first route that passes the test. -/
def RawRoutingPolicy.actionWhere (p : RawRoutingPolicy) (test : RawRoute → Bool) : Option RawAction :=
  (p.routes.find? test).map (·.action)

variable {parseIpNet book}

theorem RawRoute.matchesHost_of_name {host} (h : parseIpAddr host = none) (r : RawRoute) :
    r.matchesHost parseIpNet book host = r.matchesName parseIpNet book host := by
  simp only [matchesHost, matchesName, Rule.matchesHost, Rule.matchesDirect, h]

theorem Reference.firstRoute_snd (p : RawRoutingPolicy) (host : Str) :
    (Reference.firstRoute parseIpNet book p host).map (·.2) = p.actionWhere (·.matchesHost parseIpNet book host) := by
  unfold Reference.firstRoute RawRoutingPolicy.actionWhere
  conv_rhs => rw [← List.zipIdx_map_fst 0 p.routes, List.find?_map, map_map]
  rw [map_map]
  rfl

/-- What the raw tables decide: a block on either host stands; otherwise the
requested host decides, or the sniffed one in place of an address. -/
theorem Reference.decide_decision {raw : RawSnapshot} {nodeId username : Str} {user : RawUser}
    {p : RawRoutingPolicy} (hu : raw.users.get? username = some user)
    (hp : raw.routingPolicies.get? user.policy = some p) (host : Str) (sniffed : Option Str) :
    let asked := p.actionWhere (·.matchesHost parseIpNet book host)
    let found := sniffed.bind fun host => p.actionWhere (·.matchesHost parseIpNet book host)
    let action := asked.getD (p.defaultAction.getD .direct)
    (Reference.decide parseIpNet book raw nodeId username host sniffed).decision =
      if asked = some .block ∨ found = some .block then .block
      else Reference.actionDecision raw nodeId
        (if (parseIpAddr host).isSome then found.getD action else action) := by
  intro asked found action
  have hasked : asked = (Reference.firstRoute parseIpNet book p host).map (·.2) := (firstRoute_snd p host).symm
  -- what the sniffed host found, with its host and without
  have hsniffed : ((sniffed.bind fun h => (Reference.firstRoute parseIpNet book p h).map (h, ·)) = none ∧
      found = none) ∨ ∃ h j b, (sniffed.bind fun h => (Reference.firstRoute parseIpNet book p h).map (h, ·)) =
        some (h, j, b) ∧
        found = some b := by
    simp only [found, ← firstRoute_snd]
    cases sniffed with
    | none => exact .inl ⟨rfl, rfl⟩
    | some h =>
      cases hf : Reference.firstRoute parseIpNet book p h with
      | none => exact .inl (by simp [hf])
      | some e => exact .inr ⟨h, e.1, e.2, by simp [hf]⟩
  unfold Reference.decide
  simp only [hu, hp, action, hasked]
  rcases hsniffed with ⟨hs, hf⟩ | ⟨h, j, b, hs, hf⟩
  · rw [hs, hf]
    cases Reference.firstRoute parseIpNet book p host with
    | none => simp [Reference.blockRoute]
    | some e =>
      obtain ⟨i, a⟩ := e
      cases a <;> simp [Reference.blockRoute, Reference.actionDecision]
  · rw [hs, hf]
    cases Reference.firstRoute parseIpNet book p host with
    | none =>
      cases b <;> cases (parseIpAddr host).isSome <;> simp [Reference.blockRoute, Reference.actionDecision]
    | some e =>
      obtain ⟨i, a⟩ := e
      cases a <;> cases b <;> cases (parseIpAddr host).isSome <;>
        simp [Reference.blockRoute, Reference.actionDecision]

theorem CompiledFrom.serve {raw : RawSnapshot} {nodeId : Str} {s : Snapshot}
    (hfrom : CompiledFrom parseIpNet book raw nodeId s) {username : Str} {user : RawUser} {p : RawRoutingPolicy}
    (hu : raw.users.get? username = some user) (hp : raw.routingPolicies.get? user.policy = some p)
    (host : Str) (sniffed : Option Str) :
    let action := (p.actionWhere (·.matchesHost parseIpNet book host)).getD (p.defaultAction.getD .direct)
    let found := sniffed.bind fun host => p.actionWhere (·.matchesHost parseIpNet book host)
    s.serve username host sniffed =
      if Reference.actionDecision raw nodeId action = .block ∨ found = some .block then .block
      else Reference.actionDecision raw nodeId
        (if (parseIpAddr host).isSome then found.getD action else action) := by
  intro action found
  have hfirst : (Reference.decide parseIpNet book raw nodeId username host none).decision =
      Reference.actionDecision raw nodeId action := by
    rw [Reference.decide_decision hu hp]
    by_cases hasked : p.actionWhere (·.matchesHost parseIpNet book host) = some .block
    · simp [action, hasked, Reference.actionDecision]
    · simp [action, hasked]
  unfold Snapshot.serve
  rw [hfrom.decideWithSniff, hfrom.decideWithSniff, hfirst, Reference.decide_decision hu hp]
  by_cases hd : Reference.actionDecision raw nodeId action = .block
  · rw [if_pos hd, if_pos (Or.inl hd)]
  · have hasked : p.actionWhere (·.matchesHost parseIpNet book host) ≠ some .block := by
      intro h
      exact hd (by simp [action, h, Reference.actionDecision])
    simp only [hasked, hd, false_or, if_false]
    rfl

end

/-! ## Old spellings -/

/-- When a request for a name `host` ends as one for the address `a` does, or
is refused: the rules for names block the one, the sniffed host is blocked,
or the rules for addresses let the other through to the same egress. -/
def spellingAgrees (parseIpNet : Str → Option IpNet) (book : Option Book) (raw : RawSnapshot) (nodeId : Str)
    (p : RawRoutingPolicy) (host : Str) (a : Ipv4Addr) (sniffed : Option Str) : Prop :=
  let decision := Reference.actionDecision raw nodeId
  let otherwise := p.defaultAction.getD .direct
  let named := (p.actionWhere (·.matchesName parseIpNet book host)).getD otherwise
  let addressed := (p.actionWhere fun r =>
    r.covers parseIpNet (.v4 a) || r.bookCovers parseIpNet book (.v4 a)).getD otherwise
  let found := sniffed.bind fun host => p.actionWhere (·.matchesHost parseIpNet book host)
  decision named = .block ∨ found = some .block ∨
    (decision addressed ≠ .block ∧ decision (found.getD addressed) = decision named)

instance (parseIpNet : Str → Option IpNet) (book : Option Book) (raw : RawSnapshot) (nodeId : Str)
    (p : RawRoutingPolicy) (host : Str) (a : Ipv4Addr) (sniffed : Option Str) :
    Decidable (spellingAgrees parseIpNet book raw nodeId p host a sniffed) :=
  inferInstanceAs (Decidable (_ ∨ _ ∨ (_ ∧ _)))

/-- The decision a request ends with, or nothing if its target cannot be read. -/
def outcome (s : Snapshot) (username : Str) (sniffed : Option Str) (q : Inbound.Request) : Option Decision :=
  q.host.map (s.serve username · sniffed)

theorem refused_or_same_iff (named addressed chosen : Decision) (blocked : Prop) [Decidable blocked] :
    ((if named = .block ∨ blocked then .block else named) = .block ∨
        (if named = .block ∨ blocked then .block else named) =
          if addressed = .block ∨ blocked then .block else chosen) ↔
      named = .block ∨ blocked ∨ (addressed ≠ .block ∧ chosen = named) := by
  by_cases hn : named = .block
  · simp [hn]
  · by_cases hb : blocked
    · simp [hb]
    · by_cases ha : addressed = .block
      · simp [hn, hb, ha]
      · simp [hn, hb, ha, eq_comm]

/-- A request for an old spelling of an IPv4 address is refused or ends as the
request for the dotted quad does exactly when the rules for names and those
for addresses agree on it. -/
theorem respelled_request_same_outcome_iff (parseIpNet : Str → Option IpNet) (parseDate : Str → Res NaiveDate)
    (o : IterOrder) (raw : RawSnapshot) (nodeId : Str) (book book' : Option LoadedBook) (s : Snapshot)
    (h : compileChecked parseIpNet parseDate o raw nodeId book = .ok (s, book')) (username : Str) (user : RawUser)
    (hu : raw.users.get? username = some user) (p : RawRoutingPolicy)
    (hp : raw.routingPolicies.get? user.policy = some p) (host : Str)
    (hlegacy : Sniff.isLegacyIpv4Address host = true) (hold : Sniff.OldForm host) (q q' : Inbound.Request)
    (hq : q.host = some host) (hq' : q'.host = some (Sniff.legacyAddr host).toText) (sniffed : Option Str) :
    (outcome s username sniffed q = some .block ∨ outcome s username sniffed q = outcome s username sniffed q') ↔
      spellingAgrees parseIpNet (book.map (·.book)) raw nodeId p host (Sniff.legacyAddr host) sniffed := by
  have hfrom := compileChecked_spec h
  have hname := Sniff.parseIpAddr_of_oldForm hlegacy hold
  have haddr := IpText.parseIpAddr_toText (Sniff.legacyAddr host)
  simp only [outcome, hq, hq', map_some, Option.some.injEq, hfrom.serve hu hp, hname, haddr,
    isSome_none, isSome_some, Bool.false_eq_true, if_false, if_true,
    RawRoute.matchesHost_of_name hname, RawRoute.matchesHost_of_parseIpAddr haddr]
  exact refused_or_same_iff _ _ _ _

/-- A blocked address is reached by an old spelling, through every front end. -/
theorem respelled_request_passes_block :
    ∃ s book', compileChecked (fun _ => none) (fun _ => .error "") .keep blockedAddress "n1".toList none =
        .ok (s, book') ∧
      Sniff.isLegacyIpv4Address "127.1".toList = true ∧ Sniff.OldForm "127.1".toList ∧
      (Sniff.legacyAddr "127.1".toList).toText = "127.0.0.1".toList ∧
      outcome s "u".toList none (.connect "127.0.0.1:80".toList) = some .block ∧
      outcome s "u".toList none (.connect "127.1:80".toList) = some .direct ∧
      outcome s "u".toList none (.socks5 (0x03 :: 5 :: (utf8Bytes "127.1".toList ++ beBytes 2 80))) = some .direct ∧
      outcome s "u".toList none (.tuic (0x00 :: 5 :: (utf8Bytes "127.1".toList ++ beBytes 2 80))) = some .direct := by
  obtain ⟨s, book', hs⟩ := compileChecked_blockedAddress
  have hdirect : s.serve "u".toList "127.1".toList none = .direct := by
    unfold Snapshot.serve
    simp only [(compileChecked_spec hs).decideWithSniff]
    decide +kernel
  have hblock : s.serve "u".toList "127.0.0.1".toList none = .block := by
    unfold Snapshot.serve
    simp only [(compileChecked_spec hs).decideWithSniff]
    decide +kernel
  have hc : (Inbound.Request.connect "127.1:80".toList).host = some "127.1".toList := by decide +kernel
  have hc' : (Inbound.Request.connect "127.0.0.1:80".toList).host = some "127.0.0.1".toList := by decide +kernel
  have hlen : (5 : UInt8) = UInt8.ofNat (utf8Bytes "127.1".toList).length := by decide +kernel
  have hsocks := Inbound.socks5_carries_domain (show (utf8Bytes "127.1".toList).length ≤ 255 by decide +kernel)
    (show 80 < 256 ^ 2 by decide)
  have htuic := Inbound.tuic_carries_domain (show (utf8Bytes "127.1".toList).length ≤ 255 by decide +kernel)
    (show 80 < 256 ^ 2 by decide)
  refine ⟨s, book', hs, by decide +kernel, by decide +kernel, by decide +kernel, ?_, ?_, ?_, ?_⟩
  · rw [outcome, hc', map_some, hblock]
  · rw [outcome, hc, map_some, hdirect]
  · rw [outcome, Inbound.Request.host, Inbound.Request.target, hlen, hsocks, map_some, map_some, hdirect]
  · rw [outcome, Inbound.Request.host, Inbound.Request.target, hlen, htuic, map_some, map_some, hdirect]

theorem respelled_request_same_outcome_iff_allowed :
    ∃ s book', compileChecked (fun _ => none) (fun _ => .error "") .keep blockedAddress "n1" none =
        .ok (s, book') ∧
      (outcome s "u" none (.connect "0x1.1:80") = some .block ∨
        outcome s "u" none (.connect "0x1.1:80") =
          outcome s "u" none (.connect "1.0.0.1:80")) := by
  obtain ⟨s, book', hs⟩ := compileChecked_blockedAddress
  have hiff := respelled_request_same_outcome_iff (fun _ => none) (fun _ => .error "") .keep blockedAddress
    "n1" none book' s hs "u" { password := "pw", policy := "main" } rfl
    { routes := [⟨["127.0.0.1"], .block⟩] } rfl "0x1.1" (by decide +kernel) (by decide +kernel)
    (.connect "0x1.1:80") (.connect "1.0.0.1:80") (by decide +kernel) (by decide +kernel) none
  exact ⟨s, book', hs, hiff.2 (by decide +kernel)⟩

end Rove.Model
