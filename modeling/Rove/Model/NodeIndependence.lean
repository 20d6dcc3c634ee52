/-
What the overrides of a node can change: how a named egress is realised, and
nothing else. Which policy, which route and which host are held responsible,
and whether the answer is to block, to go direct or to take the egress of some
name, is read off the tables all nodes share.
-/
import Rove.Model.Reference

namespace Rove.Model

open Option
open Policy (LoadedBook)
open AddrBook (Book)

/-- The kind of a decision of a snapshot: that of the action it is attributed
to. A decision no policy was asked for is to block. -/
def Snapshot.kindOf (s : Snapshot) (d : ResolvedDecision) : DecisionKind :=
  (((d.policyId.bind s.policies.get?).bind (·.responsible d.matchedRoute)).map RouteAction.kind).getD .block

namespace Reference

/-- The kind of decision the raw tables make for a user at a route. No node is named. -/
def kindAt (raw : RawSnapshot) (username : Str) (route : Option Nat) : DecisionKind :=
  ((((raw.users.get? username).bind fun user => raw.routingPolicies.get? user.policy).bind
    (responsible · route)).map RawAction.kind).getD .block

def realizeKind (raw : RawSnapshot) (nodeId : Str) : DecisionKind → Option Decision
  | .block => some .block
  | .direct => some .direct
  | .egress id => (egressOf raw nodeId id).bind (realize id)

theorem realizeKind_block {raw nodeId kind}
    (h : realizeKind raw nodeId kind = some .block) : kind = .block := by
  cases kind with
  | block => rfl
  | direct => cases h
  | egress id =>
    obtain ⟨e, -, he⟩ := bind_eq_some_iff.1 h
    cases e with
    | upstream backend =>
      obtain ⟨_, -, h⟩ := map_eq_some_iff.1 he
      cases h
    | chain members =>
      obtain ⟨_, -, h⟩ := map_eq_some_iff.1 he
      cases h

/-- Two snapshots with the same policies, which bind a user to the same one,
answer in the name of the same policy, route and host on any two nodes. -/
theorem decide_attribution (parseIpNet : Str → Option IpNet) (book : Option Book) {raw₁ raw₂ : RawSnapshot} {username}
    (hu : (raw₁.users.get? username).map (·.policy) = (raw₂.users.get? username).map (·.policy))
    (hp : ∀ id, raw₁.routingPolicies.get? id = raw₂.routingPolicies.get? id)
    (n₁ n₂ requestedHost : Str) (sniffedHost : Option Str) :
    let d₁ := decide parseIpNet book raw₁ n₁ username requestedHost sniffedHost
    let d₂ := decide parseIpNet book raw₂ n₂ username requestedHost sniffedHost
    d₁.policyId = d₂.policyId ∧ d₁.matchedRoute = d₂.matchedRoute ∧
      d₁.effectivePolicyHost = d₂.effectivePolicyHost := by
  unfold decide
  cases hu₁ : raw₁.users.get? username with
  | none =>
    rw [hu₁, eq_comm, map_none, map_eq_none_iff] at hu
    simp [hu]
  | some user =>
    rw [hu₁, eq_comm, map_some, map_eq_some_iff] at hu
    obtain ⟨user₂, hu₂, hpolicy⟩ := hu
    simp only [hu₂, hpolicy, hp]
    cases raw₂.routingPolicies.get? user.policy with
    | none => exact ⟨rfl, rfl, rfl⟩
    | some policy =>
      dsimp only
      cases blockRoute (firstRoute parseIpNet book policy requestedHost) with
      | some i => exact ⟨rfl, rfl, rfl⟩
      | none =>
        dsimp only
        split
        · exact ⟨rfl, rfl, rfl⟩
        · split
          · exact ⟨rfl, rfl, rfl⟩
          · exact ⟨rfl, rfl, rfl⟩
          · exact ⟨rfl, rfl, rfl⟩

theorem decide_policyId (parseIpNet : Str → Option IpNet) (book : Option Book) {raw username user policy}
    (hu : raw.users.get? username = some user) (hp : raw.routingPolicies.get? user.policy = some policy)
    (nodeId requestedHost : Str) (sniffedHost : Option Str) :
    (decide parseIpNet book raw nodeId username requestedHost sniffedHost).policyId = some user.policy := by
  unfold decide
  simp only [hu, hp]
  split
  · rfl
  · split
    · rfl
    · split <;> rfl

end Reference

/-! ## Decisions -/

/-- The kind of a decision is the one the raw tables make at the matched route,
and the decision is what that kind is realised by on the node. -/
theorem decideWithSniff_kind {parseIpNet parseDate o raw nodeId book book' s}
    (h : compileChecked parseIpNet parseDate o raw nodeId book = .ok (s, book'))
    (username requestedHost : Str) (sniffedHost : Option Str) :
    let d := s.decideWithSniff username requestedHost sniffedHost
    s.kindOf d = Reference.kindAt raw username d.matchedRoute ∧
      Reference.realizeKind raw nodeId (s.kindOf d) = some d.decision := by
  intro d
  have hfrom := compileChecked_spec h
  have hd : d = _ := hfrom.decideWithSniff username requestedHost sniffedHost
  unfold Reference.kindAt
  cases hu : raw.users.get? username with
  | none =>
    have hblock : d.policyId = none ∧ d.decision = .block := by
      rw [hd]
      simp [Reference.decide, hu]
    rw [Snapshot.kindOf, hblock.1, hblock.2]
    exact ⟨rfl, rfl⟩
  | some user =>
    obtain ⟨_, -, -, hkey⟩ := hfrom.users.exists_get? hu
    obtain ⟨policy, hcompiled⟩ := HashMap.containsKey_iff.1 hkey
    obtain ⟨rawPolicy, hp, hok⟩ := hfrom.policies.get?_eq_some hcompiled
    have hid : d.policyId = some user.policy := by
      rw [hd]
      exact Reference.decide_policyId parseIpNet _ hu hp nodeId requestedHost sniffedHost
    obtain ⟨action, hresp, hdec⟩ := Reference.decide_responsible parseIpNet (book.map (·.book)) hu hp
      nodeId requestedHost sniffedHost
    rw [← hd] at hresp hdec
    obtain ⟨compiled, hcomp, haction⟩ := hok.responsible hresp
    have hkind : s.kindOf d = action.kind := by
      rw [Snapshot.kindOf, hid, bind_some, hcompiled, bind_some, hcomp]
      exact haction.kind
    rw [hkind, bind_some, hp, bind_some, hresp]
    refine ⟨rfl, ?_⟩
    -- an egress that is named is there, or the snapshot would not have compiled
    cases action with
    | direct => rw [hdec]; rfl
    | block => rw [hdec]; rfl
    | egress id =>
      obtain ⟨e, he, hrealize⟩ := hfrom.decision_of_egress hu hp hresp
      rw [RawAction.kind, Reference.realizeKind, he]
      exact hrealize

/-- Compiled for any two nodes, with the same address book, a snapshot answers
in the name of the same policy, route and host, and with a decision of the same
kind. Each node's answer is what that kind is realised by there, so the nodes
differ at most in how a named egress is realised; they block the same traffic. -/
theorem decision_kind_independent_of_node (parseIpNet : Str → Option IpNet) (parseDate : Str → Res NaiveDate)
    (o₁ o₂ : IterOrder) (raw : RawSnapshot) (n₁ n₂ : Str) (book₁ book₂ book₁' book₂' : Option LoadedBook)
    (hbook : book₁.map (·.book) = book₂.map (·.book)) (s₁ s₂ : Snapshot)
    (h₁ : compileChecked parseIpNet parseDate o₁ raw n₁ book₁ = .ok (s₁, book₁'))
    (h₂ : compileChecked parseIpNet parseDate o₂ raw n₂ book₂ = .ok (s₂, book₂'))
    (username requestedHost : Str) (sniffedHost : Option Str) :
    let d₁ := s₁.decideWithSniff username requestedHost sniffedHost
    let d₂ := s₂.decideWithSniff username requestedHost sniffedHost
    d₁.policyId = d₂.policyId ∧ d₁.matchedRoute = d₂.matchedRoute ∧
      d₁.effectivePolicyHost = d₂.effectivePolicyHost ∧ s₁.kindOf d₁ = s₂.kindOf d₂ ∧
      (d₁.decision = .block ↔ d₂.decision = .block) ∧
      Reference.realizeKind raw n₁ (s₁.kindOf d₁) = some d₁.decision ∧
      Reference.realizeKind raw n₂ (s₁.kindOf d₁) = some d₂.decision := by
  intro d₁ d₂
  obtain ⟨hid, hroute, hhost⟩ : d₁.policyId = d₂.policyId ∧ d₁.matchedRoute = d₂.matchedRoute ∧
      d₁.effectivePolicyHost = d₂.effectivePolicyHost := by
    rw [show d₁ = _ from (compileChecked_spec h₁).decideWithSniff .., hbook,
      show d₂ = _ from (compileChecked_spec h₂).decideWithSniff ..]
    exact Reference.decide_attribution _ _ rfl (fun _ => rfl) ..
  obtain ⟨hkind₁, hreal₁⟩ := decideWithSniff_kind h₁ username requestedHost sniffedHost
  obtain ⟨hkind₂, hreal₂⟩ := decideWithSniff_kind h₂ username requestedHost sniffedHost
  have hkind : s₁.kindOf d₁ = s₂.kindOf d₂ := by rw [hkind₁, hroute, hkind₂]
  refine ⟨hid, hroute, hhost, hkind, ⟨fun hb => ?_, fun hb => ?_⟩, hreal₁, hkind ▸ hreal₂⟩
  · rw [hb] at hreal₁
    rw [← hkind, Reference.realizeKind_block hreal₁] at hreal₂
    exact (Option.some.inj hreal₂).symm
  · rw [hb] at hreal₂
    rw [hkind, Reference.realizeKind_block hreal₂] at hreal₁
    exact (Option.some.inj hreal₁).symm

theorem decision_kind_independent_of_node_override :
    ∃ s₁ s₂ book₁ book₂,
      compileChecked (fun _ => none) (fun _ => .error "") .keep overriddenSnapshot "n1" none = .ok (s₁, book₁) ∧
      compileChecked (fun _ => none) (fun _ => .error "") .keep overriddenSnapshot "n2" none = .ok (s₂, book₂) ∧
      let d₁ := s₁.decideWithSniff "u" "a.example" none
      let d₂ := s₂.decideWithSniff "u" "a.example" none
      d₁.decision ≠ d₂.decision ∧ s₁.kindOf d₁ = s₂.kindOf d₂ := by
  obtain ⟨⟨s₁, book₁⟩, h₁⟩ := Res.exists_of_isOk (show (compileChecked (fun _ => none) (fun _ => .error "") .keep
    overriddenSnapshot "n1" none).isOk = true by decide +kernel)
  obtain ⟨⟨s₂, book₂⟩, h₂⟩ := Res.exists_of_isOk (show (compileChecked (fun _ => none) (fun _ => .error "") .keep
    overriddenSnapshot "n2" none).isOk = true by decide +kernel)
  refine ⟨s₁, s₂, book₁, book₂, h₁, h₂, ?_,
    (decision_kind_independent_of_node _ _ _ _ _ _ _ none none _ _ rfl s₁ s₂ h₁ h₂ _ _ none).2.2.2.1⟩
  rw [(compileChecked_spec h₁).decideWithSniff, (compileChecked_spec h₂).decideWithSniff]
  decide +kernel

end Rove.Model
