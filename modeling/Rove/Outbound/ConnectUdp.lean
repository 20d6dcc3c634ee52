/-
Opening the egress of a UDP association (`connect_udp`, `connect_udp_chain` in
`outbound/mod.rs`). A relay is known by the reverse hop it is bound to.

`connectUdp_selects`: whatever the network does, a relay that is opened is one
the decision selects.
-/
import Rove.Outbound.Connect

namespace Rove.Outbound

open Model (Upstream UpstreamKind Chain ChainMember Decision)

/-- `Debug` of an upstream kind. -/
def debugKind : UpstreamKind → String
  | .http => "Http"
  | .socks5 => "Socks5"
  | .reverse => "Reverse"
  | .subnetra => "Subnetra"

/-- What opening a relay gives: the hop it is bound to, and how it was found. -/
abbrev UdpOutcome := Except ProxyError (Str × EgressInfo)

/-- The loop of `connect_udp_chain` over the candidates that are left; the
manager is the one the chain was entered with, as each attempt finds it. -/
def connectUdpMembers (course : Course) (manager : ReverseHopManager) (id : Str) :
    List ChainMember → Nat → Option ProxyError → UdpOutcome
  | [], attempts, last =>
    let chain := Str.display id
    .error (.chainExhausted id attempts (last.getD (.upstream s!"chain {chain} has no eligible udp members")))
  | m :: ms, attempts, last =>
    let chain := Str.display id
    match remainingBudget (course.elapsed attempts) attempts with
    | none =>
      .error (.chainExhausted id attempts (last.getD (.upstream s!"chain {chain} has no eligible udp members")))
    | some perAttempt =>
      match course.timesOut attempts, ((course.net attempts).reverse.getD manager).openUdp m.upstream.addr with
      | some _, _ =>
        let member := Str.display m.id
        let limit := debugDuration perAttempt
        let e := ProxyError.reverseOpen s!"chain {chain} member {member} udp open timed out after {limit}"
        connectUdpMembers course manager id ms (attempts + 1) (some e)
      | none, .ok _ => .ok (m.upstream.addr, ⟨egressLabel m.upstream, some id, some m.id, attempts + 1⟩)
      | none, .error e => connectUdpMembers course manager id ms (attempts + 1) (some e)

def connectUdpChain (course : Course) (chain : Chain) : UdpOutcome :=
  let candidates := chain.members.filter (·.upstream.kind = .reverse)
  let name := Str.display chain.id
  if candidates = [] then
    .error (.chainExhausted chain.id 0 (.upstream s!"chain {name} has no udp-capable (reverse) members"))
  else
    match (course.net 0).reverse with
    | none =>
      .error (.chainExhausted chain.id 0
        (.reverseUnavailable s!"chain {name} requested for udp but reverse data plane is not enabled"))
    | some manager => connectUdpMembers course manager chain.id candidates 0 none

def connectUdp (course : Course) : Decision → UdpOutcome
  | .via up =>
    let addr := Str.display up.addr
    if up.kind = .reverse then
      match (course.net 0).reverse with
      | none =>
        .error (.reverseUnavailable s!"reverse hop {addr} requested for udp but reverse data plane is not enabled")
      | some manager => (manager.openUdp up.addr).map fun _ => (up.addr, .single (egressLabel up))
    else
      let kind := debugKind up.kind
      .error (.upstream s!"udp egress not supported via upstream kind {kind} ({addr})")
  | .viaChain chain => connectUdpChain course chain
  | .direct => .error (.upstream "udp direct egress is out of scope for reverse/2 P0")
  | .block => .error (.blocked "udp")

/-- The hops a decision lets UDP leave through: the reverse hop it names, or a
reverse member of its chain. -/
def Selects : Decision → Str → Prop
  | .via up, hop => up.kind = .reverse ∧ up.addr = hop
  | .viaChain chain, hop => ∃ m ∈ chain.members, m.upstream.kind = .reverse ∧ m.upstream.addr = hop
  | .direct, _ => False
  | .block, _ => False

theorem connectUdpMembers_mem {course manager id ms attempts last hop info}
    (h : connectUdpMembers course manager id ms attempts last = .ok (hop, info)) :
    ∃ m ∈ ms, m.upstream.addr = hop := by
  induction ms generalizing attempts last with
  | nil => cases h
  | cons m ms ih =>
    rw [connectUdpMembers] at h
    split at h
    · cases h
    · split at h
      · obtain ⟨m', hm', heq⟩ := ih h
        exact ⟨m', List.mem_cons_of_mem _ hm', heq⟩
      · obtain ⟨hhop, _⟩ := Prod.mk.inj (Except.ok.inj h)
        exact ⟨m, List.mem_cons_self, hhop⟩
      · obtain ⟨m', hm', heq⟩ := ih h
        exact ⟨m', List.mem_cons_of_mem _ hm', heq⟩

/-- A relay that is opened is bound to a hop the decision selects. -/
theorem connectUdp_selects {course decision hop info}
    (h : connectUdp course decision = .ok (hop, info)) : Selects decision hop := by
  cases decision with
  | direct => cases h
  | block => cases h
  | via up =>
    rw [connectUdp] at h
    split at h
    · next hkind =>
      split at h
      · cases h
      · obtain ⟨_, _, heq⟩ := Res.map_eq_ok.1 h
        exact ⟨hkind, (Prod.mk.inj heq).1⟩
    · cases h
  | viaChain chain =>
    rw [connectUdp, connectUdpChain] at h
    split at h
    · cases h
    · split at h
      · cases h
      · obtain ⟨m, hm, heq⟩ := connectUdpMembers_mem h
        obtain ⟨hmem, hkind⟩ := List.mem_filter.1 hm
        exact ⟨m, hmem, of_decide_eq_true hkind, heq⟩

end Rove.Outbound
