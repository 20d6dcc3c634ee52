/-
The SNI gateway (`inbound/sni.rs` with `sni_gateway_config` of `config.rs`): a
listener without credentials that reads a ClientHello, checks the name in it
against its own list of origins and relays the TLS bytes as they came.

`sni_gateway_dials_only_allowed` says what must hold when anything is dialled.
-/
import Rove.Base.SocketAddr
import Rove.Engine
import Rove.Model.Compile
import Rove.Outbound.Connect
import Rove.Sniff.Hello

namespace Rove.Inbound

open List Res
open Io (PrefixedIo)
open Model (Snapshot NaiveDate Decision)
open Sniff (Parsers Turn CapturedPrefix SniffObservation normalizeDnsName capturePrefix IsHelloFor)
open Outbound (Course)

/-! ## Configuration -/

structure TlsFiles where
  cert : Str
  key : Str

/-- `Listener`, as far as the gateway reads it. -/
structure Listener where
  name : Str
  protocol : Str
  tls : Option TlsFiles := none
  identity : Option Str := none
  origins : List Str := []

/-- `SniGatewayConfig`; the set of origins as a list. -/
structure SniGatewayConfig where
  identity : Str
  origins : List Str
  deriving DecidableEq

def SniGatewayConfig.allows (gateway : SniGatewayConfig) (host : Str) : Bool := gateway.origins.contains host

/-- The loop of `sni_gateway_config` over the origins. -/
def compileOrigins (name : String) : List Str → List Str → Res (List Str)
  | [], origins => .ok origins
  | origin :: rest, origins => do
    let quoted := Str.debug origin
    let normalized ← (normalizeDnsName origin).elim
      (.error s!"listener {name}: invalid SNI origin {quoted}; expected an exact DNS name") .ok
    let quoted := Str.debug normalized
    ensure (normalized ∉ origins) s!"listener {name}: duplicate SNI origin {quoted}"
    compileOrigins name rest (origins ++ [normalized])

def Listener.sniGatewayConfig (listener : Listener) : Res SniGatewayConfig := do
  let name := Str.display listener.name
  ensure (Str.eqIgnoreAsciiCase (Str.trim listener.protocol) "sni" = true)
    s!"listener {name}: sni gateway configuration requires protocol = \"sni\""
  ensure (listener.tls = none)
    s!"listener {name}: protocol = \"sni\" must not set [listeners.tls]; it transparently relays TLS"
  let identity ← ((listener.identity.map Str.trim).filter (· ≠ [])).elim
    (.error s!"listener {name}: protocol = \"sni\" requires a non-empty identity") .ok
  ensure (listener.origins ≠ []) s!"listener {name}: protocol = \"sni\" requires at least one origin"
  let origins ← compileOrigins name listener.origins []
  .ok ⟨identity, origins⟩

theorem mem_compileOrigins {name origins found result host}
    (h : compileOrigins name origins found = .ok result) (hmem : host ∈ result) :
    host ∈ found ∨ ∃ origin ∈ origins, normalizeDnsName origin = some host := by
  induction origins generalizing found with
  | nil =>
    cases h
    exact .inl hmem
  | cons origin rest ih =>
    obtain ⟨normalized, hnormalized, h⟩ := bind_eq_ok.1 h
    obtain ⟨-, h⟩ := ensure_bind_eq_ok.1 h
    have horigin : normalizeDnsName origin = some normalized := by
      cases hname : normalizeDnsName origin with
      | none =>
        rw [hname] at hnormalized
        cases hnormalized
      | some found =>
        rw [hname] at hnormalized
        exact congrArg some (Except.ok.inj hnormalized)
    rcases ih h with hfound | ⟨other, hother, hname⟩
    · rcases mem_append.1 hfound with hold | hnew
      · exact .inl hold
      · rw [mem_singleton.1 hnew]
        exact .inr ⟨origin, mem_cons_self, horigin⟩
    · exact .inr ⟨other, mem_cons_of_mem _ hother, hname⟩

/-- What an accepted listener says: an identity, and origins that are DNS names. -/
theorem Listener.sniGatewayConfig_eq_ok {listener : Listener} {gateway : SniGatewayConfig}
    (h : listener.sniGatewayConfig = .ok gateway) :
    listener.identity.map Str.trim = some gateway.identity ∧
      ∀ host, gateway.allows host = true → ∃ origin ∈ listener.origins, normalizeDnsName origin = some host := by
  obtain ⟨-, h⟩ := ensure_bind_eq_ok.1 h
  obtain ⟨-, h⟩ := ensure_bind_eq_ok.1 h
  obtain ⟨identity, hidentity, h⟩ := bind_eq_ok.1 h
  obtain ⟨-, h⟩ := ensure_bind_eq_ok.1 h
  obtain ⟨origins, horigins, h⟩ := bind_eq_ok.1 h
  cases h
  refine ⟨?_, fun host hallows => ?_⟩
  · cases hfilter : (listener.identity.map Str.trim).filter (· ≠ []) with
    | none =>
      rw [hfilter] at hidentity
      cases hidentity
    | some found =>
      rw [hfilter] at hidentity
      cases hidentity
      exact (Option.filter_eq_some_iff.1 hfilter).1
  · rcases mem_compileOrigins horigins (contains_iff_mem.1 hallows) with hnil | horigin
    · cases hnil
    · exact horigin

/-! ## One connection -/

def trustedSni (observation : SniffObservation) : Option Str :=
  if observation.outcome = .matched ∧ observation.protocol = some .tls then observation.host else none

/-- What one client connection meets: the address it came to, the date, the
connections counted, the snapshot when the identity is checked and when the
policy is asked, the clock while the prefix is read, and the network. -/
structure Visit where
  localAddr : Option SocketAddr
  today : NaiveDate
  active : HashMap Str Nat
  authSnapshot : Snapshot
  routeSnapshot : Snapshot
  maxBytes : Nat
  turns : Nat → Turn
  late : Bool
  course : Course

/-- A call of `outbound::connect`. -/
structure Dial where
  decision : Decision
  host : Str
  port : Nat
  deriving DecidableEq

/-- A call of `splice`. -/
structure Relay (σ : Type) where
  client : PrefixedIo σ
  outbound : Outbound.Stream
  egress : Outbound.EgressInfo
  upRate : BitVec 64
  downRate : BitVec 64

/-- What came of a connection; a failure is reported with its stage and message. -/
structure Served (σ : Type) where
  dials : List Dial := []
  relayed : Option (Relay σ) := none
  failure : Option (String × String) := none

/-- A connection that ends with a report, and nothing dialled. -/
def Served.refused {σ : Type} (stage message : String) : Served σ := { failure := some (stage, message) }

def failureStage : Outbound.ProxyError → String
  | .blocked _ => "policy"
  | .dns _ => "dns"
  | .dial _ => "dial"
  | .tls _ => "tls"
  | .upstream _ => "outbound"
  | .reverseUnavailable _ => "reverse_lookup"
  | .reverseOpen _ => "reverse_open"
  | .reverseHopConnect _ => "hop_connect"
  | .chainExhausted _ _ _ => "chain_exhausted"
  | .io _ => "outbound"

section
variable {σ : Type} [Source σ] (p : Parsers) (base64 : Bytes → Str)

/-- The part of `serve` after the name is known. -/
def serveHost (gateway : SniGatewayConfig) (v : Visit) (auth : Engine.AuthOk) (port : BitVec 16) (captured : Bytes)
    (stream : σ) (host : Str) : Served σ :=
  if !gateway.allows host then .refused "sni_allowlist" "SNI is not an allowed origin"
  else
    let resolved := v.routeSnapshot.decideWithSniff gateway.identity host none
    if resolved.decision = .block then .refused "policy" "blocked by policy"
    else
      let dial : Dial := ⟨resolved.decision, host, port.toNat⟩
      match (Outbound.connect base64 v.course resolved.decision host port.toNat).2 with
      | .error error => { dials := [dial], failure := some (failureStage error, "upstream connect failed") }
      | .ok (outbound, egress) =>
        { dials := [dial], relayed := some ⟨.new captured stream, outbound, egress, auth.upRate, auth.downRate⟩ }

/-- `serve`. The permit is taken before anything is read. -/
def serve (gateway : SniGatewayConfig) (v : Visit) (stream : σ) : Served σ :=
  match Engine.authenticateBoundIdentity v.authSnapshot v.today gateway.identity with
  | .error .expired => .refused "auth" "bound gateway identity expired"
  | .error _ => .refused "auth" "bound gateway identity unavailable"
  | .ok auth =>
    match Engine.acquireConnection v.active gateway.identity auth.maxConnections with
    | .error _ => .refused "limit" "connection limit exceeded"
    | .ok _ =>
      match (v.localAddr.map SocketAddr.port).filter (· ≠ 0) with
      | none => .refused "listener" "gateway listener port unavailable"
      | some port =>
        match capturePrefix p v.maxBytes v.turns v.late stream with
        | (.error _, _) => .refused "sni_read" "ClientHello read failed"
        | (.ok captured, stream) =>
          match trustedSni captured.observation with
          | none => .refused "sni" "valid TLS SNI is required"
          | some host => serveHost base64 gateway v auth port captured.bytes stream host

end

/-! ## What is dialled -/

variable {σ : Type} {p : Parsers} {base64 : Bytes → Str}

theorem serveHost_cases (gateway : SniGatewayConfig) (v : Visit) (auth : Engine.AuthOk)
    (port : BitVec 16) (captured : Bytes) (stream : σ) (host : Str) :
    (∃ stage message, serveHost base64 gateway v auth port captured stream host = .refused stage message) ∨
      gateway.allows host = true ∧
        ∃ dial : Dial,
          dial = ⟨(v.routeSnapshot.decideWithSniff gateway.identity host none).decision, host, port.toNat⟩ ∧
          dial.decision ≠ .block ∧
          (serveHost base64 gateway v auth port captured stream host).dials = [dial] ∧
          ∀ relay, (serveHost base64 gateway v auth port captured stream host).relayed = some relay →
            relay.client = .new captured stream ∧
              (Outbound.connect base64 v.course dial.decision host port.toNat).2 =
                .ok (relay.outbound, relay.egress) := by
  unfold serveHost
  dsimp only
  split
  · exact .inl ⟨_, _, rfl⟩
  · next hallows =>
    rw [Bool.not_eq_true, Bool.not_eq_false'] at hallows
    split
    · exact .inl ⟨_, _, rfl⟩
    · next hblock =>
      refine .inr ⟨hallows, _, rfl, hblock, ?_⟩
      split
      · exact ⟨rfl, fun relay hrelay => (by cases hrelay)⟩
      · next outbound egress hconnect =>
        refine ⟨rfl, fun relay hrelay => ?_⟩
        cases hrelay
        exact ⟨rfl, hconnect⟩

theorem trustedSni_eq_some {observation host} (h : trustedSni observation = some host) :
    observation = .matched ⟨.tls, host⟩ := by
  obtain ⟨⟨houtcome, hprotocol⟩, hhost⟩ := Option.ite_none_right_eq_some.1 h
  obtain ⟨outcome, protocol, found⟩ := observation
  cases houtcome
  cases hprotocol
  cases hhost
  rfl

variable [Source σ]

theorem serve_cases (gateway : SniGatewayConfig) (v : Visit) (stream : σ) :
    (∃ stage message, serve p base64 gateway v stream = .refused stage message) ∨
      ∃ auth active addr captured stream' host,
        Engine.authenticateBoundIdentity v.authSnapshot v.today gateway.identity = .ok auth ∧
          Engine.acquireConnection v.active gateway.identity auth.maxConnections = .ok active ∧
          v.localAddr = some addr ∧
          capturePrefix p v.maxBytes v.turns v.late stream = (.ok captured, stream') ∧
          captured.observation = .matched ⟨.tls, host⟩ ∧
          serve p base64 gateway v stream = serveHost base64 gateway v auth addr.port captured.bytes stream' host := by
  unfold serve
  split
  · exact .inl ⟨_, _, rfl⟩
  · exact .inl ⟨_, _, rfl⟩
  · next auth hauth =>
    split
    · exact .inl ⟨_, _, rfl⟩
    · next active hactive =>
      split
      · exact .inl ⟨_, _, rfl⟩
      · next port hport =>
        split
        · exact .inl ⟨_, _, rfl⟩
        · next captured stream' hcaptured =>
          split
          · exact .inl ⟨_, _, rfl⟩
          · next host hhost =>
            obtain ⟨addr, haddr, rfl⟩ := Option.map_eq_some_iff.1 (Option.filter_eq_some_iff.1 hport).1
            exact .inr ⟨auth, active, addr, captured, stream', host, hauth, hactive, haddr, hcaptured,
              trustedSni_eq_some hhost, rfl⟩

/-- Why a dial is made: the prefix that was captured is a ClientHello for one of
the listener's origins, its identity is served and has a connection left, and the
policy for that identity and name does not block; it goes to that name at the
port the client came to. -/
structure Allowed (p : Parsers) (listener : Listener) (v : Visit) (stream : σ) (dial : Dial) : Prop where
  hello : ∃ captured stream', capturePrefix p v.maxBytes v.turns v.late stream = (.ok captured, stream') ∧
    IsHelloFor p captured.bytes dial.host
  origin : ∃ origin ∈ listener.origins, normalizeDnsName origin = some dial.host
  identity : ∃ identity user, listener.identity.map Str.trim = some identity ∧
    v.authSnapshot.users.get? identity = some user ∧
    (∀ expire, user.expire = some expire → v.today.isAfter expire = false) ∧
    (user.maxConnections = 0 ∨ (v.active.get? identity).getD 0 < user.maxConnections.toNat) ∧
    dial.decision = (v.routeSnapshot.decideWithSniff identity dial.host none).decision
  unblocked : dial.decision ≠ .block
  port : ∃ addr, v.localAddr = some addr ∧ dial.port = addr.port.toNat

/-- Whatever the client sends, in whatever pieces and at whatever times, a gateway
dials at most once, only where it is allowed, and what it relays there is the
client's stream from its first byte. -/
theorem sni_gateway_dials_only_allowed (p : Parsers) (base64 : Bytes → Str) {listener : Listener}
    {gateway : SniGatewayConfig} (hconfig : listener.sniGatewayConfig = .ok gateway) (v : Visit) (stream : σ) :
    let served := serve p base64 gateway v stream
    served.dials.length ≤ 1 ∧
      (∀ dial ∈ served.dials, Allowed p listener v stream dial) ∧
      ∀ relay, served.relayed = some relay → ∃ dial, served.dials = [dial] ∧
        (Outbound.connect base64 v.course dial.decision dial.host dial.port).2 = .ok (relay.outbound, relay.egress) ∧
        Source.Yields relay.client (Source.rest stream) := by
  dsimp only
  have hrefused : ∀ {served : Served σ}, (∃ stage message, served = .refused stage message) →
      served.dials.length ≤ 1 ∧ (∀ dial ∈ served.dials, Allowed p listener v stream dial) ∧
        ∀ relay, served.relayed = some relay → ∃ dial, served.dials = [dial] ∧
          (Outbound.connect base64 v.course dial.decision dial.host dial.port).2 = .ok (relay.outbound, relay.egress) ∧
          Source.Yields relay.client (Source.rest stream) := by
    rintro _ ⟨stage, message, rfl⟩
    exact ⟨Nat.zero_le _, fun _ h => absurd h not_mem_nil, fun _ h => (by cases h)⟩
  obtain ⟨hidentity, horigins⟩ := Listener.sniGatewayConfig_eq_ok hconfig
  rcases @serve_cases σ p base64 _ gateway v stream with hend | ⟨auth, active, addr, captured,
    stream', host, hauth, hactive, haddr, hcaptured, hmatched, hserve⟩
  · exact hrefused hend
  · rw [hserve]
    rcases @serveHost_cases σ base64 gateway v auth addr.port captured.bytes stream' host
      with hend | ⟨hallows, dial, rfl, hblock, hdials, hrelayed⟩
    · exact hrefused hend
    · obtain ⟨user, huser, hexpire, hmax⟩ := Engine.authenticateBoundIdentity_eq_ok hauth
      have hfree := Engine.acquireConnection_eq_ok hactive
      rw [hmax] at hfree
      rw [hdials]
      refine ⟨Nat.le_refl _, fun dial hdial => ?_, fun relay hrelay => ⟨_, rfl, ?_⟩⟩
      · rw [mem_singleton.1 hdial]
        exact {
          hello := ⟨captured, stream', hcaptured, Sniff.capturePrefix_tls hcaptured hmatched⟩
          origin := horigins host hallows
          identity := ⟨gateway.identity, user, hidentity, huser, hexpire, hfree, rfl⟩
          unblocked := hblock
          port := ⟨addr, haddr, rfl⟩ }
      · obtain ⟨hclient, hconnect⟩ := hrelayed relay hrelay
        refine ⟨hconnect, ?_⟩
        rw [hclient, ← (Sniff.capturePrefix_spec hcaptured).1]
        exact Source.yields_rest (PrefixedIo.new captured.bytes stream')

/-- The record of a ClientHello, with one cipher suite and the server name `A.example.`. -/
def helloBytes : Bytes :=
  [0x16, 3, 1, 0, 0x42, 1, 0, 0, 0x3e, 3, 3] ++ replicate 32 7 ++ [0, 0, 2, 0x13, 1, 1, 0] ++
    [0, 0x13, 0, 0, 0, 0x0f, 0, 0x0d, 0, 0, 0x0a] ++ utf8Bytes "A.example."

/-- An acceptor that knows this ClientHello. -/
def helloAcceptor : Sniff.Acceptor where
  capacity := 4096
  take given offered := min offered.length (4096 - given.length)
  accept given :=
    if helloBytes <+: given then .hello (some "A.example.") else if given <+: helloBytes then .more else .failed
  capacity_pos := by decide
  take_pos h hne := by
    have := length_pos_of_ne_nil hne
    omega
  take_le given offered := by omega
  accept_append {given} h later := by
    by_cases hwhole : helloBytes <+: given
    · rw [if_pos hwhole, if_pos (hwhole.trans (prefix_append _ _))]
    · have hother : ¬ given <+: helloBytes := fun hpart => h (by rw [if_neg hwhole, if_pos hpart])
      have hboth : ¬ helloBytes <+: given ++ later := fun hpart =>
        (List.prefix_or_prefix_of_prefix hpart (prefix_append given later)).elim hwhole hother
      rw [if_neg hwhole, if_neg hother, if_neg hboth, if_neg fun hpart => hother ((prefix_append _ _).trans hpart)]

def helloParsers : Parsers := ⟨helloAcceptor, Sniff.exampleHttp, fun _ => none⟩

def exampleListener : Listener :=
  { name := "edge", protocol := " SNI", identity := some "app ", origins := ["a.example"] }

def exampleGateway : SniGatewayConfig := ⟨"app", ["a.example"]⟩

/-- A snapshot that sends everything of one user on directly. -/
def directSnapshot : Snapshot :=
  { Snapshot.empty with
    users := HashMap.insert ∅ "app"
      ⟨[], some ⟨2026, 12, 31⟩, 0, 0, 1, "all", ∅⟩
    policies := HashMap.insert ∅ "all" (.fromRoutes .keep [] .direct) }

/-- A visit on the last day, when every connection can be made. -/
def exampleVisit : Visit where
  localAddr := some (.v4 (.new 127 0 0 1) 443)
  today := ⟨2026, 12, 31⟩
  active := ∅
  authSnapshot := directSnapshot
  routeSnapshot := directSnapshot
  maxBytes := 4096
  turns _ := {}
  late := false
  course := ⟨fun _ => ⟨fun _ _ => .ok (), fun _ => .ok (), fun _ _ => .ok (), fun _ => ⟨[], none⟩, none, none, false⟩,
    fun _ => 0, fun _ => none⟩

/-- A ClientHello in two reads, and the connection goes to `a.example:443`. -/
theorem sni_gateway_dials_example :
    let stream : List Bytes := [helloBytes.take 20, helloBytes.drop 20 ++ [1, 2]]
    let served := serve helloParsers (fun _ => []) exampleGateway exampleVisit stream
    exampleListener.sniGatewayConfig = .ok exampleGateway ∧ served.dials = [⟨.direct, "a.example", 443⟩] ∧
      Allowed helloParsers exampleListener exampleVisit stream ⟨.direct, "a.example", 443⟩ ∧
      ∃ relay, served.relayed = some relay ∧ Source.Yields relay.client (helloBytes ++ [1, 2]) := by
  intro stream served
  have hconfig : exampleListener.sniGatewayConfig = .ok exampleGateway := by decide +kernel
  have hdials : served.dials = [⟨.direct, "a.example", 443⟩] := by decide +kernel
  have hsome : served.relayed.isSome = true := by decide +kernel
  obtain ⟨-, hallowed, hrelayed⟩ := sni_gateway_dials_only_allowed helloParsers
    (fun _ => []) hconfig exampleVisit stream
  obtain ⟨relay, hrelay⟩ := Option.isSome_iff_exists.1 hsome
  obtain ⟨-, -, -, hyields⟩ := hrelayed relay hrelay
  exact ⟨hconfig, hdials, hallowed _ (hdials ▸ mem_singleton_self _), relay, hrelay, hyields⟩

end Rove.Inbound
