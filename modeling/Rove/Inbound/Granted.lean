/-
The access rule of the HTTP and the SOCKS5 inbound: over every stream of a client
there is at most one outbound connection, for a user that may be served and has
one left, and with the policy's decision on the very host that was asked for.
-/
import Rove.Inbound.Socks5

namespace Rove.Inbound

open Sniff (Parsers capturePrefix)
open Io (PrefixedIo)

/-- A user that may be served, with a connection left. -/
def Http.Visit.LetsIn (v : Http.Visit) (name password : Str) : Prop :=
  ∃ user, v.authSnapshot.users.get? name = some user ∧ user.password = password ∧
    user.expire.any v.today.isAfter = false ∧
    (user.maxConnections = 0 ∨ (v.active.get? name).getD 0 < user.maxConnections.toNat)

/-- An outbound connection as the policy has it, for a host that is not blocked: as
requested and, where the client's bytes are sniffed, as seen in what was captured
of them. -/
structure Granted {σ : Type} [Source σ] (p : Parsers) (v : Http.Visit) (name host : Str) (port : Nat) (sniffs : Prop)
    (client : σ) (dial : Dial) : Prop where
  target : dial.host = host ∧ dial.port = port
  requested : (v.routeSnapshot.decideWithSniff name host none).decision ≠ .block
  unblocked : dial.decision ≠ .block
  direct : ¬ sniffs → dial.decision = (v.routeSnapshot.decideWithSniff name host none).decision
  sniffed : sniffs → ∃ captured, (capturePrefix p v.maxBytes v.turns v.late client).1 = .ok captured ∧
    dial.decision = (v.sniffSnapshot.decideWithSniff name host captured.observation.host).decision

/-- No connection, or one that is granted. -/
def Grants {σ : Type} [Source σ] (p : Parsers) (v : Http.Visit) (name password host : Str) (port : Nat) (sniffs : Prop)
    (client : σ) (dials : List Dial) : Prop :=
  dials = [] ∨ v.LetsIn name password ∧ ∃ dial, dials = [dial] ∧ Granted p v name host port sniffs client dial

theorem authenticate_eq_ok {snap today name password auth}
    (h : Engine.authenticate snap today name password = .ok auth) :
    ∃ user, snap.users.get? name = some user ∧ user.password = password ∧ user.expire.any today.isAfter = false ∧
      auth.maxConnections = user.maxConnections := by
  obtain ⟨user, huser, hpassword, hexpire⟩ := Engine.authenticate_isOk_iff.1 ⟨auth, h⟩
  have heq : Util.constantTimeEq user.password password = true := Util.constantTimeEq_iff.2 hpassword
  simp only [Engine.authenticate, huser, heq, hexpire, Bool.not_true, Bool.false_eq_true,
    if_false, Except.ok.injEq] at h
  exact ⟨user, huser, hpassword, hexpire, by rw [← h]⟩

theorem letsIn_of_ok {v : Http.Visit} {name password auth active}
    (hauth : Engine.authenticate v.authSnapshot v.today name password = .ok auth)
    (hactive : Engine.acquireConnection v.active name auth.maxConnections = .ok active) : v.LetsIn name password := by
  obtain ⟨user, huser, hpassword, hexpire, hmax⟩ := authenticate_eq_ok hauth
  exact ⟨user, huser, hpassword, hexpire, hmax ▸ Engine.acquireConnection_eq_ok hactive⟩

section
variable {σ : Type} [Source σ] {p : Parsers}
  {base64 : Bytes → Str} {v : Http.Visit} {name password : Str} {auth : Engine.AuthOk}

theorem Grants.asRequested {host port} {sniffs : Prop} {client : σ} (hletsIn : v.LetsIn name password)
    (hrequested : (v.routeSnapshot.decideWithSniff name host none).decision ≠ .block) (hsniff : ¬ sniffs) :
    Grants p v name password host port sniffs client
      [⟨(v.routeSnapshot.decideWithSniff name host none).decision, host, port⟩] :=
  .inr ⟨hletsIn, _, rfl, ⟨rfl, rfl⟩, hrequested, hrequested, fun _ => rfl, fun h => absurd h hsniff⟩

variable (hauth : Engine.authenticate v.authSnapshot v.today name password = .ok auth)
include hauth

theorem Http.serveUser_grants (request : ParsedRequest) (remainder : Bytes) (unread : List Bytes) :
    Grants p v name password request.host request.port (v.sniffsRoute ∧ request.target = .connect)
      (PrefixedIo.new remainder unread) (serveUser p base64 v request name auth remainder unread).dials := by
  simp only [serveUser]
  split
  · exact .inl rfl
  rename_i hrequested
  split
  · exact .inl rfl
  rename_i active hactive
  have hletsIn := letsIn_of_ok hauth hactive
  split
  · next hsniff =>
    simp only [tunnelConnectRoute]
    split
    · exact .inl rfl
    split
    · exact .inl rfl
    rename_i captured _ hcaptured
    split
    · exact .inl rfl
    rename_i hblock
    split <;> exact .inr ⟨hletsIn, _, rfl, ⟨rfl, rfl⟩, hrequested, hblock, fun h => absurd hsniff h,
      fun _ => ⟨captured, congrArg Prod.fst hcaptured, rfl⟩⟩
  rename_i hsniff
  split
  · exact .asRequested hletsIn hrequested hsniff
  simp only [relayRequest]
  split
  · split <;> exact .asRequested hletsIn hrequested hsniff
  · exact .asRequested hletsIn hrequested hsniff

end

/-- For every stream of a client and whatever it meets, the HTTP inbound makes no
outbound connection, or one: for the request at the head of the stream, under its
own credentials. -/
theorem http_connects_only_granted (p parseUrl decode base64) (v : Http.Visit) (reads : List Bytes) :
    let served := Http.serve p parseUrl decode base64 v reads
    served.dials = [] ∨ ∃ h request value name password dial, Util.readHttpHeadWithRemainder (16 * 1024) reads = .ok h ∧
      ParsedRequest.parse parseUrl h.head = .ok request ∧ request.proxyAuthorization = some value ∧
      decodeBasic decode value = some (name, password) ∧ v.LetsIn name password ∧ served.dials = [dial] ∧
      Granted p v name request.host request.port (v.sniffsRoute ∧ request.target = .connect)
        (PrefixedIo.new h.remainder h.unread) dial := by
  simp only [Http.serve]
  split
  · exact .inl rfl
  rename_i h hread
  split
  · exact .inl rfl
  rename_i request hparse
  split
  · exact .inl rfl
  simp only [Http.serveRequest]
  split
  · exact .inl rfl
  rename_i name password hbasic
  obtain ⟨value, hvalue, hbasic⟩ := Option.bind_eq_some_iff.1 hbasic
  split
  · exact .inl rfl
  · exact .inl rfl
  rename_i auth hauth
  rcases Http.serveUser_grants hauth request h.remainder h.unread with hnone | ⟨hletsIn, dial, hdial, hgranted⟩
  · exact .inl hnone
  · exact .inr ⟨h, request, value, name, password, dial, hread, hparse, hvalue, hbasic, hletsIn, hdial, hgranted⟩

end Rove.Inbound
