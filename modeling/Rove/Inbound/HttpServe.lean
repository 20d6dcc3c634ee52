/-
`serve` of the HTTP inbound (`inbound/http.rs`): read a head, parse it, let its
user in, ask the policy, count the connection, connect.

The head is what comes before a blank line, or before the end of the stream:
`cut_off_head_refused_iff` says which heads are acted on though their end never
came, here and in the answer to `http_connect`.
-/
import Rove.Inbound.Framing
import Rove.Inbound.SniGateway
import Rove.Outbound.HttpTunnel

namespace Rove.Inbound

def ParsedRequest.validateRemainder (request : ParsedRequest) (remainderLen : Nat) : Option RequestError :=
  match request.target with
  | .connect => none
  | .forward _ _ =>
    match request.body with
    | .none => if remainderLen > 0 then some (badRequest "request bytes exceed declared body") else none
    | .fixed length => if remainderLen > length then some (badRequest "request bytes exceed content length") else none
    | .chunked => none

/-- `decode_basic`. `decode` is `STANDARD.decode` of the `base64` crate. -/
def decodeBasic (decode : Str → Option Bytes) (value : Str) : Option (Str × Str) := do
  let b64 ← Str.stripPrefix "Basic " value <|> Str.stripPrefix "basic " value
  let raw ← decode (Str.trim b64)
  let s ← fromUtf8 raw
  Str.splitOnce ':' s

theorem ParsedRequest.validateRemainder_zero (request : ParsedRequest) : request.validateRemainder 0 = none := by
  rw [validateRemainder]
  split
  · rfl
  · split <;> simp

namespace Http

open Model (Snapshot NaiveDate Decision)
open Io (PrefixedIo)
open Sniff (Parsers Turn capturePrefix)
open Outbound (Course)

/-- What one client connection meets: the date, the connections counted, the
snapshot each of the three times it is asked, the sniffing of the listener (in
`route` mode or not) with its clock, whether the client takes the reply to its
`CONNECT`, and the network. -/
structure Visit where
  today : NaiveDate
  active : HashMap Str Nat
  authSnapshot : Snapshot
  routeSnapshot : Snapshot
  sniffSnapshot : Snapshot
  sniffsRoute : Bool
  maxBytes : Nat
  turns : Nat → Turn
  late : Bool
  takesReply : Bool
  course : Course

/-- What goes on once the outbound connection stands: `splice` with the client, or
`forward_http`. -/
inductive Relay where
  | tunnel (client : PrefixedIo (List Bytes))
  | sniffed (client : PrefixedIo (PrefixedIo (List Bytes)))
  | forward (head : Bytes) (body : RequestBody) (client : PrefixedIo (List Bytes))

/-- What came of a connection: the status it was answered with, the user that was
let in, the calls of `outbound::connect`, and the stage and message of a failure. -/
structure Served where
  status : Option String := none
  user : Option Str := none
  dials : List Dial := []
  relay : Option Relay := none
  failure : Option (String × String) := none

def established : String := "200 Connection Established"

def proxyAuthenticationRequired : String := "407 Proxy Authentication Required"

section
variable (p : Parsers) (parseUrl : Str → Option Url) (decode : Str → Option Bytes) (base64 : Bytes → Str)

def tunnelConnectRoute (v : Visit) (user host : Str) (port : Nat) (remainder : Bytes) (unread : List Bytes) : Served :=
  if !v.takesReply then { user := some user, failure := some ("splice", "tunnel io failed") }
  else
    let opened : Served := { status := some established, user := some user }
    match capturePrefix p v.maxBytes v.turns v.late (PrefixedIo.new remainder unread) with
    | (.error _, _) => { opened with failure := some ("sniff_read", "route sniff read failed") }
    | (.ok captured, stream) =>
      let decision := (v.sniffSnapshot.decideWithSniff user host captured.observation.host).decision
      if decision = .block then
        { opened with failure := some ("policy", "blocked by requested or sniffed target policy") }
      else
        match (Outbound.connect base64 v.course decision host port).2 with
        | .error e =>
          { opened with
            dials := [⟨decision, host, port⟩]
            failure := some (failureStage e, "upstream connect failed") }
        | .ok _ =>
          { opened with dials := [⟨decision, host, port⟩], relay := some (.sniffed (.new captured.bytes stream)) }

/-- The end of `serve`, with the outbound connection in place. -/
def relayRequest (v : Visit) (request : ParsedRequest) (user : Str) (dial : Dial)
    (client : PrefixedIo (List Bytes)) : Served :=
  match request.target with
  | .connect =>
    if v.takesReply then
      { status := some established, user := some user, dials := [dial], relay := some (.tunnel client) }
    else { user := some user, dials := [dial], failure := some ("splice", "tunnel io failed") }
  | .forward originForm authority =>
    let head := buildForwardHead request.method request.version request.headers
      request.connectionTokens originForm authority
    { user := some user, dials := [dial], relay := some (.forward head request.body client) }

/-- `serve`, for a user that was let in. -/
def serveUser (v : Visit) (request : ParsedRequest) (user : Str) (auth : Engine.AuthOk) (remainder : Bytes)
    (unread : List Bytes) : Served :=
  let decision := (v.routeSnapshot.decideWithSniff user request.host none).decision
  if decision = .block then
    { status := some "403 Forbidden", user := some user, failure := some ("policy", "blocked by policy") }
  else
    match Engine.acquireConnection v.active user auth.maxConnections with
    | .error _ =>
      { status := some "429 Too Many Requests", user := some user,
        failure := some ("limit", "connection limit exceeded") }
    | .ok _ =>
      if v.sniffsRoute ∧ request.target = .connect then
        tunnelConnectRoute p base64 v user request.host request.port remainder unread
      else
        let dial : Dial := ⟨decision, request.host, request.port⟩
        match (Outbound.connect base64 v.course decision request.host request.port).2 with
        | .error e =>
          { status := some "502 Bad Gateway", user := some user, dials := [dial]
            failure := some (failureStage e, "upstream connect failed") }
        | .ok _ => relayRequest v request user dial (.new remainder unread)

/-- `serve`, for a request that was parsed. -/
def serveRequest (v : Visit) (request : ParsedRequest) (remainder : Bytes) (unread : List Bytes) : Served :=
  match request.proxyAuthorization.bind (decodeBasic decode) with
  | none => { status := some proxyAuthenticationRequired, failure := some ("auth", "proxy authorization missing") }
  | some (user, password) =>
    match Engine.authenticate v.authSnapshot v.today user password with
    | .error .expired => { status := some "403 Forbidden", failure := some ("auth", "user expired") }
    | .error _ => { status := some proxyAuthenticationRequired, failure := some ("auth", "authentication failed") }
    | .ok auth => serveUser p base64 v request user auth remainder unread

/-- `serve`. A head that cannot be read ends it without a word. -/
def serve (v : Visit) (reads : List Bytes) : Served :=
  match Util.readHttpHeadWithRemainder (16 * 1024) reads with
  | .error _ => {}
  | .ok h =>
    match ParsedRequest.parse parseUrl h.head with
    | .error e => { status := some e.status, failure := some ("parse", e.message) }
    | .ok request =>
      match request.validateRemainder h.remainder.length with
      | some e => { status := some e.status, failure := some ("parse", e.message) }
      | none => serveRequest p decode base64 v request h.remainder h.unread

end

/-! ## A head without an end -/

variable {p : Parsers} {parseUrl : Str → Option Url} {decode : Str → Option Bytes} {base64 : Bytes → Str}

/-- The stream ended before a blank line came. -/
def CutOff (reads : List Bytes) : Prop := findSub Util.headEnd reads.flatten = none

instance (reads : List Bytes) : Decidable (CutOff reads) := inferInstanceAs (Decidable (_ = _))

/-- Completed with the blank line it lacks, a text would be a request with the
credentials of a user who may be served. -/
def CompletesTo (parseUrl : Str → Option Url) (decode : Str → Option Bytes) (v : Visit) (bytes : Bytes) : Prop :=
  ∃ text request value username password user,
    bytes = utf8Bytes text ∧ ParsedRequest.parse parseUrl (utf8Bytes (text ++ Str.blankEnd)) = .ok request ∧
      request.proxyAuthorization = some value ∧ decodeBasic decode value = some (username, password) ∧
      v.authSnapshot.users.get? username = some user ∧ user.password = password ∧
      user.expire.any v.today.isAfter = false

theorem serveUser_user (v : Visit) (request : ParsedRequest) (user : Str) (auth : Engine.AuthOk) (remainder : Bytes)
    (unread : List Bytes) : (serveUser p base64 v request user auth remainder unread).user = some user := by
  simp only [serveUser]
  split
  · rfl
  · split
    · rfl
    · split
      · simp only [tunnelConnectRoute]
        split
        · rfl
        · split
          · rfl
          · split
            · rfl
            · split <;> rfl
      · split
        · rfl
        · simp only [relayRequest]
          split
          · split <;> rfl
          · rfl

/-- A request is acted on exactly when its credentials are those of a user. -/
theorem serveRequest_user (v : Visit) (request : ParsedRequest) (remainder : Bytes) (unread : List Bytes) :
    ((serveRequest p decode base64 v request remainder unread).user = none ∧
        (serveRequest p decode base64 v request remainder unread).dials = []) ↔
      ¬ ∃ value username password user, request.proxyAuthorization = some value ∧
        decodeBasic decode value = some (username, password) ∧ v.authSnapshot.users.get? username = some user ∧
        user.password = password ∧ user.expire.any v.today.isAfter = false := by
  rw [serveRequest]
  cases hvalue : request.proxyAuthorization.bind (decodeBasic decode) with
  | none =>
    refine iff_of_true ⟨rfl, rfl⟩ ?_
    rintro ⟨value, username, password, user, hsome, hbasic, -⟩
    rw [hsome, Option.bind_some, hbasic] at hvalue
    cases hvalue
  | some credentials =>
    obtain ⟨username, password⟩ := credentials
    obtain ⟨value, hsome, hbasic⟩ := Option.bind_eq_some_iff.1 hvalue
    have hauth := @Engine.authenticate_isOk_iff v.authSnapshot v.today username password
    dsimp only
    cases hresult : Engine.authenticate v.authSnapshot v.today username password with
    | error e =>
      have hnone : ¬ ∃ auth, Engine.authenticate v.authSnapshot v.today username password = .ok auth := by
        rintro ⟨auth, hok⟩
        rw [hresult] at hok
        cases hok
      refine iff_of_true (by cases e <;> exact ⟨rfl, rfl⟩) ?_
      rintro ⟨value', username', password', user, hsome', hbasic', huser⟩
      obtain rfl := Option.some.inj (hsome.symm.trans hsome')
      obtain ⟨rfl, rfl⟩ := Prod.mk.inj (Option.some.inj (hbasic.symm.trans hbasic'))
      exact hnone (hauth.2 ⟨user, huser⟩)
    | ok auth =>
      refine iff_of_false (fun h => ?_) (not_not.2 ?_)
      · have huser := @serveUser_user p base64 v request username auth remainder unread
        rw [h.1] at huser
        cases huser
      · obtain ⟨user, huser⟩ := hauth.1 ⟨auth, hresult⟩
        exact ⟨value, username, password, user, hsome, hbasic, huser⟩

theorem parse_of_none {bytes} (hnone : findSub Util.headEnd bytes = none) {request} :
    ParsedRequest.parse parseUrl bytes = .ok request ↔
      ∃ text, bytes = utf8Bytes text ∧ ParsedRequest.parse parseUrl
      (utf8Bytes (text ++ Str.blankEnd)) = .ok request := by
  have hparse : ∀ {text : Str}, bytes = utf8Bytes text →
      ParsedRequest.parse parseUrl bytes = ParsedRequest.parse parseUrl (utf8Bytes (text ++ Str.blankEnd)) := by
    rintro text rfl
    have hopen : ¬ Str.blankEnd <:+ text := by
      rintro ⟨body, rfl⟩
      have hat : findSub Util.headEnd ((utf8Bytes (body ++ Str.blankEnd)).drop (utf8Bytes body).length) = some 0 := by
        rw [utf8Bytes_append, List.drop_left]
        decide
      obtain ⟨start, hstart⟩ := exists_findSub_of_drop hat
      rw [hnone] at hstart
      cases hstart
    rw [parse_lines parseUrl rfl]
    simp only [ParsedRequest.parse, fromUtf8_utf8Bytes, if_neg hopen]
  constructor
  · intro h
    cases htext : fromUtf8 bytes with
    | none =>
      rw [ParsedRequest.parse, htext] at h
      cases h
    | some text =>
      have hbytes := fromUtf8_eq_some_iff.1 htext
      exact ⟨text, hbytes, hparse hbytes ▸ h⟩
  · rintro ⟨text, hbytes, h⟩
    rw [hparse hbytes, h]

theorem serve_of_cutOff {v reads} (hreads : ∀ r ∈ reads, r ≠ []) (hcut : CutOff reads) :
    ((serve p parseUrl decode base64 v reads).user = none ∧ (serve p parseUrl decode base64 v reads).dials = []) ↔
      16 * 1024 < reads.flatten.length ∨ ¬ CompletesTo parseUrl decode v reads.flatten := by
  have hread := @Util.readHttpHead_of_none (16 * 1024) _ hreads hcut
  rw [serve]
  split at hread
  · next hlen =>
    rw [hread]
    dsimp only
    have hmatch := @parse_of_none parseUrl _ hcut
    rw [or_iff_right (Nat.not_lt.2 hlen)]
    cases hparse : ParsedRequest.parse parseUrl reads.flatten with
    | error e =>
      refine iff_of_true ⟨rfl, rfl⟩ ?_
      rintro ⟨text, request, value, username, password, user, hbytes, hcompleted, -⟩
      have := hmatch.2 ⟨text, hbytes, hcompleted⟩
      rw [hparse] at this
      cases this
    | ok request =>
      dsimp only [List.length_nil]
      rw [request.validateRemainder_zero]
      rw [serveRequest_user]
      refine not_congr ⟨?_, ?_⟩
      · rintro ⟨value, username, password, user, hcredentials⟩
        obtain ⟨text, hbytes, hcompleted⟩ := hmatch.1 hparse
        exact ⟨text, request, value, username, password, user, hbytes, hcompleted, hcredentials⟩
      · rintro ⟨text, request', value, username, password, user, hbytes, hcompleted, hcredentials⟩
        obtain rfl := Except.ok.inj (hparse.symm.trans (hmatch.2 ⟨text, hbytes, hcompleted⟩))
        exact ⟨value, username, password, user, hcredentials⟩
  · next hlen =>
    rw [hread]
    exact iff_of_true ⟨rfl, rfl⟩ (.inl (Nat.lt_of_not_le hlen))

/-- When a head that ended with its stream has no consequence. The inbound lets no
user in and connects nowhere for it unless, with a blank line added, it is a request
of a user within the cap; `http_connect` does not succeed on it unless the code in
what did come begins with a 2. -/
theorem cut_off_head_refused_iff (p : Parsers) (parseUrl : Str → Option Url) (decode : Str → Option Bytes)
    (base64 : Bytes → Str) :
    (∀ (v : Visit) (reads : List Bytes), (∀ r ∈ reads, r ≠ []) →
      ((CutOff reads → (serve p parseUrl decode base64 v reads).user = none ∧
          (serve p parseUrl decode base64 v reads).dials = []) ↔
        ¬ CutOff reads ∨ 16 * 1024 < reads.flatten.length ∨ ¬ CompletesTo parseUrl decode v reads.flatten)) ∧
    ∀ (up : Model.Upstream) (host : Str) (port : Nat) (w : Outbound.Wire), (∀ r ∈ w.reads, r ≠ []) →
      ((CutOff w.reads → ¬ ∃ w', (Outbound.httpConnect base64 up host port w).2 = .ok ((), w')) ↔
        ¬ CutOff w.reads ∨ w.breaksAfter = some 0 ∨ 8192 < w.reads.flatten.length ∨
          Util.http2xx w.reads.flatten = false) := by
  refine ⟨fun v reads hreads => ?_, fun up host port w hreads => ?_⟩
  · by_cases hcut : CutOff reads
    · rw [or_iff_right (not_not.2 hcut), ← serve_of_cutOff hreads hcut]
      exact forall_prop_of_true hcut
    · exact iff_of_true (fun h => absurd h hcut) (.inl hcut)
  · by_cases hcut : CutOff w.reads
    · rw [or_iff_right (not_not.2 hcut), forall_prop_of_true hcut, Outbound.httpConnect_of_none hreads hcut,
        not_and_or, not_and_or, not_not, Nat.not_le, Bool.not_eq_true]
    · exact iff_of_true (fun h => absurd h hcut) (.inl hcut)

/-- A snapshot that sends everything of the user `u` on directly. -/
def oneUser : Snapshot :=
  { Snapshot.empty with
    users := HashMap.insert ∅ "u" ⟨"p", none, 0, 0, 0, "all", ∅⟩
    policies := HashMap.insert ∅ "all" (.fromRoutes .keep [] .direct) }

def oneUserVisit : Visit where
  today := ⟨2026, 12, 31⟩
  active := ∅
  authSnapshot := oneUser
  routeSnapshot := oneUser
  sniffSnapshot := oneUser
  sniffsRoute := false
  maxBytes := 4096
  turns _ := {}
  late := false
  takesReply := true
  course := exampleVisit.course

/-- The one text that is base64 here. -/
def decodeOne (s : Str) : Option Bytes := if s = "dTpw" then some (utf8Bytes "u:p") else none

/-- Neither a request line that breaks off nor a refusal that does has any consequence. -/
theorem cut_off_head_refused_short :
    let served := serve helloParsers oneUrl decodeOne (fun _ => []) oneUserVisit [[67, 79, 78]]
    let w : Outbound.Wire := ⟨[utf8Bytes "HTTP/1.1 403"], none⟩
    served.user = none ∧ served.dials = [] ∧
      ¬ ∃ w', (Outbound.httpConnect (fun _ => []) Outbound.openProxy "h" 443 w).2 = .ok ((), w') := by
  intro served w
  obtain ⟨hserve, hconnect⟩ := cut_off_head_refused_iff helloParsers oneUrl decodeOne fun _ => []
  have hshort : ¬ CompletesTo oneUrl decodeOne oneUserVisit ([[67, 79, 78]] : List Bytes).flatten := by
    rintro ⟨text, request, -, -, -, -, hbytes, hparse, -⟩
    obtain rfl : "CON" = text := utf8Bytes_injective hbytes
    have hrefused : (ParsedRequest.parse oneUrl (utf8Bytes ("CON" ++ Str.blankEnd))).toOption = none := by
      decide +kernel
    rw [hparse] at hrefused
    cases hrefused
  obtain ⟨huser, hdials⟩ := (hserve oneUserVisit [[67, 79, 78]] (by decide)).2 (.inr (.inr hshort)) (by decide)
  exact ⟨huser, hdials, (hconnect Outbound.openProxy "h" 443 w (by decide)).2
    (.inr (.inr (.inr (by decide +kernel)))) (by decide +kernel)⟩

/-- A request that breaks off in its last header is let in and connected, and an
answer that breaks off in its first line opens the tunnel. -/
theorem cut_off_head_acted_on :
    let head := utf8Bytes "CONNECT h:443 HTTP/1.1\r\nProxy-Authorization: Basic dTpw"
    let answer := utf8Bytes "HTTP/1.1 200"
    let served := serve helloParsers oneUrl decodeOne (fun _ => []) oneUserVisit [head]
    CutOff [head] ∧ served.user = some "u".toList ∧ served.dials = [⟨.direct, "h".toList, 443⟩] ∧
      CutOff [answer] ∧
      ∃ w', (Outbound.httpConnect (fun _ => []) Outbound.openProxy "h" 443 ⟨[answer], none⟩).2 = .ok ((), w') := by
  refine ⟨by decide +kernel, by decide +kernel, by decide +kernel, by decide +kernel, ?_⟩
  exact (Outbound.httpConnect_of_none (by decide +kernel) (by decide +kernel)).2
    ⟨by decide, by decide +kernel, by decide +kernel⟩

end Http

end Rove.Inbound
