/-
The HTTP CONNECT listener of a hop node (`serve_https` of `proxy/mod.rs`). The
head is read with `read_http_head`, which returns whatever came in the same read
along with it; the header lines are looked for in all of that, and what is
relayed afterwards is what has not been read.

`hop_connect_by_head_iff` says when the request is nevertheless judged by its
head and the target gets every byte after it.
-/
import Rove.Inbound.Target
import Rove.Base.Lines
import Rove.Util.HttpHead
import Rove.Util.SecretEq

namespace Rove.Proxy

open List
open Rove.Util
open Inbound (splitHostPort)

structure Credentials where
  username : Str
  password : Str
  username_ne : username ≠ []
  password_ne : password ≠ []

def httpHeadCap : Nat := 16 * 1024

/-- What a listener works with: its credentials, the base64 decoder, and to
which targets a connection can be made. -/
structure Hop where
  credentials : Credentials
  decode : Str → Option Bytes
  reachable : Str → Nat → Bool

namespace Hop

variable (hop : Hop)

def parseProxyAuth (value : Option Str) : Option (Str × Str) := do
  let value ← value
  let b64 ← (Str.stripPrefix "Basic " value).or (Str.stripPrefix "basic " value)
  let raw ← hop.decode (Str.trim b64)
  let text ← fromUtf8 raw
  Str.splitOnce ':' text

def credentialsOk (username password : Str) : Bool :=
  constantTimeEq username hop.credentials.username && constantTimeEq password hop.credentials.password

def basicAuthOk (value : Option Str) : Bool :=
  match hop.parseProxyAuth value with
  | some (user, pass) => hop.credentialsOk user pass
  | none => false

end Hop

/-! ## The request -/

/-- What `serve_https` takes from the text it read. -/
structure ConnectRequest where
  method : Str
  target : Str
  proxyAuth : Option Str

/-- The value in a header line, if it is the header looked for. -/
def proxyAuthLine (line : Str) : Option Str := do
  let (name, value) ← Str.splitOnce ':' line
  if Str.eqIgnoreAsciiCase (Str.trim name) "proxy-authorization" then some (Str.trim value) else none

/-- The loop over the header lines: the last value counts. -/
def proxyAuthOf (found : Option Str) (lines : List Str) : Option Str :=
  lines.foldl (fun found line => (proxyAuthLine line).or found) found

def linesOf (bytes : Bytes) : List Str := Str.splitCrlf (fromUtf8Lossy bytes)

/-- The first half of `serve_https`. -/
def ConnectRequest.parse (buf : Bytes) : ConnectRequest :=
  let lines := linesOf buf
  let parts := Str.splitWhitespace (lines.headD [])
  ⟨parts.headD [], parts.tail.headD [], proxyAuthOf none lines.tail⟩

/-- What becomes of a request: the authentication result, and the target. -/
inductive HopDecision where
  | methodNotAllowed
  | authRequired (attempted : Option (Str × Nat))
  | badTarget
  | connect (host : Str) (port : Nat)
  deriving DecidableEq

/-- The checks of `serve_https`, in their order. -/
def Hop.decide (hop : Hop) (request : ConnectRequest) : HopDecision :=
  if !Str.eqIgnoreAsciiCase request.method "CONNECT" then .methodNotAllowed
  else if !hop.basicAuthOk request.proxyAuth then .authRequired (splitHostPort request.target)
  else
    match splitHostPort request.target with
    | none => .badTarget
    | some (host, port) => .connect host port

def respondHttp (status extra : String) : Str :=
  s!"HTTP/1.1 {status}\r\n{extra}Content-Length: 0\r\nConnection: close\r\n\r\n"

/-- What came of a connection: the decision, what is written to the client, the
failure that is recorded with its stage, and what the target of a tunnel gets. -/
structure HopServed where
  decision : HopDecision
  response : Str
  failure : Option (String × String)
  tunnel : Option (List Bytes)

/-- The rest of `serve_https`, with what has not been read. -/
def Hop.carryOut (hop : Hop) (unread : List Bytes) (decision : HopDecision) : HopServed :=
  match decision with
  | .methodNotAllowed =>
    ⟨decision, respondHttp "405 Method Not Allowed" "", some ("parse", "method not allowed"), none⟩
  | .authRequired _ =>
    ⟨decision, respondHttp "407 Proxy Authentication Required" "Proxy-Authenticate: Basic realm=\"rove-hop\"\r\n",
      some ("auth", "proxy authentication required"), none⟩
  | .badTarget => ⟨decision, respondHttp "400 Bad Request" "", some ("parse", "bad connect target"), none⟩
  | .connect host port =>
    if hop.reachable host port then
      ⟨decision, "HTTP/1.1 200 Connection Established\r\n\r\n", none, some unread⟩
    else ⟨decision, respondHttp "502 Bad Gateway" "", some ("outbound", "upstream connect failed"), none⟩

def Hop.serveHttps (hop : Hop) (reads : List Bytes) : Res HopServed := do
  let (head, unread) ← readHttpHead httpHeadCap reads
  pure (hop.carryOut unread (hop.decide (.parse head)))

/-! ## What belongs to the head -/

def Hop.decideHead (hop : Hop) (head : Bytes) : Res HopDecision :=
  if head.length > httpHeadCap then .error "header too large" else .ok (hop.decide (.parse head))

/-- The request is judged by its head, and a tunnel carries what follows it. -/
def Hop.ByHead (hop : Hop) (reads : List Bytes) : Prop :=
  (hop.serveHttps reads).map (·.decision) = hop.decideHead (headOf reads.flatten) ∧
    ∀ served relayed, hop.serveHttps reads = .ok served → served.tunnel = some relayed →
      relayed.flatten = reads.flatten.drop (headOf reads.flatten).length

/-! ## Reading -/

theorem Hop.serveHttps_spec (hop : Hop) {reads} (hreads : ∀ r ∈ reads, r ≠ []) :
    let head := headOf reads.flatten
    let along := (cutReads head.length reads).1
    if head.length > httpHeadCap then hop.serveHttps reads = .error "header too large"
    else ∃ unread, hop.serveHttps reads = .ok (hop.carryOut unread (hop.decide (.parse (head ++ along)))) ∧
      along ++ unread.flatten = reads.flatten.drop head.length := by
  intro head along
  rw [serveHttps, readHttpHead, readHttpHeadWithRemainder_eq hreads, cappedHead]
  by_cases hcap : head.length ≤ httpHeadCap
  · rw [if_pos hcap, if_neg (Nat.not_lt.2 hcap)]
    exact ⟨(cutReads head.length reads).2, rfl, cutReads_append (length_headOf_le _)⟩
  · rw [if_neg hcap, if_pos (Nat.lt_of_not_le hcap)]
    rfl

/-! ## Deciding -/

theorem proxyAuthOf_eq_or (found : Option Str) (lines : List Str) :
    proxyAuthOf found lines = (proxyAuthOf none lines).or found := by
  have hcons : ∀ found line lines, proxyAuthOf found (line :: lines) =
    proxyAuthOf ((proxyAuthLine line).or found) lines :=
    fun _ _ _ => rfl
  induction lines generalizing found with
  | nil => rfl
  | cons line lines ih =>
    rw [hcons, hcons, ih, ih ((proxyAuthLine line).or none), Option.or_none, Option.or_assoc]

theorem proxyAuthOf_append (found : Option Str) (lines lines' : List Str) :
    proxyAuthOf found (lines ++ lines') = proxyAuthOf (proxyAuthOf found lines) lines' :=
  foldl_append

theorem linesOf_append (before along : Bytes) :
    linesOf (before ++ headEnd ++ along) = linesOf before ++ [] :: linesOf along := by
  have hcr : ∀ (bytes rest : Bytes), fromUtf8Lossy (bytes ++ 13 :: rest) = fromUtf8Lossy bytes ++
    '\r' :: fromUtf8Lossy rest :=
    fun bytes rest => @fromUtf8Lossy_append_ascii bytes '\r' (by decide) rest
  have hlf : ∀ rest : Bytes, fromUtf8Lossy (10 :: rest) = '\n' :: fromUtf8Lossy rest :=
    fun rest => @fromUtf8Lossy_append_ascii [] '\n' (by decide) rest
  have htext : fromUtf8Lossy (before ++ headEnd ++ along) =
      fromUtf8Lossy before ++ '\r' :: '\n' :: ([] ++ '\r' :: '\n' :: fromUtf8Lossy along) := by
    rw [append_assoc, show headEnd ++ along = 13 :: 10 :: ([] ++ 13 :: 10 :: along) from rfl, hcr, hlf, hcr, hlf]
    rfl
  rw [linesOf, htext, Str.splitCrlf_append_crlf, Str.splitCrlf_append_crlf]
  rfl

/-- The bytes after a head count for the credentials and for nothing else. -/
theorem ConnectRequest.parse_append (before along : Bytes) :
    ConnectRequest.parse (before ++ headEnd ++ along) =
      { ConnectRequest.parse (before ++ headEnd) with
        proxyAuth := (proxyAuthOf none (linesOf along)).or (ConnectRequest.parse (before ++ headEnd)).proxyAuth } := by
  have hlines := linesOf_append before along
  have hhead := linesOf_append before []
  rw [append_nil] at hhead
  obtain ⟨line, lines, hline⟩ := Str.exists_splitCrlf (fromUtf8Lossy before)
  have hbefore : linesOf before = line :: lines := hline
  rw [hbefore] at hlines hhead
  have hauth : ∀ tail, proxyAuthOf none (lines ++ [] :: tail) =
    (proxyAuthOf none tail).or (proxyAuthOf none lines) := by
    intro tail
    rw [proxyAuthOf_append, ← proxyAuthOf_eq_or]
    rfl
  have hempty : proxyAuthOf none (linesOf []) = none := rfl
  simp only [ConnectRequest.parse, hlines, hhead, cons_append, headD_cons, tail_cons, hauth, hempty, Option.none_or]

theorem Hop.basicAuthOk_or_iff (hop : Hop) (along auth : Option Str) :
    hop.basicAuthOk (along.or auth) = hop.basicAuthOk auth ↔
      ∀ value, along = some value → hop.basicAuthOk (some value) = hop.basicAuthOk auth := by
  cases along with
  | none => simp
  | some value => simp

theorem Hop.decide_eq_iff (hop : Hop) (request : ConnectRequest) (auth : Option Str) :
    hop.decide { request with proxyAuth := auth } = hop.decide request ↔
      hop.decide request = .methodNotAllowed ∨ hop.basicAuthOk auth = hop.basicAuthOk request.proxyAuth := by
  unfold Hop.decide
  generalize Str.eqIgnoreAsciiCase request.method "CONNECT" = isConnect
  generalize hop.basicAuthOk auth = ok
  generalize hop.basicAuthOk request.proxyAuth = ok'
  generalize splitHostPort request.target = target
  cases isConnect with
  | false => simp
  | true => cases ok <;> cases ok' <;> cases target <;> simp

theorem Hop.carryOut_decision (hop : Hop) (unread : List Bytes) (decision : HopDecision) :
    (hop.carryOut unread decision).decision = decision := by
  cases decision with
  | connect host port =>
    rw [carryOut]
    split <;> rfl
  | _ => rfl

theorem Hop.carryOut_tunnel_iff (hop : Hop) {unread relayed decision} :
    (hop.carryOut unread decision).tunnel = some relayed ↔
      relayed = unread ∧ ∃ host port, decision = .connect host port ∧ hop.reachable host port = true := by
  cases decision with
  | connect host port =>
    rw [carryOut]
    split
    · next hreach => exact ⟨fun h => ⟨(Option.some.inj h).symm, host, port, rfl, hreach⟩,
        fun h => congrArg some h.1.symm⟩
    · next hreach =>
      refine ⟨fun h => (by cases h), ?_⟩
      rintro ⟨-, _, _, heq, hother⟩
      cases heq
      exact absurd hother hreach
  | _ =>
    refine ⟨fun h => (by cases h), ?_⟩
    rintro ⟨-, _, _, heq, -⟩
    cases heq

/-- What came along with a head is of no account: it has no other credentials,
and the head gets no tunnel that it would be missing from. -/
structure Hop.Harmless (hop : Hop) (head along : Bytes) : Prop where
  credentials : ∀ value, proxyAuthOf none (linesOf along) = some value →
    hop.basicAuthOk (some value) = hop.basicAuthOk (ConnectRequest.parse head).proxyAuth
  refused : ∀ host port, hop.decide (.parse head) = .connect host port → hop.reachable host port = false

theorem ConnectRequest.parse_headOf {reads along} (hreads : ∀ r ∈ reads, r ≠ [])
    (halong : (cutReads (headOf reads.flatten).length reads).1 = along) (hne : along ≠ []) :
    ConnectRequest.parse (headOf reads.flatten ++ along) =
      { ConnectRequest.parse (headOf reads.flatten) with
        proxyAuth := (proxyAuthOf none (linesOf along)).or
          (ConnectRequest.parse (headOf reads.flatten)).proxyAuth } := by
  cases hfind : findSub headEnd reads.flatten with
  | none =>
    have hhead : headOf reads.flatten = reads.flatten := by simp only [headOf, hfind]
    rw [hhead, cutReads_length hreads] at halong
    exact absurd halong.symm hne
  | some start =>
    obtain ⟨later, hlater⟩ := (findSub_eq_some_iff.1 hfind).2.1
    have hhead : headOf reads.flatten = reads.flatten.take start ++ headEnd := by
      simp only [headOf, hfind]
      rw [take_add, ← hlater]
      rfl
    rw [hhead]
    exact ConnectRequest.parse_append _ _

/-- However the bytes come in, a request is judged by its head and its tunnel
carries what follows, if and only if nothing comes in one read with the end of
the head, or the head is too long or no CONNECT, or what comes is harmless. -/
theorem hop_connect_by_head_iff (hop : Hop) {reads : List Bytes} (hreads : ∀ r ∈ reads, r ≠ []) :
    hop.ByHead reads ↔
      let head := headOf reads.flatten
      let along := (cutReads head.length reads).1
      along = [] ∨ httpHeadCap < head.length ∨ hop.decide (.parse head) = .methodNotAllowed ∨
      hop.Harmless head along := by
  have hspec := hop.serveHttps_spec hreads
  have hparse := @ConnectRequest.parse_headOf reads _ hreads rfl
  dsimp only at hspec ⊢
  rw [Hop.ByHead, Hop.decideHead]
  generalize headOf reads.flatten = head at hspec hparse ⊢
  generalize (cutReads head.length reads).1 = along at hspec hparse ⊢
  split at hspec
  · next hcap =>
    rw [hspec, if_pos hcap]
    exact ⟨fun _ => .inr (.inl hcap), fun _ => ⟨rfl, fun _ _ h => (by cases h)⟩⟩
  · next hcap =>
    obtain ⟨unread, hserve, hrest⟩ := hspec
    have hdecision : (hop.serveHttps reads).map (·.decision) = .ok (hop.decide (.parse (head ++ along))) := by
      rw [hserve]
      exact congrArg Except.ok (hop.carryOut_decision unread _)
    have hexact : unread.flatten = reads.flatten.drop head.length ↔ along = [] := by
      rw [← hrest]
      exact self_eq_append_left
    rw [hdecision, if_neg hcap, Except.ok.injEq, hserve]
    by_cases hnil : along = []
    · refine ⟨fun _ => .inl hnil, fun _ => ⟨by rw [hnil, append_nil], fun served relayed hserved htunnel => ?_⟩⟩
      cases hserved
      rw [(hop.carryOut_tunnel_iff.1 htunnel).1]
      exact hexact.2 hnil
    · have hagree : hop.decide (.parse (head ++ along)) = hop.decide (.parse head) ↔
          hop.decide (.parse head) = .methodNotAllowed ∨ ∀ value, proxyAuthOf none (linesOf along) = some value →
            hop.basicAuthOk (some value) = hop.basicAuthOk (ConnectRequest.parse head).proxyAuth := by
        rw [hparse hnil, hop.decide_eq_iff, hop.basicAuthOk_or_iff]
      constructor
      · rintro ⟨hdecide, htunnel⟩
        rcases hagree.1 hdecide with hmethod | hcredentials
        · exact .inr (.inr (.inl hmethod))
        · refine .inr (.inr (.inr ⟨hcredentials, fun host port hconnect => ?_⟩))
          by_contra hreach
          rw [Bool.not_eq_false] at hreach
          have hopen := (@Hop.carryOut_tunnel_iff hop unread unread _).2
            ⟨rfl, host, port, hdecide.trans hconnect, hreach⟩
          exact hnil (hexact.1 (htunnel _ _ rfl hopen))
      · intro hcond
        have hrefused : ∀ host port, hop.decide (.parse head) = .connect host port →
          hop.reachable host port = false := by
          rcases hcond with h | h | h | h
          · exact absurd h hnil
          · exact absurd h hcap
          · exact fun host port hconnect => (by rw [h] at hconnect; cases hconnect)
          · exact h.refused
        have hdecide : hop.decide (.parse (head ++ along)) = hop.decide (.parse head) := by
          rcases hcond with h | h | h | h
          · exact absurd h hnil
          · exact absurd h hcap
          · exact hagree.2 (.inl h)
          · exact hagree.2 (.inr h.credentials)
        refine ⟨hdecide, fun served relayed hserved htunnel => ?_⟩
        cases hserved
        obtain ⟨-, host, port, hconnect, hreach⟩ := hop.carryOut_tunnel_iff.1 htunnel
        rw [hrefused host port (hdecide.symm.trans hconnect)] at hreach
        cases hreach

/-- A listener for one user, whose token is decoded to `alice:secret`. -/
def exampleHop : Hop where
  credentials := ⟨"alice", "secret", by decide, by decide⟩
  decode token := if token = "YWxpY2U6c2VjcmV0" then some (utf8Bytes "alice:secret") else none
  reachable _ _ := true

def requestLine : Bytes := utf8Bytes "CONNECT a:1 HTTP/1.1\r\n"

def authHeader : Bytes := utf8Bytes "Proxy-Authorization: Basic YWxpY2U6c2VjcmV0\r\n"

/-- The payload comes after the head, in a read of its own. -/
theorem hop_connect_by_head_ownRead :
    let reads := [requestLine ++ authHeader ++ crlf, [1, 2, 3]]
    exampleHop.ByHead reads ∧
      (exampleHop.serveHttps reads).map (fun served => (served.decision, served.tunnel)) =
        .ok (.connect "a" 1, some [[1, 2, 3]]) := by
  have hreads : ∀ r ∈ [requestLine ++ authHeader ++ crlf, [1, 2, 3]], r ≠ [] := by decide +kernel
  exact ⟨(hop_connect_by_head_iff exampleHop hreads).2 (.inl (by decide +kernel)), by decide +kernel⟩

/-- A head without credentials, and a line after it that has them: by itself the
head is refused, and with the line in the same read a tunnel is opened that the
line is missing from. -/
theorem credentials_after_head :
    (exampleHop.serveHttps [requestLine ++ crlf, authHeader]).map (·.decision) = .ok (.authRequired (some ("a", 1))) ∧
      (exampleHop.serveHttps [requestLine ++ crlf ++ authHeader]).map (fun served => (served.decision, served.tunnel)) =
        .ok (.connect "a" 1, some []) ∧
      ¬ exampleHop.ByHead [requestLine ++ crlf ++ authHeader] := by
  refine ⟨by decide +kernel, by decide +kernel, fun h => ?_⟩
  exact absurd h.1 (by decide +kernel)

end Rove.Proxy
