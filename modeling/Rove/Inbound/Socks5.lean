/-
The SOCKS5 inbound (`serve` of `inbound/socks5.rs`) and the SOCKS5 client of the
outbound side (`socks5_connect` of `outbound/mod.rs`), against each other: a Rove node
may be the upstream of another one.

Each side writes the length of a text as one byte. `socks5_understood_iff` says which
credentials the node at the other end reads as they are configured.
-/
import Rove.Base.Recv
import Rove.Inbound.HttpServe

namespace Rove.Inbound.Socks5

open List
open Io (PrefixedIo)
open Model (Decision Upstream)
open Outbound (Talk Wire ProxyError socks5Connect socks5Auth drainBound)
open Sniff (Parsers capturePrefix)
open Source (rest)

/-! ## The server -/

/-- A request that was read, and the stream after it. -/
structure Asked (σ : Type) where
  command : UInt8
  host : Str
  port : Nat
  unread : σ

/-- What goes on once the request is granted: `splice`, or `serve_associate`. -/
inductive Relay (σ : Type) where
  | tunnel (client : σ)
  | sniffed (client : PrefixedIo σ)
  | associate (client : σ)

/-- What came of a connection: what was written to the client, the credentials and the
request that were read, the calls of `outbound::connect`, and the stage and message of
a failure. -/
structure Served (σ : Type) where
  replies : List Bytes := []
  credentials : Option (Str × Str) := none
  asked : Option (Asked σ) := none
  dials : List Dial := []
  relay : Option (Relay σ) := none
  failure : Option (String × String) := none

/-- What is written before everything else. -/
def Served.after {σ : Type} (bytes : Bytes) (s : Served σ) : Served σ := { s with replies := bytes :: s.replies }

def reply (rep : UInt8) : Bytes := [0x05, rep, 0x00, 0x01, 0, 0, 0, 0, 0, 0]

section
variable {σ : Type} [Source σ]

/-- The username and the password of the sub-negotiation. -/
def readCredentials : Recv σ (Str × Str) := do
  let ubuf ← Recv.counted
  let pbuf ← Recv.counted
  return (fromUtf8Lossy ubuf, fromUtf8Lossy pbuf)

/-- The host of a request, by its address type. -/
def readHost (atyp : UInt8) : Recv σ Str :=
  if atyp = 0x01 then do
    let a ← Recv.exact 4
    return (ipv4OfBytes a).toText
  else if atyp = 0x04 then do
    let a ← Recv.exact 16
    return (ipv6OfBytes a).toText
  else do
    let d ← Recv.counted
    return fromUtf8Lossy d

def readTarget (atyp : UInt8) : Recv σ (Str × Nat) := do
  let host ← readHost atyp
  let port ← Recv.u16
  return (host, port)

variable (p : Parsers) (base64 : Bytes → Str)

def tunnelConnectRoute (v : Http.Visit) (user host : Str) (port : Nat) (s : σ) : Served σ :=
  if !v.takesReply then {}
  else
    Served.after (reply 0x00) <|
      match capturePrefix p v.maxBytes v.turns v.late s with
      | (.error _, _) => { failure := some ("sniff_read", "route sniff read failed") }
      | (.ok captured, s) =>
        let decision := (v.sniffSnapshot.decideWithSniff user host captured.observation.host).decision
        if decision = .block then { failure := some ("policy", "blocked by requested or sniffed target policy") }
        else
          match (Outbound.connect base64 v.course decision host port).2 with
          | .error e =>
            { dials := [⟨decision, host, port⟩], failure := some (failureStage e, "upstream connect failed") }
          | .ok _ => { dials := [⟨decision, host, port⟩], relay := some (.sniffed (.new captured.bytes s)) }

/-- `serve`, for a `CONNECT` of a user that was let in. -/
def serveConnect (v : Http.Visit) (user : Str) (auth : Engine.AuthOk) (host : Str) (port : Nat) (s : σ) : Served σ :=
  let decision := (v.routeSnapshot.decideWithSniff user host none).decision
  if decision = .block then { replies := [reply 0x02], failure := some ("policy", "blocked by policy") }
  else
    match Engine.acquireConnection v.active user auth.maxConnections with
    | .error _ => { replies := [reply 0x02], failure := some ("limit", "connection limit exceeded") }
    | .ok _ =>
      if v.sniffsRoute then tunnelConnectRoute p base64 v user host port s
      else
        match (Outbound.connect base64 v.course decision host port).2 with
        | .error e =>
          { replies := [reply 0x05], dials := [⟨decision, host, port⟩]
            failure := some (failureStage e, "upstream connect failed") }
        | .ok _ =>
          if v.takesReply then { replies := [reply 0x00], dials := [⟨decision, host, port⟩], relay := some (.tunnel s) }
          else { dials := [⟨decision, host, port⟩] }

/-- `serve`, from the request on. -/
def serveRequest (v : Http.Visit) (user : Str) (auth : Engine.AuthOk) (s : σ) : Served σ :=
  match Recv.exact 4 s with
  | none => {}
  | some (req, s) =>
    let command := req.getD 1 0
    let atyp := req.getD 3 0
    if req.getD 0 0 ≠ 0x05 then { failure := some ("parse", "bad request version") }
    else if command ≠ 0x01 ∧ command ≠ 0x03 then
      { replies := [reply 0x07], failure := some ("parse", "unsupported socks command") }
    else if atyp ≠ 0x01 ∧ atyp ≠ 0x04 ∧ atyp ≠ 0x03 then
      { replies := [reply 0x08], failure := some ("parse", "unsupported address type") }
    else
      match readTarget atyp s with
      | none => {}
      | some ((host, port), s) =>
        let served : Served σ :=
          if command = 0x03 then { relay := some (.associate s) } else serveConnect p base64 v user auth host port s
        { served with asked := some ⟨command, host, port, s⟩ }

/-- `serve`, from the sub-negotiation on. -/
def serveAuth (v : Http.Visit) (s : σ) : Served σ :=
  match Recv.byte s with
  | none => {}
  | some (ver, s) =>
    if ver ≠ 0x01 then { failure := some ("auth", "bad auth subnegotiation version") }
    else
      match readCredentials s with
      | none => {}
      | some ((user, pass), s) =>
        let served : Served σ :=
          match Engine.authenticate v.authSnapshot v.today user pass with
          | .error _ => { replies := [[0x01, 0x01]], failure := some ("auth", "authentication failed") }
          | .ok auth => (serveRequest p base64 v user auth s).after [0x01, 0x00]
        { served with credentials := some (user, pass) }

def serve (v : Http.Visit) (s : σ) : Served σ :=
  match Recv.exact 2 s with
  | none => {}
  | some (hdr, s) =>
    if hdr.getD 0 0 ≠ 0x05 then { failure := some ("parse", "bad socks version") }
    else
      match Recv.exact (hdr.getD 1 0).toNat s with
      | none => {}
      | some (methods, s) =>
        if 0x02 ∉ methods then
          { replies := [[0x05, 0xff]], failure := some ("auth", "username/password auth method missing") }
        else (serveAuth p base64 v s).after [0x05, 0x02]

end

/-! ## What the server reads -/

section
variable {σ : Type} [Source σ]

theorem follows_readCredentials : Recv.Follows (readCredentials : Recv σ (Str × Str)) readCredentials :=
  Recv.follows_counted.bind fun _ => Recv.follows_counted.bind fun _ => Recv.follows_pure _

theorem follows_readHost (atyp : UInt8) : Recv.Follows (readHost atyp : Recv σ Str) (readHost atyp) :=
  ((Recv.follows_exact 4).bind fun _ => Recv.follows_pure _).ite
    (((Recv.follows_exact 16).bind fun _ => Recv.follows_pure _).ite
      (Recv.follows_counted.bind fun _ => Recv.follows_pure _))

theorem follows_readTarget (atyp : UInt8) : Recv.Follows (readTarget atyp : Recv σ (Str × Nat)) (readTarget atyp) :=
  (follows_readHost atyp).bind fun _ => Recv.follows_u16.bind fun _ => Recv.follows_pure _

end

/-- A text after its length, of which one byte is written. -/
def countedText (s : Str) : Bytes := UInt8.ofNat (utf8Bytes s).length :: utf8Bytes s

theorem counted_countedText (s : Str) (later : Bytes) :
    Recv.counted (countedText s ++ later) =
      some ((utf8Bytes s).take ((utf8Bytes s).length % 256),
      (utf8Bytes s).drop ((utf8Bytes s).length % 256) ++ later) := by
  have hlen : (UInt8.ofNat (utf8Bytes s).length).toNat = (utf8Bytes s).length % 256 := by simp
  have hle : (utf8Bytes s).length % 256 ≤ (utf8Bytes s).length := Nat.mod_le _ _
  rw [countedText, cons_append, Recv.counted_cons, hlen, Recv.exact_bytes,
    if_pos (by rw [length_append]; omega), take_append_of_le_length hle, drop_append_of_le_length hle]

theorem counted_of_le {s} (h : (utf8Bytes s).length ≤ 255) (later : Bytes) :
    Recv.counted (countedText s ++ later) = some (utf8Bytes s, later) := by
  rw [counted_countedText, Nat.mod_eq_of_lt (by omega), take_length, drop_length, nil_append]

/-- A text that is too long for its length byte is read as another one. -/
theorem lossy_take_mod {s} :
    fromUtf8Lossy ((utf8Bytes s).take ((utf8Bytes s).length % 256)) = s ↔ (utf8Bytes s).length ≤ 255 := by
  by_cases hlen : (utf8Bytes s).length ≤ 255
  · simp only [hlen, iff_true]
    rw [Nat.mod_eq_of_lt (by omega), take_length, fromUtf8Lossy_utf8Bytes]
  · simp only [hlen, iff_false]
    rw [fromUtf8Lossy_take_eq_iff (by omega)]
    intro hex
    obtain ⟨t, rfl, ht⟩ := hex
    have hlast : (utf8Bytes [Char.ofNat 0xFFFD]).length = 3 := by decide +kernel
    rw [utf8Bytes_append, length_append, hlast] at ht hlen
    omega

/-- The sub-negotiation as `socks5_connect` writes it. -/
def authMessage (user pass : Str) : Bytes := 0x01 :: (countedText user ++ countedText pass)

/-- The request as `socks5_connect` writes it. -/
def requestMessage (host : Str) (port : Nat) : Bytes := [0x05, 0x01, 0x00, 0x03] ++ (countedText host ++ beBytes 2 port)

theorem readCredentials_of_le {user pass} (huser : (utf8Bytes user).length ≤ 255)
    (hpass : (utf8Bytes pass).length ≤ 255) (later : Bytes) :
    readCredentials (countedText user ++ countedText pass ++ later) = some ((user, pass), later) := by
  simp only [readCredentials, Recv.bind_apply, Recv.pure_apply, append_assoc,
    counted_of_le huser, counted_of_le hpass, Option.bind_some, fromUtf8Lossy_utf8Bytes]

theorem le_of_readCredentials {user pass left}
    (h : readCredentials (countedText user ++ countedText pass) = some ((user, pass), left)) :
    (utf8Bytes user).length ≤ 255 ∧ (utf8Bytes pass).length ≤ 255 := by
  simp only [readCredentials, Recv.bind_apply, Recv.pure_apply, counted_countedText user, Option.bind_some] at h
  obtain ⟨⟨pbuf, left'⟩, hpbuf, heq⟩ := Option.bind_eq_some_iff.1 h
  simp only [Option.some.injEq, Prod.mk.injEq] at heq
  obtain ⟨⟨huser, hpass⟩, rfl⟩ := heq
  have hle := lossy_take_mod.1 huser
  refine ⟨hle, ?_⟩
  have hread := counted_countedText pass []
  rw [append_nil] at hread
  rw [Nat.mod_eq_of_lt (by omega), drop_length, nil_append, hread] at hpbuf
  cases hpbuf
  exact lossy_take_mod.1 hpass

theorem readTarget_of_le {host port} (hhost : (utf8Bytes host).length ≤ 255) (hport : port < 2 ^ 16) (later : Bytes) :
    readTarget 0x03 (countedText host ++ beBytes 2 port ++ later) = some ((host, port), later) := by
  have hread : readHost 0x03 (countedText host ++ beBytes 2 port ++ later) = some (host, beBytes 2 port ++ later) := by
    have hv4 : ¬ (0x03 : UInt8) = 0x01 := by decide
    have hv6 : ¬ (0x03 : UInt8) = 0x04 := by decide
    simp only [readHost, hv4, hv6, if_false, Recv.bind_apply, Recv.pure_apply, append_assoc, counted_of_le hhost,
      Option.bind_some, fromUtf8Lossy_utf8Bytes]
  simp only [readTarget, Recv.bind_apply, Recv.pure_apply, hread, Recv.u16_append hport, Option.bind_some]

section
variable {σ : Type} [Source σ] (p : Parsers) (base64 : Bytes → Str) (v : Http.Visit)

/-- A greeting that offers one method. -/
theorem serve_of_offer {s : σ} {m : UInt8} {x : Bytes} (h : rest s = [0x05, 0x01, m] ++ x) :
    ∃ s', rest s' = x ∧ (m = 0x02 → serve p base64 v s = (serveAuth p base64 v s').after [0x05, 0x02]) ∧
      (m ≠ 0x02 → (serve p base64 v s).replies = [[0x05, 0xff]]) := by
  obtain ⟨s₁, hread₁, hrest₁⟩ := (Recv.follows_exact 2).eq_some h (Recv.exact_append [0x05, 0x01] ([m] ++ x))
  obtain ⟨s₂, hread₂, hrest₂⟩ := (Recv.follows_exact 1).eq_some hrest₁ (Recv.exact_append [m] x)
  refine ⟨s₂, hrest₂, ?_⟩
  rw [serve, hread₁]
  simp only [getD_cons_zero, getD_cons_succ, ne_eq, not_true_eq_false, if_false]
  rw [show (0x01 : UInt8).toNat = 1 by decide, hread₂]
  refine ⟨fun hm => ?_, fun hm => ?_⟩
  · simp [hm]
  · simp [Ne.symm hm]

/-- The server reads the credentials that were written, if their lengths fit. -/
theorem serveAuth_of_le {s : σ} {user pass : Str} {x : Bytes} (huser : (utf8Bytes user).length ≤ 255)
    (hpass : (utf8Bytes pass).length ≤ 255) (h : rest s = authMessage user pass ++ x) :
    ∃ s', rest s' = x ∧ (serveAuth p base64 v s).credentials = some (user, pass) ∧
      (((serveAuth p base64 v s).replies = [[0x01, 0x01]]) ∨
        ∃ auth, (serveAuth p base64 v s).replies = [0x01, 0x00] :: (serveRequest p base64 v user auth s').replies ∧
          (serveAuth p base64 v s).asked = (serveRequest p base64 v user auth s').asked) := by
  obtain ⟨s₁, hread₁, hrest₁⟩ := Recv.follows_byte.eq_some h
    (Recv.byte_cons 0x01 (countedText user ++ countedText pass ++ x))
  obtain ⟨s₂, hread₂, hrest₂⟩ := follows_readCredentials.eq_some hrest₁ (readCredentials_of_le huser hpass x)
  refine ⟨s₂, hrest₂, ?_⟩
  rw [serveAuth, hread₁]
  simp only [ne_eq, not_true_eq_false, if_false, hread₂, true_and]
  cases Engine.authenticate v.authSnapshot v.today user pass with
  | error e => exact .inl rfl
  | ok auth => exact .inr ⟨auth, rfl, rfl⟩

theorem serveRequest_of_le {s : σ} {user host : Str} {auth : Engine.AuthOk} {port : Nat}
    (hhost : (utf8Bytes host).length ≤ 255) (hport : port < 2 ^ 16) (h : rest s = requestMessage host port) :
    ∃ s', rest s' = [] ∧ (serveRequest p base64 v user auth s).asked = some ⟨0x01, host, port, s'⟩ := by
  obtain ⟨s₁, hread₁, hrest₁⟩ := (Recv.follows_exact 4).eq_some h
    (Recv.exact_append [0x05, 0x01, 0x00, 0x03] (countedText host ++ beBytes 2 port))
  have htarget := readTarget_of_le hhost hport []
  rw [append_nil] at htarget
  obtain ⟨s₂, hread₂, hrest₂⟩ := (follows_readTarget 0x03).eq_some hrest₁ htarget
  refine ⟨s₂, hrest₂, ?_⟩
  rw [serveRequest, hread₁]
  simp [hread₂]

end

/-! ## What the client writes -/

/-- The greeting, which offers one method. -/
def greeting (up : Upstream) : Bytes := [0x05, 0x01, if up.username.isSome then 0x02 else 0x00]

/-- The client waits for the outcome of the sub-negotiation. -/
def awaitAuth : Talk Unit := do
  let ar ← Talk.readExact 2
  if ar.getD 1 0 ≠ 0x00 then Talk.fail (.upstream "upstream socks auth failed") else pure ()

/-- The client waits for the reply to its request. -/
def awaitReply : Talk Unit := do
  let head ← Talk.readExact 4
  if head.getD 1 0 ≠ 0x00 then
    let m := String.ofList (Nat.toDigits 16 (head.getD 1 0).toNat)
    Talk.fail (.upstream s!"upstream socks reply 0x{m}")
  else drainBound (head.getD 3 0)

def askTarget (host : Str) (port : Nat) : Talk Unit :=
  if (utf8Bytes host).length > 255 then Talk.fail (.upstream "hostname too long")
  else do
    Talk.writeAll (requestMessage host port)
    awaitReply

variable {up : Upstream} {host : Str} {port : Nat}

theorem exists_greeting (replies : List Bytes) :
    ∃ out, (socks5Connect up host port ⟨replies, none⟩).1 = greeting up :: out := by
  rw [socks5Connect, socks5Auth, Talk.bind_assoc, Talk.bind_apply_ok (Talk.writeAll_holds _ replies)]
  exact ⟨_, rfl⟩

theorem socks5Connect_of_method {replies later} (h : replies.flatten = [0x05, 0x02] ++ later) :
    socks5Connect up host port ⟨replies, none⟩ =
      ([greeting up, authMessage (up.username.getD []) (up.password.getD [])] ++
          ((awaitAuth >>= fun _ => askTarget host port) ⟨[later], none⟩).1,
        ((awaitAuth >>= fun _ => askTarget host port) ⟨[later], none⟩).2) := by
  have hread : Talk.readExact 2 ⟨replies, none⟩ = _ := Talk.readExact_append h none
  rw [socks5Connect, socks5Auth, Talk.bind_assoc, Talk.bind_apply_ok (Talk.writeAll_holds _ replies), Talk.bind_assoc,
    Talk.bind_apply_ok hread]
  have hversion : ¬ ([0x05, 0x02] : Bytes).getD 0 0 ≠ 0x05 := by decide
  have hmethod : ¬ ([0x05, 0x02] : Bytes).getD 1 0 = 0x00 := by decide
  have hauth : ([0x05, 0x02] : Bytes).getD 1 0 = 0x02 := by decide
  simp only [if_neg hversion, if_neg hmethod, if_pos hauth]
  rw [Talk.bind_assoc, Talk.bind_apply_ok (Talk.writeAll_holds _ [later])]
  rfl

theorem socks5Connect_of_no_method {replies} (h : replies.flatten = [0x05, 0xff]) :
    ∃ e, socks5Connect up host port ⟨replies, none⟩ = ([greeting up], .error e) := by
  have hread : Talk.readExact 2 ⟨replies, none⟩ = _ := Talk.readExact_append (h.trans (append_nil _).symm) none
  rw [socks5Connect, socks5Auth, Talk.bind_assoc, Talk.bind_apply_ok (Talk.writeAll_holds _ replies), Talk.bind_assoc,
    Talk.bind_apply_ok hread]
  exact ⟨_, rfl⟩

theorem awaitAuth_refused {f : Unit → Talk Unit} {reads : List Bytes}
    (h : reads.flatten = [0x01, 0x01] ∨ reads.flatten = []) :
    ∃ e, (awaitAuth >>= f) ⟨reads, none⟩ = ([], .error e) := by
  rw [awaitAuth, Talk.bind_assoc]
  cases h with
  | inl hrefused =>
    have hread : Talk.readExact 2 ⟨reads, none⟩ = _ := Talk.readExact_append (hrefused.trans (append_nil _).symm) none
    rw [Talk.bind_apply_ok hread]
    exact ⟨_, rfl⟩
  | inr hend =>
    have hread := Talk.readExact_short (show reads.flatten.length < 2 by rw [hend]; decide) none
    rw [Talk.bind_apply_error hread]
    exact ⟨_, rfl⟩

theorem awaitAuth_granted {f : Unit → Talk Unit} {reads : List Bytes} {later : Bytes}
    (h : reads.flatten = [0x01, 0x00] ++ later) :
    (awaitAuth >>= f) ⟨reads, none⟩ = f () ⟨[later], none⟩ := by
  have hread : Talk.readExact 2 ⟨reads, none⟩ = _ := Talk.readExact_append h none
  rw [awaitAuth, Talk.bind_assoc, Talk.bind_apply_ok hread]
  rfl

theorem awaitReply_writes (w : Wire) : (awaitReply w).1 = [] := by
  have hdrain : ∀ atyp, Talk.Quiet (drainBound atyp) := by
    intro atyp
    rw [drainBound]
    split
    · exact Talk.quiet_readExact.bind fun _ => Talk.quiet_pure
    · split
      · exact Talk.quiet_readExact.bind fun _ => Talk.quiet_pure
      · split
        · exact Talk.quiet_readExact.bind fun _ => Talk.quiet_readExact.bind fun _ => Talk.quiet_pure
        · exact Talk.quiet_fail
  refine (Talk.quiet_readExact.bind fun head => ?_) w
  split
  · exact Talk.quiet_fail
  · exact hdrain _

theorem askTarget_writes {reads} (h : (utf8Bytes host).length ≤ 255) :
    (askTarget host port ⟨reads, none⟩).1 = [requestMessage host port] := by
  rw [askTarget, if_neg (Nat.not_lt.2 h), Talk.bind_apply_ok (Talk.writeAll_holds _ reads), awaitReply_writes]
  rfl

theorem askTarget_too_long {reads} (h : ¬ (utf8Bytes host).length ≤ 255) :
    ∃ e, askTarget host port ⟨reads, none⟩ = ([], .error e) := by
  rw [askTarget, if_pos (Nat.lt_of_not_le h)]
  exact ⟨_, rfl⟩

/-! ## One against the other -/

section
variable (p : Parsers) (base64 : Bytes → Str)

/-- `socks5_connect` and a node that serve each other: the node finds on its stream what
the client writes, and the client on its own what the node replies. -/
structure Exchange {σ : Type} [Source σ] (v : Http.Visit) (up : Upstream) (host : Str) (port : Nat) (s : σ)
    (replies : List Bytes) : Prop where
  written : rest s = (socks5Connect up host port ⟨replies, none⟩).1.flatten
  replied : replies.flatten = (serve p base64 v s).replies.flatten

/-- Whatever the client got to write in an exchange, the node read as it was meant: the
second of its messages as the credentials, and the third as the request, with nothing
left over. A client that did not get there returned an error. -/
structure Heard {σ : Type} [Source σ] (v : Http.Visit) (up : Upstream) (host : Str) (port : Nat) (s : σ)
    (replies : List Bytes) : Prop where
  error : (socks5Connect up host port ⟨replies, none⟩).1.length < 3 →
    ∃ e, (socks5Connect up host port ⟨replies, none⟩).2 = .error e
  credentials : 2 ≤ (socks5Connect up host port ⟨replies, none⟩).1.length →
    (serve p base64 v s).credentials = some (up.username.getD [], up.password.getD [])
  target : 3 ≤ (socks5Connect up host port ⟨replies, none⟩).1.length →
    ∃ s', rest s' = [] ∧ (serve p base64 v s).asked = some ⟨0x01, host, port, s'⟩

/-- The credentials of an upstream fit in their messages. -/
def Fits (up : Upstream) : Prop :=
  up.username = none ∨
    ((utf8Bytes (up.username.getD [])).length ≤ 255 ∧ (utf8Bytes (up.password.getD [])).length ≤ 255)

variable {p base64} {σ : Type} [Source σ] {v : Http.Visit} {s : σ} {replies : List Bytes}

theorem Exchange.heard_of_none (h : Exchange p base64 v up host port s replies) (hnone : up.username = none) :
    Heard p base64 v up host port s replies := by
  have hgreeting : greeting up = [0x05, 0x01, 0x00] := by simp [greeting, hnone]
  obtain ⟨out, hout⟩ := @exists_greeting up host port replies
  have hstream : rest s = [0x05, 0x01, 0x00] ++ out.flatten := by rw [h.written, hout, hgreeting, flatten_cons]
  have hreplies : replies.flatten = [0x05, 0xff] := by
    obtain ⟨_, -, -, hserve⟩ := serve_of_offer p base64 v hstream
    rw [h.replied, hserve (by decide)]
    rfl
  obtain ⟨e, hclient⟩ := @socks5Connect_of_no_method up host port replies hreplies
  constructor
  · exact fun _ => ⟨e, by rw [hclient]⟩
  · intro hlen
    simp [hclient] at hlen
  · intro hlen
    simp [hclient] at hlen

theorem Exchange.heard_of_le (h : Exchange p base64 v up host port s replies) (hsome : up.username.isSome = true)
    (huser : (utf8Bytes (up.username.getD [])).length ≤ 255) (hpass : (utf8Bytes (up.password.getD [])).length ≤ 255)
    (hport : port < 2 ^ 16) : Heard p base64 v up host port s replies := by
  have hgreeting : greeting up = [0x05, 0x01, 0x02] := by simp [greeting, hsome]
  -- what is written first decides what is replied first, and so on
  obtain ⟨out, hout⟩ := @exists_greeting up host port replies
  have hstream : rest s = [0x05, 0x01, 0x02] ++ out.flatten := by rw [h.written, hout, hgreeting, flatten_cons]
  obtain ⟨s₁, hrest₁, hserve, -⟩ := serve_of_offer p base64 v hstream
  have hserve := hserve rfl
  have hreplies : replies.flatten = [0x05, 0x02] ++ (serveAuth p base64 v s₁).replies.flatten := by
    rw [h.replied, hserve, Served.after, flatten_cons]
  have hclient := @socks5Connect_of_method up host port replies _ hreplies
  have htail : out = authMessage (up.username.getD []) (up.password.getD []) ::
      ((awaitAuth >>= fun _ => askTarget host port) ⟨[(serveAuth p base64 v s₁).replies.flatten], none⟩).1 := by
    rw [hclient] at hout
    exact (List.cons.inj hout).2.symm
  rw [htail, flatten_cons] at hrest₁
  obtain ⟨s₂, hrest₂, hcredentials, hanswer⟩ := serveAuth_of_le p base64 v huser hpass hrest₁
  have hcred : (serve p base64 v s).credentials = some (up.username.getD [], up.password.getD []) := by
    rw [hserve]
    exact hcredentials
  cases hanswer with
  | inl hrefused =>
    obtain ⟨e, hend⟩ := @awaitAuth_refused (fun _ => askTarget host port) [(serveAuth p base64 v s₁).replies.flatten]
      (.inl (by rw [hrefused]; rfl))
    rw [hend] at hclient
    refine ⟨fun _ => ⟨e, by rw [hclient]⟩, fun _ => hcred, fun hlen => ?_⟩
    simp [hclient] at hlen
  | inr hgranted =>
    obtain ⟨auth, hreplied, hasked⟩ := hgranted
    have hnext := @awaitAuth_granted (fun _ => askTarget host port) [(serveAuth p base64 v s₁).replies.flatten]
      (serveRequest p base64 v (up.username.getD []) auth s₂).replies.flatten (by rw [hreplied]; simp)
    rw [hnext] at hclient hrest₂
    by_cases hhost : (utf8Bytes host).length ≤ 255
    · rw [askTarget_writes hhost] at hrest₂
      obtain ⟨s₃, hrest₃, htarget⟩ := @serveRequest_of_le _ _ p base64 v s₂
        (up.username.getD []) host auth port hhost hport
        (hrest₂.trans (by simp))
      refine ⟨fun hlen => ?_, fun _ => hcred, fun _ => ⟨s₃, hrest₃, ?_⟩⟩
      · simp [hclient, askTarget_writes hhost] at hlen
      · rw [hserve]
        exact hasked.trans htarget
    · obtain ⟨e, hend⟩ := @askTarget_too_long host port
        [(serveRequest p base64 v (up.username.getD []) auth s₂).replies.flatten] hhost
      rw [hend] at hclient
      refine ⟨fun _ => ⟨e, by rw [hclient]⟩, fun _ => hcred, fun hlen => ?_⟩
      simp [hclient] at hlen

end

def nobody : Http.Visit := { Http.oneUserVisit with authSnapshot := Model.Snapshot.empty }

/-- What a node without users replies, and what it took the credentials for. -/
theorem serve_nobody (p : Parsers) (base64 : Bytes → Str) (user pass : Str) :
    let served := serve p base64 nobody ([0x05, 0x01, 0x02] ++ authMessage user pass)
    served.credentials = (readCredentials (countedText user ++ countedText pass)).map Prod.fst ∧
      (served.replies = [[0x05, 0x02]] ∨ served.replies = [[0x05, 0x02], [0x01, 0x01]]) := by
  intro served
  obtain ⟨bs, hrest, hserve, -⟩ := serve_of_offer p base64 nobody
    (show rest ([0x05, 0x01, 0x02] ++ authMessage user pass) = [0x05, 0x01, 0x02] ++ authMessage user pass from rfl)
  obtain rfl : bs = authMessage user pass := hrest
  have hversion := Recv.byte_cons 0x01 (countedText user ++ countedText pass)
  have hserved : served = (serveAuth p base64 nobody (authMessage user pass)).after [0x05, 0x02] := hserve rfl
  rw [hserved, serveAuth, authMessage, hversion]
  simp only [ne_eq, not_true_eq_false, if_false]
  cases hread : readCredentials (countedText user ++ countedText pass) with
  | none => exact ⟨rfl, .inl rfl⟩
  | some found =>
    obtain ⟨⟨user', pass'⟩, left⟩ := found
    exact ⟨rfl, .inr rfl⟩

/-- Credentials that do not fit are written all the same, for a node to read otherwise. -/
theorem exists_exchange_nobody (p : Parsers) (base64 : Bytes → Str) {up} (hsome : up.username.isSome = true)
    (host : Str) (port : Nat) :
    ∃ replies, Exchange p base64 nobody up host port
        ([0x05, 0x01, 0x02] ++ authMessage (up.username.getD []) (up.password.getD [])) replies ∧
      (socks5Connect up host port ⟨replies, none⟩).1.length = 2 := by
  have hgreeting : greeting up = [0x05, 0x01, 0x02] := by simp [greeting, hsome]
  obtain ⟨-, hreplies⟩ := serve_nobody p base64 (up.username.getD []) (up.password.getD [])
  have hend : ∃ later, (later = [0x01, 0x01] ∨ later = []) ∧
      (serve p base64 nobody ([0x05, 0x01, 0x02] ++ authMessage (up.username.getD [])
        (up.password.getD []))).replies.flatten =
        [0x05, 0x02] ++ later := by
    cases hreplies with
    | inl hshort => exact ⟨[], .inr rfl, by rw [hshort]; rfl⟩
    | inr hrefused => exact ⟨[0x01, 0x01], .inl rfl, by rw [hrefused]; rfl⟩
  obtain ⟨later, hlater, hflatten⟩ := hend
  obtain ⟨e, hawait⟩ := @awaitAuth_refused (fun _ => askTarget host port) [later] (by simpa using hlater)
  have hclient := @socks5Connect_of_method up host port _ _ hflatten
  rw [hawait] at hclient
  refine ⟨_, ⟨?_, rfl⟩, by rw [hclient]; rfl⟩
  rw [hclient, hgreeting]
  simp [Source.rest]

/-- A Rove node reads what `socks5_connect` of another one writes to it as the username,
password, host and port that were meant, or `socks5_connect` returns an error before it
writes them, if and only if username and password are at most 255 bytes long (or there is
no username). -/
theorem socks5_understood_iff (p : Parsers) (base64 : Bytes → Str) (up : Upstream) (host : Str) (port : BitVec 16) :
    (∀ (v : Http.Visit) (σ : Type) [Source σ] (s : σ) (replies : List Bytes),
        Exchange p base64 v up host port.toNat s replies → Heard p base64 v up host port.toNat s replies) ↔
        Fits up := by
  constructor
  · intro hheard
    by_cases hsome : up.username.isSome = true
    · obtain ⟨replies, hexchange, hlen⟩ := exists_exchange_nobody p base64 hsome host port.toNat
      have hcredentials := (hheard nobody Bytes _ replies hexchange).credentials (Nat.le_of_eq hlen.symm)
      rw [(serve_nobody p base64 _ _).1] at hcredentials
      obtain ⟨⟨found, left⟩, hread, rfl⟩ := Option.map_eq_some_iff.1 hcredentials
      exact .inr (le_of_readCredentials hread)
    · exact .inl (by simpa using hsome)
  · intro hfits v σ _ s replies hexchange
    by_cases hsome : up.username.isSome = true
    · cases hfits with
      | inl hnone => simp [hnone] at hsome
      | inr hle => exact hexchange.heard_of_le hsome hle.1 hle.2 port.isLt
    · exact hexchange.heard_of_none (by simpa using hsome)

def longUsername : Upstream :=
  ⟨.socks5, "up.example:1080", some (replicate 256 'a'), some "secret", false, false⟩

/-- It is announced as one of no bytes, and its first byte as the length of the
password: the node is asked to let in somebody else. -/
theorem long_username_misread :
    let stream : Bytes := [0x05, 0x01, 0x02] ++ authMessage (replicate 256 'a') "secret"
    ∃ replies, Exchange helloParsers (fun _ => []) nobody longUsername "h" 443 stream replies ∧
      (serve helloParsers (fun _ => []) nobody stream).credentials = some ([], replicate 97 'a') ∧
      ¬ Heard helloParsers (fun _ => []) nobody longUsername "h" 443 stream replies := by
  intro stream
  obtain ⟨replies, hexchange, hlen⟩ := @exists_exchange_nobody helloParsers (fun _ => []) longUsername rfl "h" 443
  have hread : (serve helloParsers (fun _ => []) nobody stream).credentials = some ([], replicate 97 'a') := by
    decide +kernel
  refine ⟨replies, hexchange, hread, fun hheard => ?_⟩
  have hmeant := hread.symm.trans (hheard.credentials (Nat.le_of_eq hlen.symm))
  cases Option.some.inj hmeant

end Rove.Inbound.Socks5
