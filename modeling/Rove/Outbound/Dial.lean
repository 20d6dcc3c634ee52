/-
Where a proxy upstream is dialled: `dial` splits the address it was configured
with, `resolver.rs` takes the host for an IP literal or asks a resolver, and the
addresses found are tried in turn.

`dialled_as_configured_iff`: which addresses are dialled as they are written.
-/
import Rove.Base.IpDisplay
import Rove.Model.Compile
import Rove.Outbound.Connect

namespace Rove.Outbound

open Model (Upstream UpstreamKind RawUpstream compileUpstream)

/-- The resolver that is installed, or the system's. -/
inductive Resolver where
  | custom (lookupIp : Str → Except String (List IpAddr))
  | system (lookupHost : Str → Nat → Except String (List SocketAddr))

/-- `resolve`. -/
def Resolver.resolve (resolver : Resolver) (host : Str) (port : Nat) : Except String (List SocketAddr) :=
  match parseIpAddr host with
  | some ip => .ok [.new ip (BitVec.ofNat 16 port)]
  | none => do
    let addrs ←
      match resolver with
      | .custom lookupIp =>
        match lookupIp host with
        | .ok ips => pure (ips.map fun ip => SocketAddr.new ip (BitVec.ofNat 16 port))
        | .error e => throw s!"resolve {Str.display host}: {e}"
      | .system lookupHost => lookupHost host port
    ensure (addrs ≠ []) s!"resolve {Str.display host}: no addresses"
    return addrs

/-- The loop of `tcp_connect_detailed`; `connect` is what each address answers. -/
def tryAddrs (connect : SocketAddr → Except String Unit) (last : String) : List SocketAddr → Except TcpConnectError Unit
  | [] => .error (.dial last)
  | addr :: addrs =>
    match connect addr with
    | .ok _ => .ok ()
    | .error e => tryAddrs connect e addrs

/-- `tcp_connect_detailed`. -/
def tcpConnectDetailed (resolver : Resolver) (connect : SocketAddr → Except String Unit) (host : Str) (port : Nat) :
    Except TcpConnectError Unit :=
  match resolver.resolve host port with
  | .error e => .error (.resolve e)
  | .ok addrs =>
    if addrs = [] then .error (.resolve s!"resolve {Str.display host}: no addresses")
    else tryAddrs connect s!"no addresses for {Str.display host}:{port}" addrs

/-- Whatever resolver there is and whatever answers, dialling the upstream is
connecting to this address. -/
def DialledAt (up : Upstream) (addr : SocketAddr) : Prop :=
  ∀ (net : Network) resolver connect, dial { net with tcpConnect := tcpConnectDetailed resolver connect } up =
    dial { net with tcpConnect := fun _ _ => (connect addr).mapError .dial } up

/-- The address has a host and a port for `dial`. -/
def Splits (addr : Str) : Prop := Util.hostOf addr ≠ [] ∧ (portOf addr).isSome = true

/-- An upstream whose address is the text of a socket address is dialled there,
and its address can be split. -/
def DialledAsConfigured (up : Upstream) : Prop :=
  (∀ ip port, up.addr = (SocketAddr.new ip port).toText → DialledAt up (.new ip port)) ∧ Splits up.addr

/-- The text is a host, a colon and a port of 16 bits, in digits after an optional plus. -/
def HostAndPort (addr : Str) : Prop :=
  ∃ host digits port, (addr = host ++ ':' :: digits ∨ addr = host ++ ':' :: '+' :: digits) ∧ host ≠ [] ∧ digits ≠ [] ∧
    ofDigits 10 0 digits = some port ∧ port < 65536

variable {up : Upstream} {addr : Str}

theorem splits_iff : Splits addr ↔ HostAndPort addr := by
  constructor
  · rintro ⟨hhost, hport⟩
    obtain ⟨port, hport⟩ := Option.isSome_iff_exists.1 hport
    obtain ⟨⟨host, text⟩, hsplit, hport⟩ := Option.bind_eq_some_iff.1 hport
    obtain ⟨hdigits, hne, hlt⟩ := parseUnsigned_eq_some hport
    simp only [Util.hostOf, hsplit] at hhost
    refine ⟨host, stripPlus text, port, ?_, hhost, hne, hdigits, hlt⟩
    rw [Str.rsplitOnce_eq_append hsplit]
    unfold stripPlus
    split <;> simp
  · rintro ⟨host, digits, port, haddr, hhost, hne, hdigits, hlt⟩
    have hall := isDigitOf_of_ofDigits hdigits
    have hcolon : ':' ∉ digits := fun h => absurd (hall _ h) (by decide)
    have hplain : stripPlus digits = digits := stripPlus_of_head
      fun h => absurd (hall _ (List.mem_of_head? h)) (by decide)
    have hplus : stripPlus ('+' :: digits) = digits := by
      cases digits with
      | nil => exact absurd rfl hne
      | cons c rest => rfl
    rcases haddr with rfl | rfl
    · simp [Splits, Util.hostOf, portOf, Str.rsplitOnce_append _ hcolon, hhost, parseUnsigned,
        hplain, hne, hdigits, hlt]
    · have hcolon : ':' ∉ '+' :: digits := by simp [hcolon]
      simp [Splits, Util.hostOf, portOf, Str.rsplitOnce_append _ hcolon, hhost, parseUnsigned, hplus, hne, hdigits, hlt]

/-- The host that `dial` finds in the text of a socket address. -/
def writtenHost : IpAddr → Str
  | .v4 a => a.toText
  | .v6 a => '[' :: (a.toText ++ [']'])

theorem dial_split (ip : IpAddr) (port : BitVec 16) :
    Util.hostOf (SocketAddr.new ip port).toText = writtenHost ip ∧
    portOf (SocketAddr.new ip port).toText = some port.toNat := by
  have hcolon : ':' ∉ showNat port.toNat := fun h => absurd (isDigit_of_mem_showNat h) (by decide)
  have htext : (SocketAddr.new ip port).toText = writtenHost ip ++ ':' :: showNat port.toNat := by
    cases ip <;> simp [SocketAddr.new, SocketAddr.toText, writtenHost]
  have hsplit := Str.rsplitOnce_append (writtenHost ip) hcolon
  rw [htext]
  exact ⟨by simp only [Util.hostOf, hsplit],
    by simp only [portOf, hsplit, Option.bind_some, parseUnsigned_showNat port.isLt]⟩

theorem tcpConnectDetailed_literal {host : Str} {ip : IpAddr} (h : parseIpAddr host = some ip) (resolver : Resolver)
    (connect : SocketAddr → Except String Unit) (port : BitVec 16) :
    tcpConnectDetailed resolver connect host port.toNat = (connect (.new ip port)).mapError .dial := by
  simp only [tcpConnectDetailed, Resolver.resolve, h, BitVec.ofNat_toNat, BitVec.setWidth_eq,
    List.cons_ne_nil, if_false, tryAddrs]
  cases connect (.new ip port) <;> rfl

theorem dialledAt_v4 {a : Ipv4Addr} {port : BitVec 16} (h : up.addr = (SocketAddr.new (.v4 a) port).toText) :
    DialledAt up (.new (.v4 a) port) := by
  intro net resolver connect
  obtain ⟨hhost, hport⟩ := dial_split (.v4 a) port
  simp only [dial, h, hhost, hport, tcpConnectDetailed_literal (IpText.parseIpAddr_toText a), writtenHost]

/-- In brackets the host is no literal, so a resolver is asked for it. -/
theorem not_dialledAt_v6 {a : Ipv6Addr} {port : BitVec 16} (h : up.addr = (SocketAddr.new (.v6 a) port).toText) :
    ¬ DialledAt up (.new (.v6 a) port) := by
  intro hdial
  let net : Network := ⟨fun _ _ => .ok (), fun _ => .error "", fun _ _ => .ok (),
    fun _ => ⟨[], none⟩, none, none, false⟩
  have hsame := hdial net (.custom fun _ => .error "") fun _ => .ok ()
  obtain ⟨hhost, hport⟩ := dial_split (.v6 a) port
  have hparse : parseIpAddr (writtenHost (.v6 a)) = none := parseIpAddr_cons (by decide) (by decide) (by decide) _
  simp only [dial, h, hhost, hport, tcpConnectDetailed, Resolver.resolve, hparse] at hsame
  revert hsame
  cases up.tls <;> simp [net, bind, Except.bind, throw, throwThe, MonadExceptOf.throw, Except.mapError, mapTcpConnect]

theorem addr_of_compileUpstream {context : String} {u : RawUpstream} (h : compileUpstream context u = .ok up)
    (hkind : up.kind = .http ∨ up.kind = .socks5) : up.addr = u.addr := by
  unfold compileUpstream at h
  split at h
  · cases h
  · simp only [Res.ensure_bind_eq_ok] at h
    obtain ⟨-, -, -, h⟩ := h
    cases h
    simp at hkind
  · obtain ⟨-, h⟩ := Res.ensure_bind_eq_ok.1 h
    obtain ⟨-, h⟩ := Res.ensure_bind_eq_ok.1 h
    cases h
    simp at hkind
  · cases h
    rfl

/-- An HTTP or SOCKS5 upstream that compiles is dialled as configured exactly if
its address has a host and a port and is no IPv6 address in brackets. -/
theorem dialled_as_configured_iff {context : String} {u : RawUpstream} (h : compileUpstream context u = .ok up)
    (hkind : up.kind = .http ∨ up.kind = .socks5) :
    DialledAsConfigured up ↔
      HostAndPort u.addr ∧ ∀ (ip : Ipv6Addr) port, u.addr ≠ (SocketAddr.new (.v6 ip) port).toText := by
  rw [← splits_iff, DialledAsConfigured, addr_of_compileUpstream h hkind]
  refine ⟨fun hup => ⟨hup.2, fun ip port haddr => ?_⟩, fun hup => ⟨fun ip port haddr => ?_, hup.1⟩⟩
  · rw [← addr_of_compileUpstream h hkind] at haddr
    exact not_dialledAt_v6 haddr (hup.1 _ port (addr_of_compileUpstream h hkind ▸ haddr))
  · cases ip with
    | v4 a => exact dialledAt_v4 ((addr_of_compileUpstream h hkind).trans haddr)
    | v6 a => exact absurd haddr (hup.2 a port)

def quadUpstream : RawUpstream := { kind := "socks5", addr := "10.0.0.9:1080" }

theorem dialled_as_configured_iff_quad :
    ∃ up, compileUpstream "egress e" quadUpstream = .ok up ∧ DialledAsConfigured up ∧
    DialledAt up (.v4 0x0a000009 1080) := by
  have hup : compileUpstream "egress e" quadUpstream = .ok ⟨.socks5, quadUpstream.addr, none, none, false, false⟩ := rfl
  have htext : quadUpstream.addr = (SocketAddr.new (.v4 0x0a000009) 1080).toText := by decide +kernel
  have hopen : ∀ (ip : Ipv6Addr) port, (SocketAddr.new (.v6 ip) port).toText.head? = some '[' := fun _ _ => rfl
  have hall : DialledAsConfigured _ := (dialled_as_configured_iff hup (.inr rfl)).2
    ⟨⟨"10.0.0.9", "1080", 1080, .inl rfl, by decide, by decide, by decide, by decide⟩, fun ip port h =>
      absurd (h ▸ hopen ip port) (by decide)⟩
  exact ⟨_, hup, hall, hall.1 _ _ htext⟩

/-- `[::1]:1080` compiles and is not dialled there, and `proxy` compiles and
cannot be split. -/
theorem bracketed_not_dialled :
    (∃ up, compileUpstream "egress e" { kind := "socks5", addr := "[::1]:1080" } = .ok up ∧
      up.addr = (SocketAddr.new (.v6 1) 1080).toText ∧ ¬ DialledAt up (.new (.v6 1) 1080)) ∧
    ∃ up, compileUpstream "egress e" { kind := "http", addr := "proxy" } = .ok up ∧ ¬ Splits up.addr := by
  have haddr : "[::1]:1080" = (SocketAddr.new (.v6 1) 1080).toText := by decide +kernel
  exact ⟨⟨_, rfl, haddr, not_dialledAt_v6 haddr⟩, ⟨_, rfl, by simp [Splits, portOf, Str.rsplitOnce, Str.splitOnce]⟩⟩

end Rove.Outbound
