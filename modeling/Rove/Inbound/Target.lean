/-
Where the front ends take a target from: the authority of an HTTP `CONNECT`
(`util.rs`, `inbound/http.rs`), the address of a SOCKS5 request
(`inbound/socks5.rs`) and the TUIC address (`inbound/tuic/codec.rs`).

None of them looks at what a domain consists of. Whatever text a client puts
there reaches the policy as it stands, which is what the `_carries_`
theorems say.
-/
import Rove.Base.Endian
import Rove.Base.Lossy
import Rove.Base.IpText
import Rove.Base.Result

namespace Rove.Inbound

/-! ## HTTP CONNECT -/

/-- `rest.split_once("]:")`. -/
def splitBracket : Str → Option (Str × Str)
  | [] => none
  | c :: s => if c = ']' ∧ s.head? = some ':' then some ([], s.tail) else (splitBracket s).map fun (a, b) => (c :: a, b)

def splitHostPort (t : Str) : Option (Str × Nat) :=
  match Str.trim t with
  | '[' :: rest => (splitBracket rest).bind fun (h, p) => (parseUnsigned 16 10 p).map (h, ·)
  | t => (Str.rsplitOnce ':' t).bind fun (h, p) => (parseUnsigned 16 10 p).map (h, ·)

/-- The target of a `CONNECT` request, whose host and port may not be empty or zero. -/
def connectTarget (rawTarget : Str) : Option (Str × Nat) :=
  (splitHostPort rawTarget).filter fun (host, port) => host ≠ [] && port ≠ 0

/-! ## SOCKS5 -/

/-- `Ipv4Addr::from` of four octets. -/
def ipv4OfBytes (bs : Bytes) : Ipv4Addr := BitVec.ofNat 32 (ofBeBytes bs)

/-- `Ipv6Addr::from` of sixteen octets. -/
def ipv6OfBytes (bs : Bytes) : Ipv6Addr := BitVec.ofNat 128 (ofBeBytes bs)

@[simp] theorem ipv4OfBytes_beBytes (a : Ipv4Addr) : ipv4OfBytes (beBytes 4 a.toNat) = a :=
  ofNat_ofBeBytes_beBytes 4 rfl a

@[simp] theorem ipv6OfBytes_beBytes (a : Ipv6Addr) : ipv6OfBytes (beBytes 16 a.toNat) = a :=
  ofNat_ofBeBytes_beBytes 16 rfl a

theorem beBytes_ipv4OfBytes {bs} (h : bs.length = 4) : beBytes 4 (ipv4OfBytes bs).toNat = bs :=
  beBytes_ofNat_ofBeBytes 4 rfl h

theorem beBytes_ipv6OfBytes {bs} (h : bs.length = 16) : beBytes 16 (ipv6OfBytes bs).toNat = bs :=
  beBytes_ofNat_ofBeBytes 16 rfl h

/-- `read_exact`: the next `n` bytes and what follows them. -/
def readExact (n : Nat) (bs : Bytes) : Option (Bytes × Bytes) :=
  if n ≤ bs.length then some (bs.take n, bs.drop n) else none

/-- The address and port of a SOCKS5 request, from `ATYP` on. -/
def socks5Target : Bytes → Option (Str × Nat)
  | [] => none
  | atyp :: bs => do
    let (host, bs) ←
      if atyp = 0x01 then (readExact 4 bs).map fun (a, bs) => ((ipv4OfBytes a).toText, bs)
      else if atyp = 0x04 then (readExact 16 bs).map fun (a, bs) => ((ipv6OfBytes a).toText, bs)
      else if atyp = 0x03 then do
        let (l, bs) ← readExact 1 bs
        let (d, bs) ← readExact (ofBeBytes l) bs
        pure (fromUtf8Lossy d, bs)
      else none
    let (port, _) ← readExact 2 bs
    pure (host, ofBeBytes port)

theorem readExact_append (xs ys : Bytes) : readExact xs.length (xs ++ ys) = some (xs, ys) := by
  simp [readExact]

/-- The domain type of a SOCKS5 address carries every text of up to 255 bytes. -/
theorem socks5_carries_domain {host port} (hlen : (utf8Bytes host).length ≤ 255)
    (hport : port < 256 ^ 2) :
    socks5Target (0x03 :: UInt8.ofNat (utf8Bytes host).length :: (utf8Bytes host ++ beBytes 2 port)) =
      some (host, port) := by
  have hl : ofBeBytes [UInt8.ofNat (utf8Bytes host).length] = (utf8Bytes host).length := by
    simp [ofBeBytes, ofLeBytes]
    omega
  have hlenByte := readExact_append [UInt8.ofNat (utf8Bytes host).length] (utf8Bytes host ++ beBytes 2 port)
  have htext := readExact_append (utf8Bytes host) (beBytes 2 port)
  have hp := readExact_append (beBytes 2 port) []
  simp only [List.length_singleton, List.singleton_append, length_beBytes, List.append_nil] at hlenByte hp
  simp [socks5Target, hlenByte, hl, htext, hp, fromUtf8Lossy_utf8Bytes, ofBeBytes_beBytes_of_lt hport]

/-! ## TUIC -/

inductive Address where
  | none
  | domain (host : Str) (port : Nat)
  | v4 (ip : Ipv4Addr) (port : Nat)
  | v6 (ip : Ipv6Addr) (port : Nat)
  deriving DecidableEq

def Address.hostPort : Address → Option (Str × Nat)
  | .none => Option.none
  | .domain h p => some (h, p)
  | .v4 ip p => some (ip.toText, p)
  | .v6 ip p => some (ip.toText, p)

/-- `parse_address`: the address and the number of bytes it takes. -/
def parseAddress (buf : Bytes) : Res (Address × Nat) :=
  match buf with
  | [] => throw "tuic: empty address"
  | t :: rest =>
    if t = 0xff then pure (.none, 1)
    else if t = 0x00 then
      match rest with
      | [] => throw "tuic: address domain len"
      | l :: rest => do
        ensure (l.toNat + 2 ≤ rest.length) "tuic: address domain truncated"
        let port := ofBeBytes ((rest.drop l.toNat).take 2)
        pure (.domain (fromUtf8Lossy (rest.take l.toNat)) port, l.toNat + 4)
    else if t = 0x01 then do
      ensure (6 ≤ rest.length) "tuic: address v4 truncated"
      pure (.v4 (ipv4OfBytes (rest.take 4)) (ofBeBytes ((rest.drop 4).take 2)), 7)
    else if t = 0x02 then do
      ensure (18 ≤ rest.length) "tuic: address v6 truncated"
      pure (.v6 (ipv6OfBytes (rest.take 16)) (ofBeBytes ((rest.drop 16).take 2)), 19)
    else throw "tuic: bad address type"

/-- The target of a TUIC `Connect`: its address, read off the stream. -/
def tuicTarget (bs : Bytes) : Option (Str × Nat) :=
  match parseAddress bs with
  | .ok (addr, _) => addr.hostPort
  | .error _ => none

/-- The domain type of a TUIC address carries every text of up to 255 bytes. -/
theorem tuic_carries_domain {host port} (hlen : (utf8Bytes host).length ≤ 255)
    (hport : port < 256 ^ 2) :
    tuicTarget (0x00 :: UInt8.ofNat (utf8Bytes host).length :: (utf8Bytes host ++ beBytes 2 port)) =
      some (host, port) := by
  have hl : (UInt8.ofNat (utf8Bytes host).length).toNat = (utf8Bytes host).length := by
    simp
    omega
  have hparse : parseAddress (0x00 :: UInt8.ofNat (utf8Bytes host).length :: (utf8Bytes host ++ beBytes 2 port)) =
      .ok (.domain host port, (utf8Bytes host).length + 4) := by
    refine Res.ensure_bind_eq_ok.2 ⟨by simp [hl], Res.pure_eq_ok.2 ?_⟩
    have hport2 : (beBytes 2 port).take 2 = beBytes 2 port := List.take_of_length_le (by simp)
    rw [hl, List.take_left, List.drop_left, hport2, fromUtf8Lossy_utf8Bytes, ofBeBytes_beBytes_of_lt hport]
  simp [tuicTarget, hparse, Address.hostPort]

/-! ## Any front end -/

/-- A request as a client sends it, up to its target. -/
inductive Request where
  | connect (rawTarget : Str)
  | socks5 (address : Bytes)
  | tuic (address : Bytes)

def Request.target : Request → Option (Str × Nat)
  | .connect rawTarget => connectTarget rawTarget
  | .socks5 address => socks5Target address
  | .tuic address => tuicTarget address

/-- The host the front end asks the policy about. -/
def Request.host (r : Request) : Option Str := r.target.map (·.1)

end Rove.Inbound
