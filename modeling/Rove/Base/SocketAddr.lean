/-
Socket addresses and their text: `SocketAddr` and `FromStr` of the Rust
standard library. An IPv6 address stands in brackets and may name a scope.
-/
import Rove.Base.IpAddr

namespace Rove

inductive SocketAddr where
  | v4 (ip : Ipv4Addr) (port : BitVec 16)
  | v6 (ip : Ipv6Addr) (port : BitVec 16) (flowinfo scopeId : BitVec 32)
  deriving DecidableEq, Repr

def IpAddr.isUnspecified : IpAddr → Bool
  | .v4 ip => ip = 0
  | .v6 ip => ip = 0

/-- `IpAddr::is_loopback`; of IPv6 only `::1`. -/
def IpAddr.isLoopback : IpAddr → Bool
  | .v4 ip => Ipv4Addr.octet ip 0 = 127
  | .v6 ip => ip = 1

def SocketAddr.new (ip : IpAddr) (port : BitVec 16) : SocketAddr :=
  match ip with
  | .v4 ip => .v4 ip port
  | .v6 ip => .v6 ip port 0 0

def SocketAddr.ip : SocketAddr → IpAddr
  | .v4 ip _ => .v4 ip
  | .v6 ip _ _ _ => .v6 ip

def SocketAddr.port : SocketAddr → BitVec 16
  | .v4 _ port => port
  | .v6 _ port _ _ => port

def SocketAddr.isIpv6 : SocketAddr → Bool
  | .v4 _ _ => false
  | .v6 _ _ _ _ => true

@[simp] theorem SocketAddr.ip_new (ip : IpAddr) (port : BitVec 16) : (SocketAddr.new ip port).ip = ip := by
  cases ip <;> rfl

@[simp] theorem SocketAddr.port_new (ip : IpAddr) (port : BitVec 16) : (SocketAddr.new ip port).port = port := by
  cases ip <;> rfl

namespace IpText

/-- A decimal number of any length after a lead character, below `bound`. -/
def readAfter (lead : Char) (bound : Nat) (s : Str) : Option (Nat × Str) :=
  (readGivenChar lead s).bind fun s => readNumber 10 s.length true bound s

def readPort (s : Str) : Option (BitVec 16 × Str) := (readAfter ':' (2 ^ 16) s).map fun (n, s) => (BitVec.ofNat 16 n, s)

/-- `read_scope_id`, with zero for none. -/
def readScopeId (s : Str) : BitVec 32 × Str :=
  ((readAfter '%' (2 ^ 32) s).map fun (n, s) => (BitVec.ofNat 32 n, s)).getD (0, s)

def readSocketAddrV4 (s : Str) : Option (SocketAddr × Str) := do
  let (ip, s) ← readIpv4 s
  let (port, s) ← readPort s
  return (.v4 ip port, s)

def readSocketAddrV6 (s : Str) : Option (SocketAddr × Str) := do
  let s ← readGivenChar '[' s
  let (ip, s) ← readIpv6 s
  let (scopeId, s) := readScopeId s
  let s ← readGivenChar ']' s
  let (port, s) ← readPort s
  return (.v6 ip port 0 scopeId, s)

def readSocketAddr (s : Str) : Option (SocketAddr × Str) := readSocketAddrV4 s <|> readSocketAddrV6 s

end IpText

/-- `str::parse::<SocketAddr>`. -/
def parseSocketAddr (s : Str) : Option SocketAddr := IpText.parseWith IpText.readSocketAddr s

end Rove
