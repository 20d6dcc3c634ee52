/-
IP networks as the `ipnet` crate documents them: an address with a prefix
length, the first and the last address of the network, and which addresses
lie in it. The crate's reading of the text `addr/len` is a parameter of the
code that uses it.
-/
import Rove.Base.IpAddr

namespace Rove

/-- `IpNet`: the prefix length is at most the width of the address. -/
inductive IpNet where
  | v4 (addr : Ipv4Addr) (prefixLen : Fin 33)
  | v6 (addr : Ipv6Addr) (prefixLen : Fin 129)

/-- The address with the host bits cleared. -/
def networkBits {w : Nat} (addr : BitVec w) (len : Nat) : BitVec w :=
  addr &&& (BitVec.allOnes w <<< (w - len))

/-- The address with the host bits set. -/
def broadcastBits {w : Nat} (addr : BitVec w) (len : Nat) : BitVec w :=
  addr ||| (BitVec.allOnes w >>> len)

structure Ipv4Net where
  addr : Ipv4Addr
  prefixLen : Fin 33
  deriving DecidableEq

/-- The network of an address and a prefix length that fits. -/
def Ipv4Net.ofLen (addr : Ipv4Addr) (len : Nat) : Ipv4Net := ⟨addr, Fin.ofNat 33 len⟩

/-- `Ipv4Net::contains` of an address. -/
def Ipv4Net.contains (net : Ipv4Net) (a : Ipv4Addr) : Bool :=
  decide (networkBits net.addr net.prefixLen.val ≤ a) && decide (a ≤ broadcastBits net.addr net.prefixLen.val)

def IpNet.network : IpNet → IpAddr
  | .v4 a n => .v4 (networkBits a n.val)
  | .v6 a n => .v6 (networkBits a n.val)

def IpNet.addr : IpNet → IpAddr
  | .v4 a _ => .v4 a
  | .v6 a _ => .v6 a

/-- `IpNet::contains` of an address: never of the other family. -/
def IpNet.contains : IpNet → IpAddr → Bool
  | .v4 a n, .v4 b => decide (networkBits a n.val ≤ b) && decide (b ≤ broadcastBits a n.val)
  | .v6 a n, .v6 b => decide (networkBits a n.val ≤ b) && decide (b ≤ broadcastBits a n.val)
  | _, _ => false

end Rove
