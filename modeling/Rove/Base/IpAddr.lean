/-
IP addresses and their text: `IpAddr`, `FromStr` and `Display` of the Rust
standard library.

The parser is the standard library's: a reader over the remaining input that
gives the input back unread when it fails. An IPv4 octet has at most three
digits and no leading zero; an IPv6 group has at most four; an embedded IPv4
address may end an IPv6 one.
-/
import Rove.Base.IntText

namespace Rove

/-- `std::net::Ipv4Addr`, as its 32-bit number. -/
abbrev Ipv4Addr := BitVec 32

/-- `std::net::Ipv6Addr`, as its 128-bit number. -/
abbrev Ipv6Addr := BitVec 128

inductive IpAddr where
  | v4 (a : Ipv4Addr)
  | v6 (a : Ipv6Addr)
  deriving DecidableEq, Repr

/-- The address `a.b.c.d`. -/
def Ipv4Addr.new (a b c d : Nat) : Ipv4Addr := BitVec.ofNat 32 (a * 2 ^ 24 + b * 2 ^ 16 + c * 2 ^ 8 + d)

/-- The `i`-th octet, the most significant first. -/
def Ipv4Addr.octet (a : Ipv4Addr) (i : Nat) : Nat := a.toNat / 2 ^ (24 - 8 * i) % 256

/-- The address with these eight groups, the most significant first. -/
def Ipv6Addr.ofGroups (groups : List Nat) : Ipv6Addr :=
  BitVec.ofNat 128 (groups.foldl (fun acc g => acc * 65536 + g) 0)

/-- The `i`-th 16-bit group, the most significant first. -/
def Ipv6Addr.group (a : Ipv6Addr) (i : Nat) : Nat := a.toNat / 2 ^ (112 - 16 * i) % 65536

/-- `Ipv4Addr::to_ipv6_mapped`: `::ffff:a`. -/
def Ipv4Addr.toIpv6Mapped (a : Ipv4Addr) : Ipv6Addr := BitVec.ofNat 128 (0xffff * 2 ^ 32 + a.toNat)

def Ipv6Addr.toIpv4Mapped (a : Ipv6Addr) : Option Ipv4Addr :=
  if a.toNat / 2 ^ 32 = 0xffff then some (BitVec.ofNat 32 a.toNat) else none

namespace IpText

/-! ## Reading -/

def readGivenChar (c : Char) : Str → Option Str
  | x :: s => if x = c then some s else none
  | [] => none

/-- The separator before the `i`-th item: none before the first. -/
def readSep (sep : Char) (i : Nat) (s : Str) : Option Str :=
  if i = 0 then some s else readGivenChar sep s

/-- `read_number`: digits up to the first other character, at most
`maxDigits`, with a value below `bound`. -/
def readNumber (radix maxDigits : Nat) (allowZeroPrefix : Bool) (bound : Nat) (s : Str) :
    Option (Nat × Str) :=
  let digits := s.takeWhile (isDigitOf radix)
  if digits.length > maxDigits || digits.isEmpty then none
  else if !allowZeroPrefix && digits.head? == some '0' && digits.length > 1 then none
  else ((ofDigits radix 0 digits).filter (· < bound)).map fun n => (n, s.dropWhile (isDigitOf radix))

def readOctet (i : Nat) (s : Str) : Option (Nat × Str) :=
  (readSep '.' i s).bind (readNumber 10 3 false 256)

/-- `read_ipv4_addr`: the four octets. -/
def readIpv4 (s : Str) : Option (Ipv4Addr × Str) := do
  let (a, s) ← readOctet 0 s
  let (b, s) ← readOctet 1 s
  let (c, s) ← readOctet 2 s
  let (d, s) ← readOctet 3 s
  return (Ipv4Addr.new a b c d, s)

/-- `read_groups`, with `left` groups of the slice still to fill and `i` filled:
the groups read, whether they end in an embedded IPv4 address, the rest. -/
def readGroups (i : Nat) : Nat → Str → List Nat × Bool × Str
  | 0, s => ([], false, s)
  | left + 1, s =>
    -- an embedded IPv4 address takes two groups
    let ipv4 := if left = 0 then none else (readSep ':' i s).bind readIpv4
    match ipv4 with
    | some (a, rest) => ([a.toNat / 65536, a.toNat % 65536], true, rest)
    | none =>
      match (readSep ':' i s).bind (readNumber 16 4 true 65536) with
      | none => ([], false, s)
      | some (g, rest) =>
        let (gs, v4, rest) := readGroups (i + 1) left rest
        (g :: gs, v4, rest)

/-- `read_ipv6_addr`. -/
def readIpv6 (s : Str) : Option (Ipv6Addr × Str) :=
  let (head, headIpv4, s) := readGroups 0 8 s
  if head.length = 8 then some (Ipv6Addr.ofGroups head, s)
  else if headIpv4 then none
  else do
    let s ← readGivenChar ':' s
    let s ← readGivenChar ':' s
    -- the `::` stands for at least one group
    let (tail, _, s) := readGroups 0 (8 - (head.length + 1)) s
    return (Ipv6Addr.ofGroups (head ++ List.replicate (8 - head.length - tail.length) 0 ++ tail), s)

def readIpAddr (s : Str) : Option (IpAddr × Str) :=
  match readIpv4 s with
  | some (a, rest) => some (.v4 a, rest)
  | none => (readIpv6 s).map fun (a, rest) => (.v6 a, rest)

/-- `parse_with`: the whole input is read. -/
def parseWith {α : Type} (read : Str → Option (α × Str)) (s : Str) : Option α :=
  match read s with
  | some (a, []) => some a
  | _ => none

end IpText

/-- `str::parse::<IpAddr>`. -/
def parseIpAddr (s : Str) : Option IpAddr := IpText.parseWith IpText.readIpAddr s

/-- `str::parse::<Ipv4Addr>`; text longer than `255.255.255.255` is refused at once. -/
def parseIpv4Addr (s : Str) : Option Ipv4Addr :=
  if s.length > 15 then none else IpText.parseWith IpText.readIpv4 s

/-- `str::parse::<Ipv6Addr>`. -/
def parseIpv6Addr (s : Str) : Option Ipv6Addr := IpText.parseWith IpText.readIpv6 s

/-! ## Writing -/

/-- `Display` of an IPv4 address. -/
def Ipv4Addr.toText (a : Ipv4Addr) : Str :=
  showNat (a.octet 0) ++ '.' :: showNat (a.octet 1) ++ '.' :: showNat (a.octet 2) ++
    '.' :: showNat (a.octet 3)

/-- The longest run of zero groups, the first of the longest: `(start, length)`. -/
def longestZeros : (i : Nat) → (groups : List Nat) → (cur best : Nat × Nat) → Nat × Nat
  | _, [], _, best => best
  | i, g :: gs, cur, best =>
    if g = 0 then
      let cur := (if cur.2 = 0 then i else cur.1, cur.2 + 1)
      longestZeros (i + 1) gs cur (if cur.2 > best.2 then cur else best)
    else longestZeros (i + 1) gs (0, 0) best

/-- Groups in hexadecimal, with colons between them. -/
def groupsText (groups : List Nat) : Str := Str.join [':'] (groups.map (Nat.toDigits 16))

/-- `Display` of an IPv6 address. -/
def Ipv6Addr.toText (a : Ipv6Addr) : Str :=
  match a.toIpv4Mapped with
  | some v4 => "::ffff:" ++ v4.toText
  | none =>
    let groups := (List.range 8).map a.group
    let (start, len) := longestZeros 0 groups (0, 0) (0, 0)
    if len > 1 then
      groupsText (groups.take start) ++ "::" ++ groupsText (groups.drop (start + len))
    else groupsText groups

/-- `Display` of an IP address. -/
def IpAddr.toText : IpAddr → Str
  | .v4 a => a.toText
  | .v6 a => a.toText

end Rove
