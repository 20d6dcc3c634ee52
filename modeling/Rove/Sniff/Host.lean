/-
The names that `sniff.rs` takes for a DNS name: `normalize_dns_name`, and the
host of an HTTP request as `httparse` reads it. Parsing of an absolute URI is a
parameter, with the parts of it that are read.
-/
import Rove.Base.Utf8
import Rove.Sniff.DnsName

namespace Rove.Sniff

def isAsciiAlphanumeric (c : Char) : Bool :=
  (48 ≤ c.toNat && c.toNat ≤ 57) || (65 ≤ c.toNat && c.toNat ≤ 90) || (97 ≤ c.toNat && c.toNat ≤ 122)

/-- A label `normalize_dns_name` lets pass. -/
def isDnsLabel (label : Str) : Bool :=
  label ≠ [] && label.length ≤ 63 && label.all (fun c => isAsciiAlphanumeric c || c == '-') &&
    label.head?.any isAsciiAlphanumeric && label.getLast?.any isAsciiAlphanumeric

def normalizeDnsName (host : Str) : Option Str :=
  let host := Str.trimEndMatches '.' (Str.trim host)
  if host = [] ∨ (utf8Bytes host).length > 253 ∨ !host.all (fun c => c.toNat < 128) ∨ (parseIpAddr host).isSome ∨
      isLegacyIpv4Address host then none
  else if (host.splitOn '.').all isDnsLabel then some (Str.toAsciiLowercase host)
  else none

def isAsciiWhitespace (c : Char) : Bool := c == ' ' || c == '\t' || c == '\n' || c.toNat == 0x0c || c == '\r'

def normalizeHttpAuthority (authority : Str) : Option Str :=
  let authority := Str.trim authority
  if authority = [] ∨ authority.head? = some '[' ∨ authority.any (fun c => c == '@' || c == '/' || c == '\\') ∨
      authority.any isAsciiWhitespace then none
  else if authority.count ':' = 0 then normalizeDnsName authority
  else if authority.count ':' = 1 then do
    let (host, port) ← Str.rsplitOnce ':' authority
    let port ← parseUnsigned 16 10 port
    if port = 0 then none else normalizeDnsName host
  else none

def normalizeConnectAuthority (authority : Str) : Option Str :=
  if authority.count ':' = 1 then normalizeHttpAuthority authority else none

/-- `url::Host`. -/
inductive UrlHost where
  | domain (host : Str)
  | ip (addr : IpAddr)

/-- What is read off a parsed `Url`. -/
structure Url where
  scheme : Str
  username : Str
  password : Option Str
  fragment : Option Str
  host : Option UrlHost

section

variable (parseUrl : Str → Option Url)

def normalizeAbsoluteHttpTarget (target : Str) : Option Str := do
  let url ← parseUrl target
  if (url.scheme ≠ "http" ∧ url.scheme ≠ "https") ∨ url.username ≠ [] ∨ url.password.isSome ∨ url.fragment.isSome
  then none
  else
    match url.host with
    | some (.domain host) => normalizeDnsName host
    | _ => none

/-- `httparse::Request`, when the head is complete. -/
structure HttpRequest where
  method : Option Str
  path : Option Str
  headers : List (Str × Bytes)

/-- The loop of `unique_http_host`; `none` is the error. -/
def uniqueHttpHost : Option Str → List (Str × Bytes) → Option (Option Str)
  | host, [] => some host
  | host, (name, value) :: headers =>
    if !Str.eqIgnoreAsciiCase name "host" then uniqueHttpHost host headers
    else if host.isSome then none
    else do
      let value ← fromUtf8 value
      let host ← normalizeHttpAuthority value
      uniqueHttpHost (some host) headers

/-- `http_request_host`; `none` is the error. -/
def httpRequestHost (request : HttpRequest) : Option (Option Str) := do
  let headerHost ← uniqueHttpHost none request.headers
  let method ← request.method
  let target ← request.path
  if Str.eqIgnoreAsciiCase method "CONNECT" then (normalizeConnectAuthority target).map some
  else if "http://" <+: target ∨ "https://" <+: target then (normalizeAbsoluteHttpTarget parseUrl target).map some
  else if target = ['*'] ∨ target.head? = some '/' then some headerHost
  else none

end

end Rove.Sniff
