/-
A UDP packet between an edge and a hop, as one QUIC datagram
(`encode_datagram` and `parse_datagram` of `reverse/frame.rs`).

The host goes out in one of three forms, which the text of it decides, and
each form has its own length on the wire. `HostField` says what the forms are;
what the parser accepts is exactly the layout made of them.
-/
import Rove.Inbound.Target

namespace Rove.Reverse

open List Res
open Inbound (ipv4OfBytes ipv6OfBytes)

def atypV4 : UInt8 := 0x01

def atypDomain : UInt8 := 0x03

def atypV6 : UInt8 := 0x04

structure Datagram where
  sessionId : BitVec 32
  host : Str
  port : BitVec 16
  payload : Bytes

/-- The host of a datagram as `encode_datagram` writes it, tag first. -/
def encodeHost (host : Str) : Option Bytes :=
  match parseIpAddr host with
  | some (.v4 ip) => some (atypV4 :: beBytes 4 ip.toNat)
  | some (.v6 ip) => some (atypV6 :: beBytes 16 ip.toNat)
  | none =>
    if 255 < (utf8Bytes host).length then none
    else some (atypDomain :: UInt8.ofNat (utf8Bytes host).length :: utf8Bytes host)

def encodeDatagram (sessionId : BitVec 32) (host : Str) (port : BitVec 16) (payload : Bytes) : Option Bytes :=
  (encodeHost host).map fun field => beBytes 4 sessionId.toNat ++ field ++ beBytes 2 port.toNat ++ payload

/-- The host of a datagram with tag `atyp`, and the bytes after it. -/
def parseHost (atyp : UInt8) (rest : Bytes) : Res (Str × Bytes) :=
  if atyp = atypV4 then do
    ensure (4 ≤ rest.length) "reverse frame: datagram truncated ipv4"
    pure ((ipv4OfBytes (rest.take 4)).toText, rest.drop 4)
  else if atyp = atypV6 then do
    ensure (16 ≤ rest.length) "reverse frame: datagram truncated ipv6"
    pure ((ipv6OfBytes (rest.take 16)).toText, rest.drop 16)
  else if atyp = atypDomain then
    match rest with
    | [] => throw "reverse frame: datagram missing domain len"
    | len :: rest => do
      ensure (len.toNat ≠ 0) "reverse frame: datagram empty domain"
      ensure (len.toNat ≤ rest.length) "reverse frame: datagram truncated domain"
      pure (fromUtf8Lossy (rest.take len.toNat), rest.drop len.toNat)
  else throw "reverse frame: datagram bad atyp"

def parseDatagram : Bytes → Res Datagram
  | s₀ :: s₁ :: s₂ :: s₃ :: atyp :: rest => do
    let (host, rest) ← parseHost atyp rest
    match rest with
    | p₀ :: p₁ :: payload =>
      pure ⟨BitVec.ofNat 32 (ofBeBytes [s₀, s₁, s₂, s₃]), host, BitVec.ofNat 16 (ofBeBytes [p₀, p₁]), payload⟩
    | _ => throw "reverse frame: datagram truncated port"
  | _ => throw "reverse frame: datagram too short for header"

/-! ## The layout -/

/-- The bytes after the tag `atyp` that stand for a host. -/
inductive HostField : UInt8 → Bytes → Str → Prop
  | v4 (ip : Ipv4Addr) : HostField atypV4 (beBytes 4 ip.toNat) ip.toText
  | v6 (ip : Ipv6Addr) : HostField atypV6 (beBytes 16 ip.toNat) ip.toText
  | domain (name : Bytes) : name ≠ [] → name.length < 256 →
      HostField atypDomain (UInt8.ofNat name.length :: name) (fromUtf8Lossy name)

/-- The bytes of a datagram: session id, tagged host, port, and the payload to the end. -/
def Layout (buf : Bytes) (d : Datagram) : Prop :=
  ∃ atyp field, HostField atyp field d.host ∧
    buf = beBytes 4 d.sessionId.toNat ++ atyp :: (field ++ beBytes 2 d.port.toNat ++ d.payload)

theorem parseHost_of_field {atyp field host} (h : HostField atyp field host) (tail : Bytes) :
    parseHost atyp (field ++ tail) = .ok (host, tail) := by
  cases h with
  | v4 ip =>
    refine ensure_bind_eq_ok.2 ⟨by simp, pure_eq_ok.2 ?_⟩
    rw [take_left' (by simp), drop_left' (by simp), Inbound.ipv4OfBytes_beBytes]
  | v6 ip =>
    refine ensure_bind_eq_ok.2 ⟨by simp, pure_eq_ok.2 ?_⟩
    rw [take_left' (by simp), drop_left' (by simp), Inbound.ipv6OfBytes_beBytes]
  | domain name hne hlen =>
    have hl : (UInt8.ofNat name.length).toNat = name.length := UInt8.toNat_ofNat_of_lt' hlen
    refine ensure_bind_eq_ok.2 ⟨by simpa [hl] using hne, ensure_bind_eq_ok.2 ⟨by simp [hl], pure_eq_ok.2 ?_⟩⟩
    rw [append_eq, hl, take_left, drop_left]

theorem field_of_parseHost {atyp rest tail host}
    (h : parseHost atyp rest = .ok (host, tail)) : ∃ field, HostField atyp field host ∧ rest = field ++ tail := by
  unfold parseHost at h
  split at h
  · next htag =>
    obtain ⟨hlen, hpair⟩ := ensure_bind_eq_ok.1 h
    cases hpair
    refine ⟨rest.take 4, ?_, (take_append_drop 4 rest).symm⟩
    have hfield := HostField.v4 (ipv4OfBytes (rest.take 4))
    rwa [Inbound.beBytes_ipv4OfBytes (length_take_of_le hlen), ← htag] at hfield
  · split at h
    · next htag =>
      obtain ⟨hlen, hpair⟩ := ensure_bind_eq_ok.1 h
      cases hpair
      refine ⟨rest.take 16, ?_, (take_append_drop 16 rest).symm⟩
      have hfield := HostField.v6 (ipv6OfBytes (rest.take 16))
      rwa [Inbound.beBytes_ipv6OfBytes (length_take_of_le hlen), ← htag] at hfield
    · split at h
      · next htag =>
        cases rest with
        | nil => cases h
        | cons len rest =>
          obtain ⟨hne, h⟩ := ensure_bind_eq_ok.1 h
          obtain ⟨hlen, hpair⟩ := ensure_bind_eq_ok.1 h
          cases hpair
          have htake : (rest.take len.toNat).length = len.toNat := length_take_of_le hlen
          refine ⟨len :: rest.take len.toNat, ?_, by simp⟩
          have hfield := HostField.domain (rest.take len.toNat)
            (ne_nil_of_length_pos (by omega)) (by have := len.toNat_lt; omega)
          rwa [htake, UInt8.ofNat_toNat, ← htag] at hfield
      · cases h

theorem parseDatagram_eq_ok_iff {buf d} : parseDatagram buf = .ok d ↔ Layout buf d := by
  refine ⟨fun h => ?_, fun h => ?_⟩
  · unfold parseDatagram at h
    split at h
    · next s₀ s₁ s₂ s₃ atyp rest =>
      obtain ⟨⟨host, tail⟩, hhost, hport⟩ := bind_eq_ok.1 h
      obtain ⟨field, hfield, rfl⟩ := field_of_parseHost hhost
      dsimp only at hport
      split at hport
      · next p₀ p₁ payload =>
        cases hport
        refine ⟨atyp, field, hfield, ?_⟩
        rw [beBytes_ofNat_ofBeBytes 4 rfl rfl, beBytes_ofNat_ofBeBytes 2 rfl rfl]
        simp
      · cases hport
    · cases h
  · obtain ⟨atyp, field, hfield, rfl⟩ := h
    obtain ⟨sessionId, host, port, payload⟩ := d
    have hhost := parseHost_of_field hfield (beBytes 2 port.toNat ++ payload)
    rw [← append_assoc] at hhost
    refine bind_eq_ok.2 ⟨_, hhost, pure_eq_ok.2 ?_⟩
    have hid := ofNat_ofBeBytes_beBytes 4 rfl sessionId
    have hport := ofNat_ofBeBytes_beBytes 2 rfl port
    exact Datagram.mk.injEq .. |>.mpr ⟨hid, rfl, hport, rfl⟩

/-! ## Round trip -/

/-- The host that a datagram is meant for: an IP literal in its canonical
spelling, any other text as it is. -/
def canonicalHost (host : Str) : Str :=
  match parseIpAddr host with
  | some ip => ip.toText
  | none => host

theorem encodeHost_field {host} (hne : host ≠ []) {bytes} (h : encodeHost host = some bytes) :
    ∃ atyp field, HostField atyp field (canonicalHost host) ∧ bytes = atyp :: field := by
  unfold encodeHost at h
  unfold canonicalHost
  cases hip : parseIpAddr host with
  | some ip =>
    rw [hip] at h
    cases ip with
    | v4 ip => exact ⟨_, _, .v4 ip, (Option.some.inj h).symm⟩
    | v6 ip => exact ⟨_, _, .v6 ip, (Option.some.inj h).symm⟩
  | none =>
    simp only [hip] at h
    split at h
    · cases h
    · next hlen =>
      have hname : utf8Bytes host ≠ [] := fun hnil => hne (utf8Bytes_injective hnil)
      have hfield := HostField.domain (utf8Bytes host) hname (by omega)
      rw [fromUtf8Lossy_utf8Bytes] at hfield
      exact ⟨_, _, hfield, (Option.some.inj h).symm⟩

/-- What the edge encodes the hop reads back, unless the host is empty: the
encoder writes a name of length zero, and the parser takes none. Whatever the
parser takes has all its fields inside the datagram. -/
theorem datagram_round_trip_iff (sessionId : BitVec 32) (host : Str) (port : BitVec 16) (payload : Bytes) :
    ((∀ buf, encodeDatagram sessionId host port payload = some buf →
        parseDatagram buf = .ok ⟨sessionId, canonicalHost host, port, payload⟩) ↔ host ≠ []) ∧
      ∀ buf d, parseDatagram buf = .ok d ↔ Layout buf d := by
  refine ⟨⟨fun h => ?_, fun hne buf hbuf => ?_⟩, fun buf d => parseDatagram_eq_ok_iff⟩
  · rintro rfl
    have hparse := h _ rfl
    cases hparse
  · obtain ⟨bytes, hbytes, rfl⟩ := Option.map_eq_some_iff.1 hbuf
    obtain ⟨atyp, field, hfield, rfl⟩ := encodeHost_field hne hbytes
    exact parseDatagram_eq_ok_iff.2 ⟨atyp, field, hfield, by simp⟩

/-- A packet for the empty host goes out as a name of no bytes, which the hop refuses. -/
theorem empty_host_refused :
    encodeDatagram 7 [] 53 [0x61] = some [0, 0, 0, 7, 0x03, 0, 0, 53, 0x61] ∧
      parseDatagram [0, 0, 0, 7, 0x03, 0, 0, 53, 0x61] = .error "reverse frame: datagram empty domain" :=
  ⟨by decide, rfl⟩

end Rove.Reverse
