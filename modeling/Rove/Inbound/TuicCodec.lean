/-
TUIC addresses and packets on the wire (`inbound/tuic/codec.rs`), and what the
return pump of an association makes of a packet from the hop
(`spawn_return_pump` of `inbound/tuic/mod.rs`).

An address is read in two places, off a stream and out of a datagram; the two
readers agree. It is written in one, which cuts a name after 255 bytes. A hop
can send names that are longer than that as text: each byte of a name that is
no UTF-8 becomes a character of three bytes on the way.
-/
import Rove.Base.Recv
import Rove.Inbound.UdpAssociation
import Rove.Reverse.Datagram
import Rove.Reverse.Udp

namespace Rove.Inbound

open List Res
open Reverse (ReturnPacket)
open Source (rest)

/-! ## Writing -/

def Address.fromHostPort (host : Str) (port : Nat) : Address :=
  match parseIpv4Addr host with
  | some ip => .v4 ip port
  | Option.none =>
    match parseIpv6Addr host with
    | some ip => .v6 ip port
    | Option.none => .domain host port

def Address.encode : Address → Bytes
  | .none => [0xff]
  | .domain host port =>
    let len := min (utf8Bytes host).length 255
    0x00 :: UInt8.ofNat len :: ((utf8Bytes host).take len ++ beBytes 2 port)
  | .v4 ip port => 0x01 :: (beBytes 4 ip.toNat ++ beBytes 2 port)
  | .v6 ip port => 0x02 :: (beBytes 16 ip.toNat ++ beBytes 2 port)

def encodePacketDatagram (assocId pktId : BitVec 16) (addr : Address) (payload : Bytes) : Bytes :=
  0x05 :: 0x02 :: (beBytes 2 assocId.toNat ++ beBytes 2 pktId.toNat ++ [1, 0] ++
    beBytes 2 (BitVec.ofNat 16 payload.length).toNat ++ addr.encode ++ payload)

/-! ## Reading off a stream -/

def readAddress {σ : Type} [Source σ] : Recv σ Address := do
  let t ← Recv.byte
  if t = 0xff then return .none
  else if t = 0x00 then
    let name ← Recv.counted
    let port ← Recv.u16
    return .domain (fromUtf8Lossy name) port
  else if t = 0x01 then
    let octets ← Recv.exact 4
    let port ← Recv.u16
    return .v4 (ipv4OfBytes octets) port
  else if t = 0x02 then
    let octets ← Recv.exact 16
    let port ← Recv.u16
    return .v6 (ipv6OfBytes octets) port
  else failure

theorem follows_readAddress {σ : Type} [Source σ] : Recv.Follows (readAddress : Recv σ Address) readAddress :=
  Recv.follows_byte.bind fun _ =>
    .ite (Recv.follows_pure _) <|
    .ite (Recv.follows_counted.bind fun _ => Recv.follows_u16.bind fun _ => Recv.follows_pure _) <|
    .ite ((Recv.follows_exact 4).bind fun _ => Recv.follows_u16.bind fun _ => Recv.follows_pure _) <|
    .ite ((Recv.follows_exact 16).bind fun _ => Recv.follows_u16.bind fun _ => Recv.follows_pure _)
    Recv.follows_failure

theorem exact_u16 {α : Type} (n : Nat) (f : Bytes → Nat → α) (bs : Bytes) :
    ((do let bytes ← Recv.exact n; let port ← Recv.u16; return f bytes port : Recv Bytes α) bs) =
      if n + 2 ≤ bs.length then some (f (bs.take n) (ofBeBytes ((bs.drop n).take 2)), bs.drop (n + 2)) else none := by
  rw [Recv.bind_apply, Recv.exact_bytes]
  by_cases hn : n ≤ bs.length
  · rw [if_pos hn, Option.bind_some, Recv.bind_apply, Recv.u16, Recv.bind_apply, Recv.exact_bytes, length_drop]
    by_cases hp : n + 2 ≤ bs.length
    · have hport : 2 ≤ bs.length - n := by omega
      simp only [if_pos hp, if_pos hport, Option.bind_some, Recv.pure_apply, drop_drop]
    · have hport : ¬ 2 ≤ bs.length - n := by omega
      simp only [if_neg hp, if_neg hport, Option.bind_none]
  · rw [if_neg hn, if_neg (by omega)]
    rfl

theorem toOption_ensure {α : Type} {c} [Decidable c] (e : String) (a : α) :
    (do ensure c e; pure a : Res α).toOption = if c then some a else none := by
  by_cases h : c <;> simp [ensure, h] <;> rfl

theorem readAddress_bytes (bs : Bytes) :
    readAddress bs = (parseAddress bs).toOption.map fun r => (r.1, bs.drop r.2) := by
  cases bs with
  | nil => rw [readAddress, Recv.bind_apply, Recv.byte_nil]; rfl
  | cons t bs =>
    rw [readAddress, Recv.bind_apply, Recv.byte_cons, Option.bind_some]
    simp only [parseAddress]
    split
    · rfl
    split
    · cases bs with
      | nil => rw [Recv.bind_apply, Recv.counted, Recv.bind_apply, Recv.byte_nil]; rfl
      | cons l bs =>
        have hread := exact_u16 l.toNat (fun name port => Address.domain (fromUtf8Lossy name) port) bs
        rw [Recv.bind_apply] at hread
        rw [Recv.bind_apply, Recv.counted_cons, hread, toOption_ensure]
        split <;> simp
    split
    · rw [exact_u16, toOption_ensure]
      split <;> simp
    split
    · rw [exact_u16, toOption_ensure]
      split <;> simp
    · rfl

theorem parseAddress_le {bs addr n} (h : parseAddress bs = .ok (addr, n)) :
    n ≤ bs.length := by
  unfold parseAddress at h
  split at h
  · cases h
  · next t bs =>
    split at h
    · cases h
      simp
    split at h
    · split at h
      · cases h
      · obtain ⟨hlen, hpair⟩ := ensure_bind_eq_ok.1 h
        cases hpair
        simp only [length_cons]
        omega
    split at h
    · obtain ⟨hlen, hpair⟩ := ensure_bind_eq_ok.1 h
      cases hpair
      simp only [length_cons]
      omega
    split at h
    · obtain ⟨hlen, hpair⟩ := ensure_bind_eq_ok.1 h
      cases hpair
      simp only [length_cons]
      omega
    · cases h

/-! ## Round trip -/

/-- The address that is read back where `addr` was written. -/
def Address.sent : Address → Address
  | .domain host port => .domain (fromUtf8Lossy ((utf8Bytes host).take 255)) port
  | addr => addr

def Address.PortFits : Address → Prop
  | .none => True
  | .domain _ port | .v4 _ port | .v6 _ port => port < 2 ^ 16

theorem exact_u16_append {α : Type} {n} (f : Bytes → Nat → α) {bytes port} (hn : bytes.length = n)
    (hport : port < 2 ^ 16) (tail : Bytes) :
    ((do let bytes ← Recv.exact n; let port ← Recv.u16; return f bytes port : Recv Bytes α)
      (bytes ++ beBytes 2 port ++ tail)) = some (f bytes port, tail) := by
  have hread := Recv.exact_append bytes (beBytes 2 port ++ tail)
  rw [hn] at hread
  rw [append_assoc, Recv.bind_apply, hread, Option.bind_some, Recv.bind_apply, Recv.u16_append hport]
  rfl

theorem readAddress_encode {addr : Address} (hport : addr.PortFits) (tail : Bytes) :
    readAddress (addr.encode ++ tail) = some (addr.sent, tail) := by
  cases addr with
  | none => rw [readAddress, Recv.bind_apply, Address.encode, singleton_append, Recv.byte_cons]; rfl
  | domain host port =>
    have hl : (UInt8.ofNat (min (utf8Bytes host).length 255)).toNat = min (utf8Bytes host).length 255 := by simp
    have hname : (utf8Bytes host).take (min (utf8Bytes host).length 255) = (utf8Bytes host).take 255 := by
      rcases Nat.le_total (utf8Bytes host).length 255 with h | h <;> simp [h]
    have hlen : ((utf8Bytes host).take 255).length = min (utf8Bytes host).length 255 := by
      rw [length_take, Nat.min_comm]
    have hread := exact_u16_append (fun name port => Address.domain (fromUtf8Lossy name) port) hlen hport tail
    rw [← hl, Recv.bind_apply, ← Recv.counted_cons] at hread
    rw [readAddress, Recv.bind_apply, Address.encode, hname, cons_append, Recv.byte_cons]
    exact hread
  | v4 ip port =>
    have hread := exact_u16_append (fun octets port => Address.v4 (ipv4OfBytes octets) port)
      (length_beBytes 4 ip.toNat) hport tail
    rw [ipv4OfBytes_beBytes] at hread
    rw [readAddress, Recv.bind_apply, Address.encode, cons_append, Recv.byte_cons]
    exact hread
  | v6 ip port =>
    have hread := exact_u16_append (fun octets port => Address.v6 (ipv6OfBytes octets) port)
      (length_beBytes 16 ip.toNat) hport tail
    rw [ipv6OfBytes_beBytes] at hread
    rw [readAddress, Recv.bind_apply, Address.encode, cons_append, Recv.byte_cons]
    exact hread

theorem parseAddress_encode {addr : Address} (hport : addr.PortFits) (tail : Bytes) :
    parseAddress (addr.encode ++ tail) = .ok (addr.sent, addr.encode.length) := by
  have hread := readAddress_encode hport tail
  rw [readAddress_bytes] at hread
  cases hparse : parseAddress (addr.encode ++ tail) with
  | error e => simp [hparse, Except.toOption] at hread
  | ok r =>
    rw [hparse] at hread
    obtain ⟨haddr, htail⟩ := Prod.mk.inj (Option.some.inj hread)
    -- the bytes that were read are the ones before the tail
    have hle : r.2 ≤ (addr.encode ++ tail).length := parseAddress_le hparse
    have hlen := congrArg List.length htail
    rw [length_drop, length_append] at hlen
    rw [length_append] at hle
    exact congrArg Except.ok (Prod.ext haddr (by simp only; omega))

theorem be16_append {bytes offset} (h : bytes.length = offset) (n : BitVec 16) (tail : Bytes) :
    be16 (bytes ++ (beBytes 2 n.toNat ++ tail)) offset = n := by
  rw [be16, drop_left' h, take_left' (length_beBytes 2 _), ofNat_ofBeBytes_beBytes 2 rfl]

theorem parsePacketHeader_encode (assocId pktId size : BitVec 16) {addr tail n}
    (h : parseAddress tail = .ok (addr, n)) :
    parsePacketHeader (beBytes 2 assocId.toNat ++ (beBytes 2 pktId.toNat ++
      (1 :: 0 :: (beBytes 2 size.toNat ++ tail)))) =
      .ok (⟨assocId, pktId, 1, 0, size, addr⟩, 8 + n) := by
  have hassoc := be16_append (@length_nil UInt8) assocId
    (beBytes 2 pktId.toNat ++ (1 :: 0 :: (beBytes 2 size.toNat ++ tail)))
  have hpkt := be16_append (length_beBytes 2 assocId.toNat) pktId (1 :: 0 :: (beBytes 2 size.toNat ++ tail))
  have hsize := @be16_append (beBytes 2 assocId.toNat ++ (beBytes 2 pktId.toNat ++ [1, 0])) 6 (by simp) size tail
  simp only [append_assoc, cons_append, nil_append] at hassoc hsize
  refine ensure_bind_eq_ok.2 ⟨by simp; omega, bind_eq_ok.2 ⟨(addr, n), h, pure_eq_ok.2 ?_⟩⟩
  simp only [hassoc, hpkt, hsize]
  rfl

/-- The parser reads back what was written, the name as far as it was written. -/
theorem parseDatagram_encode (assocId pktId : BitVec 16) {addr : Address} (hport : addr.PortFits) {payload : Bytes}
    (hlen : payload.length < 2 ^ 16) :
    parseDatagram (encodePacketDatagram assocId pktId addr payload) =
      .ok (.packet ⟨assocId, pktId, 1, 0, BitVec.ofNat 16 payload.length, addr.sent⟩ payload) := by
  have hsize : (BitVec.ofNat 16 payload.length).toNat = payload.length := by simpa using Nat.mod_eq_of_lt hlen
  have hheader := parsePacketHeader_encode assocId pktId (BitVec.ofNat 16 payload.length)
    (parseAddress_encode hport payload)
  have hbytes : encodePacketDatagram assocId pktId addr payload = 0x05 :: 0x02 :: (beBytes 2 assocId.toNat ++
      (beBytes 2 pktId.toNat ++ (1 :: 0 :: (beBytes 2 (BitVec.ofNat 16 payload.length).toNat ++
        (addr.encode ++ payload))))) := by
    simp [encodePacketDatagram]
  rw [hbytes]
  refine ensure_bind_eq_ok.2 ⟨by simp, ensure_bind_eq_ok.2 ⟨rfl, bind_eq_ok.2 ⟨_, hheader, ?_⟩⟩⟩
  dsimp only
  rw [hsize]
  refine ensure_bind_eq_ok.2 ⟨?_, pure_eq_ok.2 ?_⟩
  · simp
    omega
  · have hdrop := @drop_left' _ (0x05 :: 0x02 :: (beBytes 2 assocId.toNat ++ (beBytes 2 pktId.toNat ++
      (1 :: 0 :: (beBytes 2 (BitVec.ofNat 16 payload.length).toNat ++ addr.encode))))) payload
      (2 + (8 + addr.encode.length)) (by simp; omega)
    simp only [cons_append, append_assoc, hsize] at hdrop
    rw [hdrop, take_length]

/-! ## The return pump -/

/-- What `spawn_return_pump` encodes for a packet of the association. -/
def returnDatagram (assocId pktId : BitVec 16) (packet : ReturnPacket) : Bytes :=
  encodePacketDatagram assocId pktId (Address.fromHostPort packet.host packet.port.toNat) packet.payload

/-- A packet that the relay can return: the edge has read it off a datagram from
the hop. A QUIC datagram fits in a UDP packet, so that its length has 16 bits. -/
def FromHop (packet : ReturnPacket) : Prop :=
  ∃ bytes sessionId, bytes.length < 2 ^ 16 ∧
    Reverse.parseDatagram bytes = .ok ⟨sessionId, packet.host, packet.port, packet.payload⟩

/-- Cutting the name after 255 bytes does no harm: it is not longer, or it ends
with a U+FFFD that is cut into, which is read as U+FFFD again. -/
def CutHarmless (host : Str) : Prop :=
  (utf8Bytes host).length ≤ 255 ∨ ∃ t, host = t ++ [Char.ofNat 0xFFFD] ∧ (utf8Bytes t).length < 255

/-- The two readers of an address agree on what is left of a stream: on
success, on the address, and on the bytes that it takes. -/
def ReadersAgree {σ : Type} [Source σ] (s : σ) : Prop :=
  (readAddress s).map (fun r => (r.1, rest r.2)) =
      (parseAddress (rest s)).toOption.map (fun r => (r.1, (rest s).drop r.2)) ∧
    ∀ addr n, parseAddress (rest s) = .ok (addr, n) → n ≤ (rest s).length

theorem FromHop.length_lt {packet} (h : FromHop packet) : packet.payload.length < 2 ^ 16 := by
  obtain ⟨bytes, sessionId, hlen, hparse⟩ := h
  obtain ⟨atyp, field, _, rfl⟩ := Reverse.parseDatagram_eq_ok_iff.1 hparse
  simp only [length_append, length_cons] at hlen
  omega

theorem portFits_fromHostPort (host : Str) (port : BitVec 16) : (Address.fromHostPort host port.toNat).PortFits := by
  unfold Address.fromHostPort
  split
  · exact port.isLt
  · split <;> exact port.isLt

theorem sent_domain_iff (host : Str) (port : Nat) :
    (Address.domain host port).sent = .domain host port ↔ CutHarmless host := by
  have hname : (Address.domain host port).sent = .domain host port ↔
      fromUtf8Lossy ((utf8Bytes host).take 255) = host := by simp [Address.sent]
  rw [hname]
  by_cases hlen : (utf8Bytes host).length ≤ 255
  · rw [take_of_length_le hlen, fromUtf8Lossy_utf8Bytes]
    exact iff_of_true rfl (.inl hlen)
  · rw [fromUtf8Lossy_take_eq_iff (by omega)]
    exact (or_iff_right hlen).symm

theorem sent_fromHostPort_iff (host : Str) (port : Nat) :
    (Address.fromHostPort host port).sent = .fromHostPort host port ↔
      parseIpv4Addr host ≠ none ∨ parseIpv6Addr host ≠ none ∨ CutHarmless host := by
  unfold Address.fromHostPort
  cases hv4 : parseIpv4Addr host with
  | some ip => simp [Address.sent]
  | none =>
    cases hv6 : parseIpv6Addr host with
    | some ip => simp [Address.sent]
    | none => simpa using sent_domain_iff host port

theorem readersAgree {σ : Type} [Source σ] (s : σ) : ReadersAgree s :=
  ⟨by rw [follows_readAddress s, readAddress_bytes], fun _ _ => parseAddress_le⟩

/-- The client reads back the packet that the pump was given, unless the host
is a name that the encoder cuts; and an address is read off a stream as out of
a buffer. -/
theorem returned_packet_read_back_iff (assocId pktId : BitVec 16) {packet : ReturnPacket} (h : FromHop packet) :
    (parseDatagram (returnDatagram assocId pktId packet) =
        .ok (.packet ⟨assocId, pktId, 1, 0, BitVec.ofNat 16 packet.payload.length,
          .fromHostPort packet.host packet.port.toNat⟩ packet.payload) ↔
      parseIpv4Addr packet.host ≠ none ∨ parseIpv6Addr packet.host ≠ none ∨ CutHarmless packet.host) ∧
    ∀ {σ : Type} [Source σ] (s : σ), ReadersAgree s := by
  refine ⟨?_, readersAgree⟩
  rw [returnDatagram, parseDatagram_encode assocId pktId (portFits_fromHostPort _ _) h.length_lt,
    ← sent_fromHostPort_iff packet.host packet.port.toNat]
  simp

/-- A packet whose source is `10.0.0.1:53`. -/
def ipv4Packet : ReturnPacket := ⟨"10.0.0.1", 53, [0x61]⟩

theorem ipv4_packet_read_back :
    FromHop ipv4Packet ∧ parseDatagram (returnDatagram 9 0 ipv4Packet) =
      .ok (.packet ⟨9, 0, 1, 0, 1, .v4 (Ipv4Addr.new 10 0 0 1) 53⟩ [0x61]) := by
  have hhop : FromHop ipv4Packet := ⟨[0, 0, 0, 1, 0x01, 10, 0, 0, 1, 0, 53, 0x61], 1, by decide, rfl⟩
  refine ⟨hhop, ?_⟩
  exact (returned_packet_read_back_iff 9 0 hhop).1.2 (.inl (by decide +kernel))

/-- A packet whose source is a name of 86 bytes `0xFF`. -/
def brokenPacket : ReturnPacket := ⟨replicate 86 (Char.ofNat 0xFFFD), 53, []⟩

/-- The name has 258 bytes as text; the client is told one of 85 characters. -/
theorem broken_packet_cut :
    FromHop brokenPacket ∧ parseDatagram (returnDatagram 9 0 brokenPacket) =
      .ok (.packet ⟨9, 0, 1, 0, 0, .domain (replicate 85 (Char.ofNat 0xFFFD)) 53⟩ []) := by
  have hname : fromUtf8Lossy (replicate 86 0xFF) = replicate 86 (Char.ofNat 0xFFFD) := by decide +kernel
  have hcut : fromUtf8Lossy ((utf8Bytes brokenPacket.host).take 255) = replicate 85 (Char.ofNat 0xFFFD) := by
    decide +kernel
  have hfield := Reverse.HostField.domain (replicate 86 0xFF) (by decide) (by decide)
  rw [hname] at hfield
  have hhop : FromHop brokenPacket :=
    ⟨_, 1, by decide, Reverse.parseDatagram_eq_ok_iff.2 ⟨_, _, hfield, rfl⟩⟩
  refine ⟨hhop, ?_⟩
  have haddr : Address.fromHostPort brokenPacket.host brokenPacket.port.toNat = .domain brokenPacket.host 53 := by
    decide +kernel
  rw [returnDatagram, parseDatagram_encode 9 0 (portFits_fromHostPort _ _) hhop.length_lt, haddr, Address.sent, hcut]
  rfl

end Rove.Inbound
