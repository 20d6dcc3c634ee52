/-
The Subnetra datagram and the keys it is sealed with (`subnetra/crypto.rs`,
`subnetra/wire.rs`): a header of 20 bytes, which obfuscation masks, and the
sealed body, which ends in its 16-byte tag.

The keyed hash and the AEAD are parameters. The header is no part of what the
AEAD authenticates: only the sequence number enters it, as the nonce, and the
epoch, through the key.
-/
import Rove.Base.Endian
import Rove.Base.Utf8

namespace Rove.Subnetra

open List

/-- Keyed BLAKE2b-256, and ChaCha20-Poly1305 with empty associated data: key,
nonce and text. -/
structure Primitives where
  blake2b : Bytes → Bytes → Bytes
  sealInPlace : Bytes → Bytes → Bytes → Bytes
  openInPlace : Bytes → Bytes → Bytes → Option Bytes

def tagLen : Nat := 16

def headerLen : Nat := 20

section Crypto

variable (prims : Primitives)

def linkKey (psk : Bytes) (fromId toId : BitVec 16) : Bytes :=
  prims.blake2b psk (utf8Bytes "subnetra-v1-link" ++ beBytes 4 fromId.toNat ++ beBytes 4 toId.toNat)

def sessionKey (linkKey : Bytes) (epoch : BitVec 64) : Bytes :=
  prims.blake2b linkKey (utf8Bytes "subnetra-v1-session" ++ beBytes 8 epoch.toNat)

def obfuscationPad (linkKey tag : Bytes) : Bytes :=
  (prims.blake2b linkKey (utf8Bytes "subnetra-v1-obfs" ++ tag)).take headerLen

def nonce (seq : BitVec 64) : Bytes := leBytes 8 seq.toNat ++ [0, 0, 0, 0]

/-- `AeadKey::seal`, for the session key it was made of. -/
def aeadSeal (key : Bytes) (seq : BitVec 64) (plaintext : Bytes) : Bytes := prims.sealInPlace key (nonce seq) plaintext

/-- `AeadKey::open`. -/
def aeadOpen (key : Bytes) (seq : BitVec 64) (body : Bytes) : Option Bytes :=
  if body.length < tagLen then none else prims.openInPlace key (nonce seq) body

end Crypto

theorem nonce_injective {seq seq'} (h : nonce seq = nonce seq') : seq = seq' := by
  have hbytes : leBytes 8 seq.toNat = leBytes 8 seq'.toNat := append_cancel_right h
  have hnat := congrArg ofLeBytes hbytes
  rw [ofLeBytes_leBytes, ofLeBytes_leBytes, Nat.mod_eq_of_lt (show seq.toNat < 256 ^ 8 from seq.isLt),
    Nat.mod_eq_of_lt (show seq'.toNat < 256 ^ 8 from seq'.isLt)] at hnat
  exact BitVec.eq_of_toNat_eq hnat

/-! ## The header -/

def keepalive : UInt8 := 0x01

def wireVersion : UInt8 := 1

structure Header where
  version : UInt8
  flags : UInt8
  keyId : BitVec 16
  epoch : BitVec 64
  seq : BitVec 64
  deriving DecidableEq

namespace Header

def parse (bytes : Bytes) : Option Header :=
  if bytes.length < headerLen then none
  else some
    { version := bytes.getD 0 0
      flags := bytes.getD 1 0
      keyId := BitVec.ofNat 16 (ofLeBytes ((bytes.drop 2).take 2))
      epoch := BitVec.ofNat 64 (ofLeBytes ((bytes.drop 4).take 8))
      seq := BitVec.ofNat 64 (ofLeBytes ((bytes.drop 12).take 8)) }

def toBytes (h : Header) : Bytes :=
  h.version :: h.flags :: (leBytes 2 h.keyId.toNat ++ leBytes 8 h.epoch.toNat ++ leBytes 8 h.seq.toNat)

def isValid (h : Header) : Bool := h.version == wireVersion && (h.flags &&& ~~~keepalive) == 0 && h.epoch != 0

def isKeepalive (h : Header) : Bool := (h.flags &&& keepalive) != 0

theorem length_toBytes (h : Header) : h.toBytes.length = headerLen := by simp [toBytes, headerLen]

theorem parse_toBytes (h : Header) : parse h.toBytes = some h := by
  have hlen : ¬ h.toBytes.length < headerLen := by rw [length_toBytes]; exact Nat.lt_irrefl _
  have hkey : (h.toBytes.drop 2).take 2 = leBytes 2 h.keyId.toNat := by
    rw [toBytes, drop_succ_cons, drop_succ_cons, drop_zero, append_assoc,
      take_left' (length_leBytes 2 _)]
  have hepoch : (h.toBytes.drop 4).take 8 = leBytes 8 h.epoch.toNat := by
    rw [toBytes, drop_succ_cons, drop_succ_cons, append_assoc, drop_left' (length_leBytes 2 _),
      take_left' (length_leBytes 8 _)]
  have hseq : (h.toBytes.drop 12).take 8 = leBytes 8 h.seq.toNat := by
    rw [toBytes, drop_succ_cons, drop_succ_cons,
      drop_left' (by rw [length_append, length_leBytes, length_leBytes]),
      take_of_length_le (by rw [length_leBytes])]
  have hback : ∀ {k w : Nat} (x : BitVec w), 2 ^ w = 256 ^ k → BitVec.ofNat w (ofLeBytes (leBytes k x.toNat)) = x := by
    intro k w x hw
    rw [ofLeBytes_leBytes, Nat.mod_eq_of_lt (hw ▸ x.isLt), BitVec.ofNat_toNat, BitVec.setWidth_eq]
  rw [parse, if_neg hlen, hkey, hepoch, hseq, hback h.keyId (by decide), hback h.epoch (by decide),
    hback h.seq (by decide)]
  rfl

end Header

/-! ## The datagram -/

def datagramTag (datagram : Bytes) : Option Bytes :=
  if datagram.length < headerLen + tagLen then none else some (datagram.drop (datagram.length - tagLen))

def demaskHeader (masked pad : Bytes) : Bytes :=
  (List.range headerLen).map fun i => masked.getD i 0 ^^^ pad.getD i 0

def sealDatagram (prims : Primitives) (linkKey aead : Bytes) (localId : BitVec 16) (epoch seq : BitVec 64)
    (flags : UInt8) (plaintext : Bytes) (obfuscate : Bool) : Bytes :=
  let header := Header.toBytes ⟨wireVersion, flags, localId, epoch, seq⟩
  let body := aeadSeal prims aead seq plaintext
  if obfuscate then
    demaskHeader header (obfuscationPad prims linkKey (body.drop (body.length - tagLen))) ++ body
  else header ++ body

end Rove.Subnetra
