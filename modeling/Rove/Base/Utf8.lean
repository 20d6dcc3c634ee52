/-
UTF-8: the bytes of a string, strict decoding (`str::from_utf8`) and lossy
decoding (`String::from_utf8_lossy`).

One character is decoded by Lean's own `ByteArray.utf8DecodeChar?`. Lossy
decoding puts U+FFFD for each maximal part of an ill-formed sequence, as the
Rust standard library does.
-/
import Rove.Base.Str

namespace Rove

open List

abbrev Bytes := List UInt8

/-- `str::as_bytes`. -/
def utf8Bytes (s : Str) : Bytes := s.flatMap String.utf8EncodeChar

/-- The first character of well-formed bytes, and the bytes after it. -/
def decodeChar (bs : Bytes) : Option (Char × Bytes) :=
  (bs.toByteArray.utf8DecodeChar? 0).map fun c => (c, bs.drop c.utf8Size)

/-- The strict decoder, with `fuel` for the characters that are left. -/
def decodeAll : Nat → Bytes → Option Str
  | 0, bs => if bs = [] then some [] else none
  | fuel + 1, bs =>
    if bs = [] then some []
    else (decodeChar bs).bind fun (c, rest) => (decodeAll fuel rest).map (c :: ·)

def fromUtf8 (bs : Bytes) : Option Str := decodeAll bs.length bs

def isCont (b : UInt8) : Bool := b &&& 0xC0 == 0x80

/-- May `b1` follow `b0` at the start of a sequence of three or four bytes? -/
def secondOk (b0 b1 : UInt8) : Bool :=
  (b0 == 0xE0 && 0xA0 ≤ b1 && b1 ≤ 0xBF) || (0xE1 ≤ b0 && b0 ≤ 0xEC && isCont b1) ||
  (b0 == 0xED && 0x80 ≤ b1 && b1 ≤ 0x9F) || (0xEE ≤ b0 && b0 ≤ 0xEF && isCont b1) ||
  (b0 == 0xF0 && 0x90 ≤ b1 && b1 ≤ 0xBF) || (0xF1 ≤ b0 && b0 ≤ 0xF3 && isCont b1) ||
  (b0 == 0xF4 && 0x80 ≤ b1 && b1 ≤ 0x8F)

/-- How many bytes of an ill-formed sequence one U+FFFD stands for. -/
def invalidLen : Bytes → Nat
  | b0 :: b1 :: rest =>
    if secondOk b0 b1 then (if 0xF0 ≤ b0 && rest.head?.any isCont then 3 else 2) else 1
  | _ => 1

/-- The lossy decoder, with `fuel` for the bytes that are left. -/
def decodeLossy : Nat → Bytes → Str
  | 0, _ => []
  | fuel + 1, bs =>
    if bs = [] then []
    else
      match decodeChar bs with
      | some (c, rest) => c :: decodeLossy fuel rest
      | none => Char.ofNat 0xFFFD :: decodeLossy fuel (bs.drop (invalidLen bs))

def fromUtf8Lossy (bs : Bytes) : Str := decodeLossy bs.length bs

@[simp] theorem utf8Bytes_nil : utf8Bytes [] = [] := rfl

@[simp] theorem utf8Bytes_cons (c : Char) (s : Str) :
    utf8Bytes (c :: s) = String.utf8EncodeChar c ++ utf8Bytes s := rfl

@[simp] theorem utf8Bytes_append (s t : Str) : utf8Bytes (s ++ t) = utf8Bytes s ++ utf8Bytes t :=
  flatMap_append

theorem decodeChar_encode (c : Char) (rest : Bytes) :
    decodeChar (String.utf8EncodeChar c ++ rest) = some (c, rest) := by
  unfold decodeChar
  rw [toByteArray_append, ByteArray.utf8DecodeChar?_utf8EncodeChar_append, Option.map_some,
    ← String.length_utf8EncodeChar, drop_left]

theorem encode_append_ne_nil (c : Char) (rest : Bytes) : String.utf8EncodeChar c ++ rest ≠ [] :=
  fun h => String.utf8EncodeChar_ne_nil (append_eq_nil_iff.1 h).1

theorem length_le_of_encode (c : Char) (rest : Bytes) :
    rest.length < (String.utf8EncodeChar c ++ rest).length := by
  rw [length_append, String.length_utf8EncodeChar]
  have := c.utf8Size_pos
  omega

theorem fromUtf8_utf8Bytes (s : Str) : fromUtf8 (utf8Bytes s) = some s := by
  suffices h : ∀ (s : Str) fuel, (utf8Bytes s).length ≤ fuel → decodeAll fuel (utf8Bytes s) = some s from
    h s _ (Nat.le_refl _)
  intro s
  induction s with
  | nil => intro fuel _; cases fuel <;> rfl
  | cons c s ih =>
    intro fuel hf
    have hlt := length_le_of_encode c (utf8Bytes s)
    rw [utf8Bytes_cons] at hf ⊢
    cases fuel with
    | zero => omega
    | succ fuel =>
      rw [decodeAll, if_neg (encode_append_ne_nil c _), decodeChar_encode]
      simp [ih fuel (by omega)]

theorem utf8Bytes_injective : Function.Injective utf8Bytes := fun s t h =>
  Option.some.inj (by rw [← fromUtf8_utf8Bytes s, h, fromUtf8_utf8Bytes])

theorem encode_of_decodeChar {bs rest c} (h : decodeChar bs = some (c, rest)) :
    bs = String.utf8EncodeChar c ++ rest := by
  obtain ⟨d, hd, heq⟩ := Option.map_eq_some_iff.1 h
  obtain ⟨rfl, rfl⟩ := Prod.mk.inj heq
  obtain ⟨tail, htail⟩ := ByteArray.exists_of_utf8DecodeChar?_eq_some hd
  have hbs : bs = String.utf8EncodeChar d ++ tail.data.toList := by
    have := congrArg (fun b : ByteArray => b.data.toList) htail
    simpa using this
  nth_rewrite 2 [hbs]
  rw [← String.length_utf8EncodeChar, drop_left]
  exact hbs

theorem fromUtf8_eq_some_iff {bs s} : fromUtf8 bs = some s ↔ bs = utf8Bytes s := by
  refine ⟨fun h => ?_, fun h => h ▸ fromUtf8_utf8Bytes s⟩
  suffices hall : ∀ fuel bs s, decodeAll fuel bs = some s → bs = utf8Bytes s from hall _ _ _ h
  intro fuel
  induction fuel with
  | zero =>
    intro bs s h
    rw [decodeAll] at h
    split at h
    · next hnil =>
      cases h
      exact hnil
    · cases h
  | succ fuel ih =>
    intro bs s h
    rw [decodeAll] at h
    split at h
    · next hnil =>
      cases h
      exact hnil
    · obtain ⟨⟨c, rest⟩, hchar, hrest⟩ := Option.bind_eq_some_iff.1 h
      obtain ⟨t, ht, rfl⟩ := Option.map_eq_some_iff.1 hrest
      rw [encode_of_decodeChar hchar, ih rest t ht, utf8Bytes_cons]

theorem encode_ascii {c} (h : c.toNat < 128) : String.utf8EncodeChar c = [UInt8.ofNat c.toNat] := by
  have hv : c.val.toNat ≤ 0x7f := by have : c.toNat = c.val.toNat := rfl; omega
  simp only [String.utf8EncodeChar, hv, if_true]
  rfl

theorem length_utf8Bytes_ascii {s : Str} (h : ∀ c ∈ s, c.toNat < 128) : (utf8Bytes s).length = s.length := by
  induction s with
  | nil => rfl
  | cons c s ih =>
    obtain ⟨hc, hs⟩ := forall_mem_cons.1 h
    simp [encode_ascii hc, ih hs]

/-- An ASCII byte is only in the encoding of the character it is. -/
theorem toNat_eq_of_mem_encode {c b} (hb : b.toNat < 128) (h : b ∈ String.utf8EncodeChar c) :
    c.toNat = b.toNat := by
  have hc : c.val.toNat = c.toNat := rfl
  have hhigh : ∀ n : Nat, 128 ≤ n → n < 256 → b ≠ UInt8.ofNat n := by
    intro n h₁ h₂ hn
    rw [hn, UInt8.toNat_ofNat_of_lt' h₂] at hb
    omega
  have hcont : ∀ n, b ≠ UInt8.ofNat (n % 64 + 128) := fun n => hhigh _ (by omega) (by omega)
  unfold String.utf8EncodeChar at h
  simp only [hc] at h
  split at h
  · next hle =>
    have hlt : c.toNat < 256 := by omega
    rw [mem_singleton.1 h, UInt8.toNat_ofNat_of_lt' hlt]
  · -- every byte of a longer encoding has its high bit set
    exfalso
    split at h
    · simp only [mem_cons, not_mem_nil, or_false] at h
      rcases h with h | h
      · exact hhigh _ (by omega) (by omega) h
      · exact hcont _ h
    · split at h
      · simp only [mem_cons, not_mem_nil, or_false] at h
        rcases h with h | h | h
        · exact hhigh _ (by omega) (by omega) h
        · exact hcont _ h
        · exact hcont _ h
      · simp only [mem_cons, not_mem_nil, or_false] at h
        rcases h with h | h | h | h
        · exact hhigh _ (by omega) (by omega) h
        · exact hcont _ h
        · exact hcont _ h
        · exact hcont _ h

end Rove
