/-
Fixed-width integers as bytes: `to_le_bytes`, `from_le_bytes` and the
big-endian pair, for any number of bytes.
-/
import Mathlib.Algebra.Ring.Nat
import Mathlib.Data.List.Basic

namespace Rove

/-- `to_le_bytes` of the low `k` bytes of a number. -/
def leBytes : Nat → Nat → List UInt8
  | 0, _ => []
  | k + 1, n => UInt8.ofNat (n % 256) :: leBytes k (n / 256)

/-- `from_le_bytes`. -/
def ofLeBytes : List UInt8 → Nat
  | [] => 0
  | b :: bs => b.toNat + 256 * ofLeBytes bs

/-- `to_be_bytes` of the low `k` bytes of a number. -/
def beBytes (k n : Nat) : List UInt8 := (leBytes k n).reverse

/-- `from_be_bytes`. -/
def ofBeBytes (bs : List UInt8) : Nat := ofLeBytes bs.reverse

@[simp] theorem length_leBytes (k n : Nat) : (leBytes k n).length = k := by
  induction k generalizing n with
  | zero => rfl
  | succ k ih => simp [leBytes, ih]

theorem ofLeBytes_leBytes (k n : Nat) : ofLeBytes (leBytes k n) = n % 256 ^ k := by
  induction k generalizing n with
  | zero => simp [leBytes, ofLeBytes, Nat.mod_one]
  | succ k ih =>
    have hb : (UInt8.ofNat (n % 256)).toNat = n % 256 := by simp
    rw [leBytes, ofLeBytes, ih, hb, Nat.pow_succ', Nat.mod_mul]

@[simp] theorem length_beBytes (k n : Nat) : (beBytes k n).length = k := by simp [beBytes]

theorem ofBeBytes_beBytes (k n : Nat) : ofBeBytes (beBytes k n) = n % 256 ^ k := by
  rw [ofBeBytes, beBytes, List.reverse_reverse, ofLeBytes_leBytes]

theorem ofBeBytes_beBytes_of_lt {k n} (h : n < 256 ^ k) : ofBeBytes (beBytes k n) = n := by
  rw [ofBeBytes_beBytes, Nat.mod_eq_of_lt h]

theorem ofLeBytes_lt (bs : List UInt8) : ofLeBytes bs < 256 ^ bs.length := by
  induction bs with
  | nil => simp [ofLeBytes]
  | cons b bs ih =>
    have hb := b.toNat_lt
    simp only [ofLeBytes, List.length_cons, Nat.pow_succ']
    omega

theorem leBytes_ofLeBytes (bs : List UInt8) : leBytes bs.length (ofLeBytes bs) = bs := by
  induction bs with
  | nil => rfl
  | cons b bs ih =>
    have hb := b.toNat_lt
    have hmod : (b.toNat + 256 * ofLeBytes bs) % 256 = b.toNat := by omega
    have hdiv : (b.toNat + 256 * ofLeBytes bs) / 256 = ofLeBytes bs := by omega
    rw [List.length_cons, leBytes, ofLeBytes, hmod, hdiv, ih, UInt8.ofNat_toNat]

theorem ofBeBytes_lt (bs : List UInt8) : ofBeBytes bs < 256 ^ bs.length := by
  simpa [ofBeBytes] using ofLeBytes_lt bs.reverse

theorem beBytes_ofBeBytes (bs : List UInt8) : beBytes bs.length (ofBeBytes bs) = bs := by
  have h := leBytes_ofLeBytes bs.reverse
  rw [List.length_reverse] at h
  rw [beBytes, ofBeBytes, h, List.reverse_reverse]

/-! A number of a fixed width and its bytes say the same. -/

section Width

variable {w : Nat} (k : Nat)

theorem ofNat_ofBeBytes_beBytes (hw : w = 8 * k) (a : BitVec w) :
    BitVec.ofNat w (ofBeBytes (beBytes k a.toNat)) = a := by
  have hpow : 2 ^ w = 256 ^ k := by rw [hw, Nat.pow_mul]
  have hlt : a.toNat < 256 ^ k := hpow ▸ a.isLt
  rw [ofBeBytes_beBytes_of_lt hlt, BitVec.ofNat_toNat, BitVec.setWidth_eq]

theorem beBytes_ofNat_ofBeBytes (hw : w = 8 * k) {bs} (hbs : bs.length = k) :
    beBytes k (BitVec.ofNat w (ofBeBytes bs)).toNat = bs := by
  have hlt : ofBeBytes bs < 2 ^ w := by
    rw [hw, Nat.pow_mul, ← hbs]
    exact ofBeBytes_lt bs
  rw [BitVec.toNat_ofNat, Nat.mod_eq_of_lt hlt, ← hbs, beBytes_ofBeBytes]

end Width

end Rove
