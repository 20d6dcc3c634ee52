/-
Comparing secrets (`constant_time_eq` of `util.rs`, and the same loop in
`proxy/mod.rs` and `engine.rs`): every byte of both sides is looked at, and
the answer is equality all the same.
-/
import Mathlib.Data.Nat.Bitwise
import Rove.Base.Utf8

namespace Rove.Util

/-- `constant_time_eq_bytes`. A byte past the end counts as zero; the lengths are compared too. -/
def constantTimeEqBytes (left right : Bytes) : Bool :=
  let len := max left.length right.length
  let diff := (List.range len).foldl (fun diff i => diff ||| (left[i]?.getD 0 ^^^ right[i]?.getD 0).toNat)
    (left.length ^^^ right.length)
  diff == 0

def constantTimeEq (left right : Str) : Bool := constantTimeEqBytes (utf8Bytes left) (utf8Bytes right)

theorem foldl_or_eq_zero {α : Type} (f : α → Nat) (l : List α) (d : Nat) :
    l.foldl (fun d a => d ||| f a) d = 0 ↔ d = 0 ∧ ∀ a ∈ l, f a = 0 := by
  induction l generalizing d with
  | nil => simp
  | cons a l ih =>
    rw [List.foldl_cons, ih, Nat.or_eq_zero_iff, List.forall_mem_cons, and_assoc]

theorem constantTimeEqBytes_iff {left right} : constantTimeEqBytes left right = true ↔ left = right := by
  rw [constantTimeEqBytes, beq_iff_eq, foldl_or_eq_zero, Nat.xor_eq_zero_iff]
  constructor
  · rintro ⟨hlen, hbytes⟩
    refine List.ext_getElem hlen fun i hi hi' => ?_
    have h := hbytes i (by simp only [List.mem_range]; omega)
    rw [List.getElem?_eq_getElem hi, List.getElem?_eq_getElem hi'] at h
    exact UInt8.xor_eq_zero_iff.1 (UInt8.toNat_inj.1 h)
  · rintro rfl
    exact ⟨rfl, fun i _ => by simp⟩

@[simp] theorem constantTimeEq_iff {left right} : constantTimeEq left right = true ↔ left = right := by
  rw [constantTimeEq, constantTimeEqBytes_iff]
  exact utf8Bytes_injective.eq_iff

end Rove.Util
