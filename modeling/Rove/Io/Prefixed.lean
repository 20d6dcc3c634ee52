/-
`PrefixedIo` of `io.rs`: bytes that were already taken off a stream are read
again before the rest of it. As a source it delivers the bytes and then the
inner stream, so that one may be put around another.
-/
import Rove.Base.Source

namespace Rove.Io

open List

structure PrefixedIo (σ : Type) where
  prefixBytes : Bytes
  offset : Nat
  inner : σ

namespace PrefixedIo

variable {σ : Type}

def new (prefixBytes : Bytes) (inner : σ) : PrefixedIo σ := ⟨prefixBytes, 0, inner⟩

def available (p : PrefixedIo σ) : Bytes := p.prefixBytes.drop p.offset

/-- The prefix after `n` more bytes of it were read; one that is used up is given back. -/
def advance (p : PrefixedIo σ) (n : Nat) : PrefixedIo σ :=
  if p.offset + n = p.prefixBytes.length then { p with prefixBytes := [], offset := 0 }
  else { p with offset := p.offset + n }

theorem available_advance (p : PrefixedIo σ) (n : Nat) : (p.advance n).available = p.available.drop n := by
  rw [advance]
  split
  · next h =>
    rw [available, available, drop_drop, h]
    simp
  · rw [available, available, drop_drop]

variable [Source σ]

def pollRead (n : Nat) (p : PrefixedIo σ) : Bytes × PrefixedIo σ :=
  if p.offset < p.prefixBytes.length ∧ 0 < n then
    let take := min p.available.length n
    (p.available.take take, p.advance take)
  else
    let (bytes, inner) := Source.read n p.inner
    (bytes, { p with inner })

instance : Source (PrefixedIo σ) where
  read := pollRead
  rest p := p.available ++ Source.rest p.inner
  read_append_rest n p := by
    rw [pollRead]
    split
    · have hinner : (p.advance (min p.available.length n)).inner = p.inner := by
        rw [advance]
        split <;> rfl
      dsimp only
      rw [available_advance, hinner, ← append_assoc, take_append_drop]
    · next h =>
      have hread := Source.read_append_rest n p.inner
      have hlen := Source.length_read_le n p.inner
      show (Source.read n p.inner).1 ++ (p.available ++ Source.rest (Source.read n p.inner).2) = _
      -- nothing is left to replay, or the buffer has no room
      by_cases hnone : p.available = []
      · rw [hnone, nil_append, hread, nil_append]
      · have hpos := length_pos_of_ne_nil hnone
        rw [available, length_drop] at hpos
        have hempty : (Source.read n p.inner).1 = [] := eq_nil_of_length_eq_zero (by omega)
        rw [hempty, nil_append] at hread ⊢
        rw [hread]
  length_read_le n p := by
    rw [pollRead]
    split
    · exact (length_take_le _ _).trans (Nat.min_le_right _ _)
    · exact Source.length_read_le n p.inner
  rest_of_read_eq_nil n p hn h := by
    rw [pollRead] at h
    split at h
    · next hp =>
      have hlen : 0 < p.available.length := by
        rw [available, length_drop]
        omega
      have hnil := congrArg List.length h
      rw [length_take, length_nil] at hnil
      omega
    · next hp =>
      have hnone : p.available = [] := drop_eq_nil_of_le (by omega)
      rw [hnone, nil_append]
      exact Source.rest_of_read_eq_nil n p.inner hn h

end PrefixedIo

end Rove.Io
