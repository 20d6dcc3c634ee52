/-
Readers of a stream: each read asks for a number of bytes and fails where the stream
ends before them. A reader that is made of such reads cannot tell how its stream
comes in; what it does on any source is what it does on the bytes that are left
there (`Follows`).
-/
import Rove.Base.Endian
import Rove.Base.Source

namespace Rove

open List

/-- A stream that is in memory as a whole. -/
instance : Source Bytes where
  read n bs := (bs.take n, bs.drop n)
  rest := id
  read_append_rest n bs := take_append_drop n bs
  length_read_le n bs := length_take_le n bs
  rest_of_read_eq_nil n bs hn h := by
    cases bs with
    | nil => rfl
    | cons b bs =>
      obtain ⟨m, rfl⟩ := Nat.exists_eq_succ_of_ne_zero hn.ne'
      cases h

/-- A reader: what it read, and the stream after it. -/
abbrev Recv (σ : Type) := StateT σ Option

namespace Recv

open Source (rest)

variable {σ α β : Type}

theorem bind_apply (x : Recv σ α) (f : α → Recv σ β) (s : σ) : (x >>= f) s = (x s).bind fun r => f r.1 r.2 := rfl

theorem pure_apply (a : α) (s : σ) : (pure a : Recv σ α) s = some (a, s) := rfl

variable [Source σ]

/-- `read_exact`. -/
def exact (n : Nat) : Recv σ Bytes := fun s =>
  match Source.readExact n s with
  | (some bytes, s) => some (bytes, s)
  | (none, _) => none

def byte : Recv σ UInt8 := do
  let bytes ← exact 1
  return bytes.getD 0 0

/-- `u16::from_be_bytes` of the next two bytes. -/
def u16 : Recv σ Nat := do
  let bytes ← exact 2
  return ofBeBytes bytes

/-- A number of bytes, after one byte that says how many. -/
def counted : Recv σ Bytes := do
  let len ← byte
  exact len.toNat

/-! ## On bytes -/

theorem exact_bytes (n : Nat) (bs : Bytes) :
    exact n bs = if n ≤ bs.length then some (bs.take n, bs.drop n) else none := by
  obtain ⟨htake, hdrop⟩ := Source.readUpTo_spec n bs
  have hrest : (Source.readUpTo n bs).2 = bs.drop n := hdrop
  have htaken : (Source.readUpTo n bs).1 = bs.take n := htake
  simp only [exact, Source.readExact, htaken, hrest, length_take]
  by_cases hle : n ≤ bs.length
  · simp [hle]
  · have hne : ¬ min n bs.length = n := by omega
    simp [hle, hne]

theorem exact_append (bs rest : Bytes) : exact bs.length (bs ++ rest) = some (bs, rest) := by
  rw [exact_bytes, if_pos (by simp), take_left, drop_left]

theorem byte_cons (b : UInt8) (rest : Bytes) : byte (b :: rest) = some (b, rest) := by
  have hread := exact_append [b] rest
  simp only [length_singleton, singleton_append] at hread
  rw [byte, bind_apply, hread]
  rfl

theorem byte_nil : byte ([] : Bytes) = none := by
  have hread : exact 1 ([] : Bytes) = none := by rw [exact_bytes, if_neg (by simp)]
  rw [byte, bind_apply, hread]
  rfl

theorem u16_append {n} (h : n < 2 ^ 16) (rest : Bytes) : u16 (beBytes 2 n ++ rest) = some (n, rest) := by
  have hread := exact_append (beBytes 2 n) rest
  rw [length_beBytes] at hread
  rw [u16, bind_apply, hread, Option.bind_some, pure_apply, ofBeBytes_beBytes_of_lt (show n < 256 ^ 2 from h)]

theorem counted_cons (b : UInt8) (rest : Bytes) : counted (b :: rest) = exact b.toNat rest := by
  rw [counted, bind_apply, byte_cons, Option.bind_some]

/-! ## On any source -/

/-- A reader does on a source what another does on the bytes that are left there. -/
def Follows (x : Recv σ α) (y : Recv Bytes α) : Prop := ∀ s, (x s).map (fun r => (r.1, rest r.2)) = y (rest s)

theorem follows_pure (a : α) : Follows (pure a : Recv σ α) (pure a) := fun _ => rfl

theorem follows_failure : Follows (failure : Recv σ α) failure := fun _ => rfl

theorem Follows.bind {x : Recv σ α} {y : Recv Bytes α} {f : α → Recv σ β} {g : α → Recv Bytes β} (h : Follows x y)
    (hf : ∀ a, Follows (f a) (g a)) : Follows (x >>= f) (y >>= g) := by
  intro s
  have hs := h s
  cases hx : x s with
  | none =>
    rw [hx, Option.map_none] at hs
    rw [bind_apply, bind_apply, hx, ← hs]
    rfl
  | some r =>
    obtain ⟨a, s'⟩ := r
    rw [hx, Option.map_some] at hs
    rw [bind_apply, bind_apply, hx, ← hs]
    exact hf a s'

theorem Follows.ite {c : Prop} [Decidable c] {x x' : Recv σ α} {y y' : Recv Bytes α}
    (h : Follows x y) (h' : Follows x' y') :
    Follows (if c then x else x') (if c then y else y') := by
  split
  · exact h
  · exact h'

theorem follows_exact (n : Nat) : Follows (exact n : Recv σ Bytes) (exact n) := by
  intro s
  obtain ⟨htake, hdrop⟩ := Source.readUpTo_spec n s
  rw [exact_bytes]
  simp only [exact, Source.readExact, htake, length_take]
  by_cases hle : n ≤ (rest s).length
  · simp [hle, hdrop]
  · have hne : ¬ min n (rest s).length = n := by omega
    simp [hle, hne]

theorem follows_byte : Follows (byte : Recv σ UInt8) byte := (follows_exact 1).bind fun _ => follows_pure _

theorem follows_u16 : Follows (u16 : Recv σ Nat) u16 := (follows_exact 2).bind fun _ => follows_pure _

theorem follows_counted : Follows (counted : Recv σ Bytes) counted :=
  follows_byte.bind fun len => follows_exact len.toNat

theorem Follows.eq_some {x : Recv σ α} {y : Recv Bytes α} (h : Follows x y) {s : σ} {bs left : Bytes} {a : α}
    (hrest : rest s = bs) (hy : y bs = some (a, left)) : ∃ s', x s = some (a, s') ∧ rest s' = left := by
  have hs := h s
  rw [hrest, hy] at hs
  obtain ⟨⟨a', s'⟩, hx, heq⟩ := Option.map_eq_some_iff.1 hs
  cases heq
  exact ⟨s', hx, rfl⟩

end Recv

end Rove
