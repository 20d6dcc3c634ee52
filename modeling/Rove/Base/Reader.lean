/-
Reading a byte string from the front, with every read checked against what
is left. A reader answers what it read and the bytes after it; the lemmas say
that it reads back what was written, whatever follows.
-/
import Rove.Base.Endian
import Rove.Base.Result
import Rove.Base.Utf8

namespace Rove

open List Res

variable {ε α : Type}

abbrev Reader (ε α : Type) := Bytes → Except ε (α × Bytes)

/-- The next `n` bytes, or the error `short` when there are fewer. -/
def readBytes (short : ε) (n : Nat) : Reader ε Bytes := fun bs =>
  if n ≤ bs.length then .ok (bs.take n, bs.drop n) else .error short

/-- A little-endian number of `k` bytes. -/
def readLe (short : ε) (k : Nat) : Reader ε Nat := fun bs => do
  let (field, rest) ← readBytes short k bs
  pure (ofLeBytes field, rest)

/-- `n` records, one after the other. -/
def readMany (read : Reader ε α) : Nat → Reader ε (List α)
  | 0 => fun bs => pure ([], bs)
  | n + 1 => fun bs => do
    let (a, bs) ← read bs
    let (as, bs) ← readMany read n bs
    pure (a :: as, bs)

theorem readBytes_append (short : ε) (bs rest : Bytes) :
    readBytes short bs.length (bs ++ rest) = .ok (bs, rest) := by
  rw [readBytes, if_pos (by simp), take_left, drop_left]

theorem readLe_append (short : ε) {k n} (h : n < 256 ^ k) (rest : Bytes) :
    readLe short k (leBytes k n ++ rest) = .ok (n, rest) := by
  have hread := readBytes_append short (leBytes k n) rest
  rw [length_leBytes] at hread
  rw [readLe, hread]
  show Except.ok (ofLeBytes (leBytes k n), rest) = _
  rw [ofLeBytes_leBytes, Nat.mod_eq_of_lt h]

/-- Records that are read back one by one are read back as a list. -/
theorem readMany_append {read : Reader ε α} {write : α → Bytes} {as : List α}
    (h : ∀ a ∈ as, ∀ rest, read (write a ++ rest) = .ok (a, rest)) (rest : Bytes) :
    readMany read as.length (as.flatMap write ++ rest) = .ok (as, rest) := by
  induction as with
  | nil => rfl
  | cons a as ih =>
    obtain ⟨ha, has⟩ := forall_mem_cons.1 h
    rw [flatMap_cons, append_assoc, length_cons, readMany]
    dsimp only
    rw [ha, ok_bind]
    rw [ih has, ok_bind]
    rfl

/-! What was read is what stood in front. -/

theorem readBytes_sound {short : ε} {n bs field rest} (h : readBytes short n bs = .ok (field, rest)) :
    bs = field ++ rest ∧ field.length = n := by
  unfold readBytes at h
  split at h
  · next hle =>
    cases h
    exact ⟨(take_append_drop n bs).symm, length_take_of_le hle⟩
  · cases h

theorem readLe_sound {short : ε} {k bs n rest} (h : readLe short k bs = .ok (n, rest)) :
    bs = leBytes k n ++ rest ∧ n < 256 ^ k := by
  obtain ⟨⟨field, rest'⟩, hread, h⟩ := bind_eq_ok.1 h
  cases h
  obtain ⟨rfl, rfl⟩ := readBytes_sound hread
  exact ⟨by rw [leBytes_ofLeBytes], ofLeBytes_lt field⟩

theorem readLe_bind_eq_ok {short : ε} {k bs r} {f : Nat × Bytes → Except ε α}
    (h : (readLe short k bs >>= f) = .ok r) :
    ∃ n rest, bs = leBytes k n ++ rest ∧ n < 256 ^ k ∧ f (n, rest) = .ok r := by
  obtain ⟨⟨n, rest⟩, hread, h⟩ := bind_eq_ok.1 h
  obtain ⟨hbs, hn⟩ := readLe_sound hread
  exact ⟨n, rest, hbs, hn, h⟩

theorem readMany_sound {read : Reader ε α} {write : α → Bytes} {P : α → Prop}
    (hread : ∀ {bs a rest}, read bs = .ok (a, rest) → bs = write a ++ rest ∧ P a) {n bs as rest}
    (h : readMany read n bs = .ok (as, rest)) : bs = as.flatMap write ++ rest ∧ as.length = n ∧ ∀ a ∈ as, P a := by
  induction n generalizing bs as with
  | zero =>
    cases h
    exact ⟨rfl, rfl, by simp⟩
  | succ n ih =>
    obtain ⟨⟨a, bs'⟩, ha, h⟩ := bind_eq_ok.1 h
    obtain ⟨⟨as', bs''⟩, has, h⟩ := bind_eq_ok.1 h
    cases h
    obtain ⟨rfl, hp⟩ := hread ha
    obtain ⟨rfl, rfl, hall⟩ := ih has
    exact ⟨by rw [flatMap_cons, append_assoc], rfl, forall_mem_cons.2 ⟨hp, hall⟩⟩

end Rove
