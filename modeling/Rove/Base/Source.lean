/-
Byte streams that are read a buffer at a time. A read may return fewer bytes
than the buffer has room for; one of a buffer with room that returns nothing is
the end of the stream. What is left of a stream are the bytes it has still to
deliver, and a read takes them from the front.
-/
import Rove.Base.Utf8

namespace Rove

open List

/-- A stream that can be read, with what is left of it. -/
class Source (σ : Type) where
  /-- `read` into a buffer of the given size. -/
  read : Nat → σ → Bytes × σ
  rest : σ → Bytes
  read_append_rest : ∀ n s, (read n s).1 ++ rest (read n s).2 = rest s
  length_read_le : ∀ n s, (read n s).1.length ≤ n
  rest_of_read_eq_nil : ∀ n s, 0 < n → (read n s).1 = [] → rest s = []

namespace Source

variable {σ : Type} [Source σ]

/-- One read after the other, with buffers of the given sizes. -/
def reads : List Nat → σ → List Bytes × σ
  | [], s => ([], s)
  | n :: ns, s => ((read n s).1 :: (reads ns (read n s).2).1, (reads ns (read n s).2).2)

theorem reads_append_rest (ns : List Nat) (s : σ) : (reads ns s).1.flatten ++ rest (reads ns s).2 = rest s := by
  induction ns generalizing s with
  | nil => rfl
  | cons n ns ih =>
    calc ((read n s).1 ++ (reads ns (read n s).2).1.flatten) ++ rest (reads ns (read n s).2).2
        = (read n s).1 ++ rest (read n s).2 := by rw [append_assoc, ih]
      _ = rest s := read_append_rest n s

theorem flatten_reads {ns : List Nat} (hns : ∀ n ∈ ns, 0 < n) {s : σ} (hlen : (rest s).length ≤ ns.length) :
    (reads ns s).1.flatten = rest s := by
  induction ns generalizing s with
  | nil => exact (eq_nil_of_length_eq_zero (Nat.le_zero.1 hlen)).symm
  | cons n ns ih =>
    rw [forall_mem_cons] at hns
    have hsplit := read_append_rest n s
    have hnext : (rest (read n s).2).length ≤ ns.length := by
      by_cases hnil : (read n s).1 = []
      · have hend := rest_of_read_eq_nil n s hns.1 hnil
        rw [hnil, hend, nil_append] at hsplit
        rw [hsplit]
        exact Nat.zero_le _
      · have hpos := length_pos_of_ne_nil hnil
        rw [← hsplit, length_append, length_cons] at hlen
        omega
    rw [reads, flatten_cons, ih hns.2 hnext, hsplit]

/-- Reading a source yields a stream: whatever the sizes are no byte of it is
lost, doubled or moved, and enough reads with room return all of it. -/
structure Yields (s : σ) (stream : Bytes) : Prop where
  exact : ∀ ns, (reads ns s).1.flatten ++ rest (reads ns s).2 = stream
  whole : ∀ ns, (∀ n ∈ ns, 0 < n) → stream.length ≤ ns.length → (reads ns s).1.flatten = stream

theorem yields_rest (s : σ) : Yields s (rest s) :=
  ⟨fun ns => reads_append_rest ns s, fun _ hns hlen => flatten_reads hns hlen⟩

/-- Read until `n` bytes are there or the stream ends. -/
def readUpTo (n : Nat) (s : σ) : Bytes × σ :=
  if _h : (read n s).1 = [] then ([], (read n s).2)
  else
    let next := readUpTo (n - (read n s).1.length) (read n s).2
    ((read n s).1 ++ next.1, next.2)
termination_by n
decreasing_by
  have := length_pos_of_ne_nil _h
  have := length_read_le n s
  omega

theorem readUpTo_spec (n : Nat) (s : σ) :
    (readUpTo n s).1 = (rest s).take n ∧ rest (readUpTo n s).2 = (rest s).drop n := by
  induction n using Nat.strong_induction_on generalizing s with
  | _ n ih =>
    have hle := length_read_le n s
    have hsplit := read_append_rest n s
    rw [readUpTo]
    split
    · next hnil =>
      rw [hnil, nil_append] at hsplit
      rcases Nat.eq_zero_or_pos n with rfl | hpos
      · simp [hsplit]
      · have hrest := rest_of_read_eq_nil n s hpos hnil
        simp [hsplit, hrest]
    · next hne =>
      have hpos := length_pos_of_ne_nil hne
      obtain ⟨htake, hdrop⟩ := ih (n - (read n s).1.length) (by omega) (read n s).2
      dsimp only
      rw [htake, hdrop, ← hsplit, take_append, drop_append, take_of_length_le hle, drop_of_length_le hle]
      exact ⟨rfl, rfl⟩

/-- `read_exact` of `n` bytes. -/
def readExact (n : Nat) (s : σ) : Option Bytes × σ :=
  let (bytes, s) := readUpTo n s
  (if bytes.length = n then some bytes else none, s)

theorem readExact_eq_some {n : Nat} {s s' : σ} {bytes : Bytes} (h : readExact n s = (some bytes, s')) :
    bytes ++ rest s' = rest s ∧ bytes.length = n := by
  obtain ⟨htake, hdrop⟩ := readUpTo_spec n s
  obtain ⟨hbytes, rfl⟩ := Prod.mk.inj h
  obtain ⟨hlen, hbytes⟩ := Option.ite_none_right_eq_some.1 hbytes
  cases hbytes
  exact ⟨by rw [htake, hdrop, take_append_drop], hlen⟩

theorem readExact_of_le {n : Nat} {s : σ} (h : n ≤ (rest s).length) :
    ∃ s', readExact n s = (some ((rest s).take n), s') ∧ rest s' = (rest s).drop n := by
  obtain ⟨htake, hdrop⟩ := readUpTo_spec n s
  refine ⟨(readUpTo n s).2, ?_, hdrop⟩
  have hlen : (readUpTo n s).1.length = n := by rw [htake, length_take, Nat.min_eq_left h]
  rw [readExact, ← htake]
  exact congrArg (·, _) (if_pos hlen)

end Source

/-! ## A stream in segments -/

/-- The pieces a stream arrives in: a read returns bytes of one piece. -/
def readSegment (n : Nat) : List Bytes → Bytes × List Bytes
  | [] => ([], [])
  | [] :: pieces => readSegment n pieces
  | (b :: bs) :: pieces => ((b :: bs).take n, (b :: bs).drop n :: pieces)

instance : Source (List Bytes) where
  read := readSegment
  rest := List.flatten
  read_append_rest n s := by
    induction s with
    | nil => rfl
    | cons piece pieces ih =>
      cases piece with
      | nil => exact ih
      | cons b bs => rw [readSegment, flatten_cons, ← append_assoc, take_append_drop, flatten_cons]
  length_read_le n s := by
    induction s with
    | nil => exact Nat.zero_le n
    | cons piece pieces ih =>
      cases piece with
      | nil => exact ih
      | cons b bs => exact length_take_le n _
  rest_of_read_eq_nil n s hn h := by
    induction s with
    | nil => rfl
    | cons piece pieces ih =>
      cases piece with
      | nil => exact ih h
      | cons b bs =>
        obtain ⟨m, rfl⟩ := Nat.exists_eq_succ_of_ne_zero hn.ne'
        cases h

end Rove
