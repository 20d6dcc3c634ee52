/-
The anti-replay window of a receive session (`subnetra/replay.rs`): the
highest sequence number accepted, and one bit for each of the 64 numbers up to
it.

`ReplayWindow.Seen` is what the window holds against a number. A number that is
seen is refused, and what is seen stays seen. `ReplayWindow.Tracks` says which
numbers were accepted since the last reset, and from it follows what the window
answers over whole histories.
-/
import Mathlib.Data.BitVec
import Mathlib.Order.Basic
import Rove.Base.Run

namespace Rove.Subnetra

open List

structure ReplayWindow where
  highest : BitVec 64
  bitmap : BitVec 64

namespace ReplayWindow

/-- `ReplayWindow::new`, and what `reset` leaves. -/
def new : ReplayWindow := ⟨0, 0⟩

def window : Nat := 64

/-- `check_and_set`: the window afterwards, and whether the number is fresh. -/
def checkAndSet (w : ReplayWindow) (seq : BitVec 64) : ReplayWindow × Bool :=
  if w.highest < seq then
    let shift := (seq - w.highest).toNat
    let bitmap := if shift ≥ window then 0 else w.bitmap <<< shift
    (⟨seq, bitmap ||| 1⟩, true)
  else
    let diff := (w.highest - seq).toNat
    if diff ≥ window then (w, false)
    else if w.bitmap &&& 1#64 <<< diff ≠ 0 then (w, false)
    else ({ w with bitmap := w.bitmap ||| 1#64 <<< diff }, true)

/-- The number was accepted, or is too old to be told from one that was. -/
def Seen (w : ReplayWindow) (seq : BitVec 64) : Prop :=
  seq.toNat ≤ w.highest.toNat ∧
    (window ≤ w.highest.toNat - seq.toNat ∨ w.bitmap.getLsbD (w.highest.toNat - seq.toNat) = true)

theorem not_seen_new (seq : BitVec 64) : ¬ new.Seen seq := by
  intro h
  obtain ⟨hle, h⟩ := h
  have hzero : new.highest.toNat = 0 := rfl
  rw [hzero] at hle h
  rcases h with h | h
  · simp [window] at h
  · simp [new] at h

theorem and_mask_ne_zero {x d} (hd : d < 64) :
    x &&& (1#64 <<< d) ≠ 0 ↔ x.getLsbD d = true := by
  rw [ne_eq, BitVec.eq_of_getLsbD_eq_iff]
  grind

theorem checkAndSet_cases (w : ReplayWindow) (seq : BitVec 64) :
    (w.highest.toNat < seq.toNat ∧ w.checkAndSet seq =
        (⟨seq, (if window ≤ seq.toNat - w.highest.toNat then 0 else
          w.bitmap <<< (seq.toNat - w.highest.toNat)) ||| 1⟩, true)) ∨
      (seq.toNat ≤ w.highest.toNat ∧ ¬ w.Seen seq ∧ w.checkAndSet seq =
        (⟨w.highest, w.bitmap ||| 1#64 <<< (w.highest.toNat - seq.toNat)⟩, true)) ∨
      (w.Seen seq ∧ w.checkAndSet seq = (w, false)) := by
  unfold checkAndSet
  by_cases hlt : w.highest < seq
  · have hsub : (seq - w.highest).toNat = seq.toNat - w.highest.toNat := BitVec.toNat_sub_of_le (BitVec.le_of_lt hlt)
    refine .inl ⟨hlt, ?_⟩
    rw [if_pos hlt, hsub]
  · have hle : seq ≤ w.highest := BitVec.not_lt.1 hlt
    have hsub : (w.highest - seq).toNat = w.highest.toNat - seq.toNat := BitVec.toNat_sub_of_le hle
    rw [if_neg hlt, hsub]
    by_cases hold : window ≤ w.highest.toNat - seq.toNat
    · exact .inr (.inr ⟨⟨hle, .inl hold⟩, if_pos hold⟩)
    · have hmask := and_mask_ne_zero (x := w.bitmap) (Nat.lt_of_not_le hold)
      rw [if_neg hold]
      by_cases hbit : w.bitmap.getLsbD (w.highest.toNat - seq.toNat) = true
      · exact .inr (.inr ⟨⟨hle, .inr hbit⟩, if_pos (hmask.2 hbit)⟩)
      · exact .inr (.inl ⟨hle, fun h => h.2.elim hold hbit, if_neg (mt hmask.1 hbit)⟩)

variable {w : ReplayWindow} {seq : BitVec 64} {accepted : List (BitVec 64)}

theorem checkAndSet_drop {w'} (h : w.checkAndSet seq = (w', false)) : w' = w := by
  rcases w.checkAndSet_cases seq with ⟨_, heq⟩ | ⟨_, _, heq⟩ | ⟨_, heq⟩
  · rw [heq] at h; cases h
  · rw [heq] at h; cases h
  · rw [heq] at h
    exact (Prod.mk.inj h).1.symm

theorem not_seen_of_checkAndSet {w'} (h : w.checkAndSet seq = (w', true)) :
    ¬ w.Seen seq := by
  rcases w.checkAndSet_cases seq with ⟨hlt, _⟩ | ⟨_, hnot, _⟩ | ⟨_, heq⟩
  · exact fun hseen => absurd hseen.1 (by omega)
  · exact hnot
  · rw [heq] at h; cases h

theorem seen_self_of_checkAndSet {w'} (h : w.checkAndSet seq = (w', true)) :
    w'.Seen seq := by
  rcases w.checkAndSet_cases seq with ⟨_, heq⟩ | ⟨hle, hnot, heq⟩ | ⟨_, heq⟩
  · obtain ⟨rfl, _⟩ := Prod.mk.inj (heq.symm.trans h)
    refine ⟨Nat.le_refl _, .inr ?_⟩
    simp
  · obtain ⟨rfl, _⟩ := Prod.mk.inj (heq.symm.trans h)
    have hlt : w.highest.toNat - seq.toNat < 64 := Nat.lt_of_not_le fun hge => hnot ⟨hle, .inl hge⟩
    refine ⟨hle, .inr ?_⟩
    simp [hlt]
  · rw [heq] at h; cases h

theorem seen_of_checkAndSet {w' s fresh}
    (h : w.checkAndSet seq = (w', fresh)) (hs : w.Seen s) : w'.Seen s := by
  obtain ⟨hle, hs⟩ := hs
  rcases w.checkAndSet_cases seq with ⟨hlt, heq⟩ | ⟨_, _, heq⟩ | ⟨_, heq⟩
  · obtain ⟨rfl, _⟩ := Prod.mk.inj (heq.symm.trans h)
    refine ⟨show s.toNat ≤ seq.toNat by omega, ?_⟩
    by_cases hold : window ≤ seq.toNat - s.toNat
    · exact .inl hold
    · -- the bit of `s` moves up by the shift and stays inside the window
      have hbit := hs.resolve_left fun hge => hold (by omega)
      unfold window at hold
      have hshift : ¬ window ≤ seq.toNat - w.highest.toNat := by unfold window; omega
      have hpos : seq.toNat - s.toNat - (seq.toNat - w.highest.toNat) = w.highest.toNat - s.toNat := by omega
      refine .inr ?_
      rw [if_neg hshift, BitVec.getLsbD_or, BitVec.getLsbD_shiftLeft, hpos, hbit]
      have h1 : seq.toNat - s.toNat < 64 := by omega
      have h2 : ¬ seq.toNat - s.toNat < seq.toNat - w.highest.toNat := by omega
      simp [h1, h2]
  · obtain ⟨rfl, _⟩ := Prod.mk.inj (heq.symm.trans h)
    refine ⟨hle, hs.imp id fun hbit => ?_⟩
    rw [BitVec.getLsbD_or, hbit, Bool.true_or]
  · obtain ⟨rfl, _⟩ := Prod.mk.inj (heq.symm.trans h)
    exact ⟨hle, hs⟩

theorem checkAndSet_of_not_seen (h : ¬ w.Seen seq) :
    ∃ w', w.checkAndSet seq = (w', true) := by
  rcases w.checkAndSet_cases seq with ⟨_, heq⟩ | ⟨_, _, heq⟩ | ⟨hseen, _⟩
  · exact ⟨_, heq⟩
  · exact ⟨_, heq⟩
  · exact absurd hseen h

theorem checkAndSet_snd_iff (w : ReplayWindow) (seq : BitVec 64) : (w.checkAndSet seq).2 = true ↔ ¬ w.Seen seq := by
  constructor
  · intro h
    exact not_seen_of_checkAndSet (Prod.ext rfl h)
  · intro h
    obtain ⟨w', hw'⟩ := checkAndSet_of_not_seen h
    rw [hw']

/-! ## Histories -/

/-- The window against the numbers accepted since it was empty. -/
structure Tracks (w : ReplayWindow) (accepted : List (BitVec 64)) : Prop where
  le : ∀ a ∈ accepted, a.toNat ≤ w.highest.toNat
  greatest : accepted ≠ [] → w.highest ∈ accepted
  empty : accepted = [] → w.highest = 0
  bit : ∀ d < window, w.bitmap.getLsbD d = true ↔ ∃ a ∈ accepted, a.toNat + d = w.highest.toNat

theorem tracks_new : new.Tracks [] where
  le := by simp
  greatest h := absurd rfl h
  empty _ := rfl
  bit d _ := by simp [new]

theorem Tracks.seen_iff (h : w.Tracks accepted)
    (hle : seq.toNat ≤ w.highest.toNat) (hin : w.highest.toNat - seq.toNat < window) : w.Seen seq ↔ seq ∈ accepted := by
  constructor
  · intro hseen
    have hset := hseen.2.resolve_left (by omega)
    obtain ⟨a, ha, hsum⟩ := (h.bit _ hin).1 hset
    have heq : a = seq := BitVec.eq_of_toNat_eq (by omega)
    exact heq ▸ ha
  · intro hmem
    have hsum : seq.toNat + (w.highest.toNat - seq.toNat) = w.highest.toNat := by omega
    exact ⟨hle, .inr ((h.bit _ hin).2 ⟨seq, hmem, hsum⟩)⟩

theorem Tracks.not_seen_iff (h : w.Tracks accepted) (seq : BitVec 64) :
    ¬ w.Seen seq ↔ seq ∉ accepted ∧
      ((∀ a ∈ accepted, a < seq) ∨ ∃ g ∈ accepted, (∀ a ∈ accepted, a ≤ g) ∧ g.toNat - seq.toNat ≤ 63) := by
  by_cases hlt : w.highest.toNat < seq.toNat
  · -- a number above the window is new and above everything accepted
    have habove : ∀ a ∈ accepted, a < seq := fun a ha => BitVec.lt_def.2 (by have := h.le a ha; omega)
    have hnot : ¬ w.Seen seq := fun hseen => absurd hseen.1 (by omega)
    refine iff_of_true hnot ⟨fun hmem => absurd (h.le seq hmem) (by omega), .inl habove⟩
  · have hle : seq.toNat ≤ w.highest.toNat := Nat.le_of_not_lt hlt
    by_cases hin : w.highest.toNat - seq.toNat < window
    · rw [h.seen_iff hle hin]
      refine ⟨fun hnot => ⟨hnot, ?_⟩, fun hnot => hnot.1⟩
      by_cases hnil : accepted = []
      · exact .inl (by simp [hnil])
      · exact .inr ⟨w.highest, h.greatest hnil, fun a ha => BitVec.le_def.2 (h.le a ha), by unfold window at hin; omega⟩
    · have hseen : w.Seen seq := ⟨hle, .inl (Nat.le_of_not_lt hin)⟩
      unfold window at hin
      -- too old: the greatest number accepted is more than 63 above it
      have hne : accepted ≠ [] := fun hnil => by
        have hzero : w.highest.toNat = 0 := by rw [h.empty hnil]; rfl
        omega
      have hmax := h.greatest hne
      refine iff_of_false (fun hnot => hnot hseen) fun hclaim => ?_
      rcases hclaim.2 with habove | ⟨g, hg, hgreatest, hnear⟩
      · have := BitVec.lt_def.1 (habove _ hmax)
        omega
      · have := BitVec.le_def.1 (hgreatest _ hmax)
        omega

/-- The bits after the window has moved up: the new number, and the old ones further back. -/
theorem getLsbD_advance (bitmap : BitVec 64) (shift : Nat) {d} (hd : d < window) :
    ((if window ≤ shift then 0 else bitmap <<< shift) ||| 1).getLsbD d = true ↔
      d = 0 ∨ (shift ≤ d ∧ bitmap.getLsbD (d - shift) = true) := by
  unfold window at hd ⊢
  rw [BitVec.getLsbD_or, Bool.or_eq_true, or_comm]
  have hone : (1 : BitVec 64).getLsbD d = true ↔ d = 0 := by
    simp
  rw [hone]
  refine or_congr_right ?_
  by_cases hshift : 64 ≤ shift
  · rw [if_pos hshift]
    exact iff_of_false (by simp) fun h => absurd h.1 (by omega)
  · rw [if_neg hshift, BitVec.getLsbD_shiftLeft]
    simp [hd]

theorem Tracks.accept {w'} (h : w.Tracks accepted)
    (hset : w.checkAndSet seq = (w', true)) : w'.Tracks (accepted ++ [seq]) := by
  rcases w.checkAndSet_cases seq with ⟨hlt, heq⟩ | ⟨hle, hnot, heq⟩ | ⟨_, heq⟩
  · -- the window moves up
    obtain ⟨rfl, _⟩ := Prod.mk.inj (heq.symm.trans hset)
    refine ⟨fun a ha => ?_, fun _ => by simp, fun hnil => by simp at hnil, fun d hd => ?_⟩
    · rcases mem_append.1 ha with ha | ha
      · exact Nat.le_of_lt (Nat.lt_of_le_of_lt (h.le a ha) hlt)
      · rw [mem_singleton.1 ha]
    · rw [getLsbD_advance _ _ hd]
      constructor
      · rintro (rfl | ⟨hge, hbit⟩)
        · exact ⟨seq, by simp, rfl⟩
        · obtain ⟨a, ha, hsum⟩ := (h.bit _ (by omega)).1 hbit
          exact ⟨a, mem_append_left _ ha, show a.toNat + d = seq.toNat by omega⟩
      · rintro ⟨a, ha, hsum⟩
        have hsum : a.toNat + d = seq.toNat := hsum
        rcases mem_append.1 ha with ha | ha
        · have hle := h.le a ha
          have hback : a.toNat + (d - (seq.toNat - w.highest.toNat)) = w.highest.toNat := by omega
          exact .inr ⟨by omega, (h.bit _ (by omega)).2 ⟨a, ha, hback⟩⟩
        · rw [mem_singleton.1 ha] at hsum
          exact .inl (by omega)
  · -- one bit is set
    obtain ⟨rfl, _⟩ := Prod.mk.inj (heq.symm.trans hset)
    refine ⟨fun a ha => ?_, fun _ => ?_, fun hnil => by simp at hnil, fun d hd => ?_⟩
    · rcases mem_append.1 ha with ha | ha
      · exact h.le a ha
      · rw [mem_singleton.1 ha]
        exact hle
    · by_cases hnil : accepted = []
      · have hzero : w.highest = 0 := h.empty hnil
        have hseq : seq = 0 := BitVec.eq_of_toNat_eq (by rw [hzero] at hle; exact Nat.le_zero.1 hle)
        simp [hzero, hseq]
      · exact mem_append_left _ (h.greatest hnil)
    · have hmask : (1#64 <<< (w.highest.toNat - seq.toNat)).getLsbD d = true ↔ seq.toNat + d = w.highest.toNat := by
        unfold window at hd
        rw [← BitVec.twoPow_eq, BitVec.getLsbD_twoPow, Bool.and_eq_true, decide_eq_true_eq, decide_eq_true_eq]
        omega
      rw [BitVec.getLsbD_or, Bool.or_eq_true, h.bit d hd, hmask]
      simp [or_and_right, exists_or]
  · rw [heq] at hset; cases hset

inductive WindowOp where
  | reset
  | offer (seq : BitVec 64)

/-- One operation; a reset leaves the window as `new` makes it. -/
def step (w : ReplayWindow) : WindowOp → ReplayWindow × Bool
  | .reset => (new, false)
  | .offer seq => w.checkAndSet seq

/-- The numbers accepted, of those in a history. -/
def noteAccepted (accepted : List (BitVec 64)) : WindowOp × Bool → List (BitVec 64)
  | (.reset, _) => []
  | (.offer seq, fresh) => if fresh then accepted ++ [seq] else accepted

def acceptedSinceReset (history : List (WindowOp × Bool)) : List (BitVec 64) := history.foldl noteAccepted []

theorem tracks_run (ops : List WindowOp) :
    (runState step new ops).Tracks (acceptedSinceReset (runTrace step new ops)) := by
  have hrun : (runState step new ops).Tracks (acceptedSinceReset ([] ++ runTrace step new ops)) := by
    refine @run_induction _ _ _ step (fun w history => w.Tracks (acceptedSinceReset history)) (fun w history op h => ?_)
      new [] tracks_new ops
    rw [acceptedSinceReset, foldl_append, ← acceptedSinceReset, foldl_cons, foldl_nil]
    cases op with
    | reset => exact tracks_new
    | offer seq =>
      cases hset : w.checkAndSet seq with
      | mk w' fresh =>
        rw [step, hset]
        cases fresh with
        | true => exact h.accept hset
        | false =>
          rw [checkAndSet_drop hset]
          exact h
  exact hrun

/-- After every history, a number is answered with true when it was not
accepted since the last reset, and is above all that were or within 63 of the
greatest of them. -/
theorem check_and_set_iff (ops : List WindowOp) (seq : BitVec 64) :
    ((runState step new ops).checkAndSet seq).2 = true ↔
      seq ∉ acceptedSinceReset (runTrace step new ops) ∧
        ((∀ a ∈ acceptedSinceReset (runTrace step new ops), a < seq) ∨
          ∃ g ∈ acceptedSinceReset (runTrace step new ops),
            (∀ a ∈ acceptedSinceReset (runTrace step new ops), a ≤ g) ∧ g.toNat - seq.toNat ≤ 63) := by
  rw [checkAndSet_snd_iff, (tracks_run ops).not_seen_iff]

end ReplayWindow

end Rove.Subnetra
