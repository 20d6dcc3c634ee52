/-
Functions on the natural numbers as lists of runs: stretches of positions
with one value each, in ascending order. A list is canonical when no two runs
could be one, and then it is determined by the function it stands for
(`Canonical.ext`). `pushRun` puts one more run at the end.
-/
import Mathlib.Order.Lattice
import Mathlib.Data.List.Basic
import Mathlib.Data.List.Pairwise

namespace Rove

open List

/-- The positions from `lo` to `hi`, with a value. -/
structure Run (M : Type) where
  lo : Nat
  hi : Nat
  value : M
  deriving DecidableEq

variable {M : Type}

/-- `r` ends before `r'` starts, and if they touch they differ. -/
def Run.Before (r r' : Run M) : Prop := r.hi < r'.lo ∧ (r.hi + 1 = r'.lo → r.value ≠ r'.value)

/-- Runs in order, none of them empty, that cannot be merged. -/
structure Canonical (runs : List (Run M)) : Prop where
  nonempty : ∀ r ∈ runs, r.lo ≤ r.hi
  before : runs.Pairwise Run.Before

/-- The value `m` stands at position `p`. -/
def HasAt (runs : List (Run M)) (p : Nat) (m : M) : Prop := ∃ r ∈ runs, r.lo ≤ p ∧ p ≤ r.hi ∧ r.value = m

theorem hasAt_cons {r : Run M} {runs : List (Run M)} {p : Nat} {m : M} :
    HasAt (r :: runs) p m ↔ (r.lo ≤ p ∧ p ≤ r.hi ∧ r.value = m) ∨ HasAt runs p m := by
  simp [HasAt]

theorem canonical_cons {r : Run M} {runs : List (Run M)} :
    Canonical (r :: runs) ↔ r.lo ≤ r.hi ∧ (∀ r' ∈ runs, r.Before r') ∧ Canonical runs := by
  refine ⟨fun h => ?_, fun h => ⟨forall_mem_cons.2 ⟨h.1, h.2.2.nonempty⟩, pairwise_cons.2 ⟨h.2.1, h.2.2.before⟩⟩⟩
  obtain ⟨hr, hruns⟩ := forall_mem_cons.1 h.nonempty
  obtain ⟨hb, hbs⟩ := pairwise_cons.1 h.before
  exact ⟨hr, hb, hruns, hbs⟩

theorem Canonical.lt_of_hasAt {r : Run M} {runs : List (Run M)} (h : Canonical (r :: runs)) {p : Nat} {m : M}
    (hp : HasAt runs p m) : r.hi < p := by
  obtain ⟨r', hr', hlo, -, -⟩ := hp
  exact Nat.lt_of_lt_of_le ((canonical_cons.1 h).2.1 r' hr').1 hlo

theorem Canonical.lo_le {r : Run M} {runs : List (Run M)} (h : Canonical (r :: runs)) {p : Nat} {m : M}
    (hp : HasAt (r :: runs) p m) : r.lo ≤ p := by
  rcases hasAt_cons.1 hp with ⟨hlo, -, -⟩ | hp
  · exact hlo
  · exact Nat.le_trans (canonical_cons.1 h).1 (Nat.le_of_lt (h.lt_of_hasAt hp))

theorem Canonical.hasAt_unique {runs : List (Run M)} (h : Canonical runs) {p : Nat} {m m' : M} (hm : HasAt runs p m)
    (hm' : HasAt runs p m') : m = m' := by
  induction runs with
  | nil => obtain ⟨_, hr, -⟩ := hm; cases hr
  | cons r runs ih =>
    rcases hasAt_cons.1 hm with ⟨hlo, hhi, rfl⟩ | hm₁
    · rcases hasAt_cons.1 hm' with ⟨-, -, rfl⟩ | hm₂
      · rfl
      · exact absurd (h.lt_of_hasAt hm₂) (Nat.not_lt.2 hhi)
    · rcases hasAt_cons.1 hm' with ⟨-, hhi, -⟩ | hm₂
      · exact absurd (h.lt_of_hasAt hm₁) (Nat.not_lt.2 hhi)
      · exact ih (canonical_cons.1 h).2.2 hm₁ hm₂

theorem Canonical.not_hasAt_succ {r : Run M} {runs : List (Run M)} (h : Canonical (r :: runs)) :
    ¬ HasAt (r :: runs) (r.hi + 1) r.value := by
  intro hp
  rcases hasAt_cons.1 hp with ⟨-, hhi, -⟩ | ⟨r', hr', hlo, -, hv⟩
  · omega
  · obtain ⟨hlt, hne⟩ := (canonical_cons.1 h).2.1 r' hr'
    exact hne (by omega) hv.symm

theorem Canonical.value_ne_of_touch {runs : List (Run M)} (h : Canonical runs) {r r' : Run M}
    (hr : r ∈ runs) (hr' : r' ∈ runs) (htouch : r.hi + 1 = r'.lo) : r.value ≠ r'.value := by
  have hle := h.nonempty r hr
  have hle' := h.nonempty r' hr'
  have hsym : Std.Symm fun a b : Run M => a.Before b ∨ b.Before a := ⟨fun _ _ hab => hab.symm⟩
  have hne : r ≠ r' := by
    rintro rfl
    omega
  have hboth : runs.Pairwise fun a b => a.Before b ∨ b.Before a := h.before.imp Or.inl
  rcases hboth.forall hr hr' hne with hbefore | hafter
  · exact hbefore.2 htouch
  · have := hafter.1
    omega

/-- A canonical list is determined by the function it stands for. -/
theorem Canonical.ext {runs runs' : List (Run M)} (h : Canonical runs) (h' : Canonical runs')
    (heq : ∀ p m, HasAt runs p m ↔ HasAt runs' p m) : runs = runs' := by
  -- the first runs start together, have one value, and end together
  have hfirst : ∀ {r r' : Run M} {rs rs' : List (Run M)}, Canonical (r :: rs) → Canonical (r' :: rs') →
      (∀ p m, HasAt (r :: rs) p m ↔ HasAt (r' :: rs') p m) → r'.lo ≤ r.lo ∧
      (r.lo = r'.lo → r.value = r'.value → r'.hi ≤ r.hi) := by
    intro r r' rs rs' hr hr' hrr
    have hself : HasAt (r :: rs) r.lo r.value := hasAt_cons.2 (.inl ⟨Nat.le_refl _, (canonical_cons.1 hr).1, rfl⟩)
    refine ⟨hr'.lo_le ((hrr _ _).1 hself), fun hlo hv => Nat.le_of_not_lt fun hlt => ?_⟩
    refine hr.not_hasAt_succ ((hrr _ _).2 (hasAt_cons.2 (.inl ⟨?_, hlt, hv.symm⟩)))
    have := (canonical_cons.1 hr).1
    omega
  induction runs generalizing runs' with
  | nil =>
    cases runs' with
    | nil => rfl
    | cons r' rs' =>
      have hself := (heq r'.lo r'.value).2 (hasAt_cons.2 (.inl ⟨Nat.le_refl _, (canonical_cons.1 h').1, rfl⟩))
      obtain ⟨_, hr, -⟩ := hself
      cases hr
  | cons r rs ih =>
    have hself : HasAt (r :: rs) r.lo r.value := hasAt_cons.2 (.inl ⟨Nat.le_refl _, (canonical_cons.1 h).1, rfl⟩)
    cases runs' with
    | nil =>
      obtain ⟨_, hr, -⟩ := (heq _ _).1 hself
      cases hr
    | cons r' rs' =>
      obtain ⟨hlo₁, hhi₁⟩ := hfirst h h' heq
      obtain ⟨hlo₂, hhi₂⟩ := hfirst h' h fun p m => (heq p m).symm
      have hlo : r.lo = r'.lo := Nat.le_antisymm hlo₂ hlo₁
      have hself' : HasAt (r' :: rs') r.lo r'.value :=
        hasAt_cons.2 (.inl ⟨hlo ▸ Nat.le_refl _, hlo ▸ (canonical_cons.1 h').1, rfl⟩)
      have hvalue : r.value = r'.value := h'.hasAt_unique ((heq _ _).1 hself) hself'
      have hhi : r.hi = r'.hi := Nat.le_antisymm (hhi₂ hlo.symm hvalue.symm) (hhi₁ hlo hvalue)
      have hr : r = r' := by
        cases r
        cases r'
        simp_all
      subst hr
      congr 1
      refine ih (canonical_cons.1 h).2.2 (canonical_cons.1 h').2.2 fun p m => ⟨fun hp => ?_, fun hp => ?_⟩
      · rcases hasAt_cons.1 ((heq p m).1 (hasAt_cons.2 (.inr hp))) with ⟨-, hle, -⟩ | hp'
        · exact absurd (h.lt_of_hasAt hp) (Nat.not_lt.2 hle)
        · exact hp'
      · rcases hasAt_cons.1 ((heq p m).2 (hasAt_cons.2 (.inr hp))) with ⟨-, hle, -⟩ | hp'
        · exact absurd (h'.lt_of_hasAt hp) (Nat.not_lt.2 hle)
        · exact hp'

/-! ## One more run -/

theorem canonical_append_singleton {runs : List (Run M)} {r : Run M} :
    Canonical (runs ++ [r]) ↔ Canonical runs ∧ r.lo ≤ r.hi ∧ ∀ r' ∈ runs, r'.Before r := by
  refine ⟨fun h => ?_, fun h => ⟨?_, ?_⟩⟩
  · obtain ⟨hb, -, hall⟩ := pairwise_append.1 h.before
    refine ⟨⟨fun r' hr' => h.nonempty r' (mem_append_left _ hr'), hb⟩, h.nonempty r (by simp), fun r' hr' => ?_⟩
    exact hall r' hr' r (mem_singleton.2 rfl)
  · exact forall_mem_append.2 ⟨h.1.nonempty, by simpa using h.2.1⟩
  · refine pairwise_append.2 ⟨h.1.before, pairwise_singleton _ _, fun r' hr' a ha => ?_⟩
    rw [mem_singleton.1 ha]
    exact h.2.2 r' hr'

theorem hasAt_append_singleton {runs : List (Run M)} {r : Run M} {p : Nat} {m : M} :
    HasAt (runs ++ [r]) p m ↔ HasAt runs p m ∨ (r.lo ≤ p ∧ p ≤ r.hi ∧ r.value = m) := by
  simp [HasAt, or_and_right, exists_or]

variable [DecidableEq M]

/-- A run put after the others: the last of them is extended when it touches
and has the same value. -/
def pushRun (runs : List (Run M)) (r : Run M) : List (Run M) :=
  match runs.getLast? with
  | some last =>
    if last.value = r.value ∧ last.hi + 1 = r.lo then runs.dropLast ++ [{ last with hi := r.hi }] else runs ++ [r]
  | none => [r]

theorem pushRun_append_singleton (runs : List (Run M)) (last r : Run M) :
    pushRun (runs ++ [last]) r =
      if last.value = r.value ∧ last.hi + 1 = r.lo then runs ++ [{ last with hi := r.hi }]
      else runs ++ [last] ++ [r] := by
  simp [pushRun]

section
variable {runs : List (Run M)} {r : Run M}

/-- Pushing a run after all others adds the positions of the run. -/
theorem hasAt_pushRun (h : Canonical runs) (hr : r.lo ≤ r.hi) {p : Nat} {m : M} :
    HasAt (pushRun runs r) p m ↔ HasAt runs p m ∨ (r.lo ≤ p ∧ p ≤ r.hi ∧ r.value = m) := by
  rcases eq_nil_or_concat' runs with rfl | ⟨init, last, rfl⟩
  · simp [pushRun, HasAt]
  · rw [pushRun_append_singleton]
    split
    · next hmerge =>
      obtain ⟨hv, htouch⟩ := hmerge
      have hlast := (canonical_append_singleton.1 h).2.1
      -- the two runs are one when they touch
      rw [hasAt_append_singleton, hasAt_append_singleton, or_assoc]
      refine or_congr_right ?_
      rw [← hv]
      have : (last.lo ≤ p ∧ p ≤ r.hi) ↔ (last.lo ≤ p ∧ p ≤ last.hi) ∨ (r.lo ≤ p ∧ p ≤ r.hi) := by omega
      tauto
    · exact hasAt_append_singleton

theorem canonical_pushRun (h : Canonical runs) (hr : r.lo ≤ r.hi) (hafter : ∀ r' ∈ runs, r'.hi < r.lo) :
    Canonical (pushRun runs r) := by
  rcases eq_nil_or_concat' runs with rfl | ⟨init, last, rfl⟩
  · exact ⟨by simpa [pushRun] using hr, pairwise_singleton _ _⟩
  · rw [pushRun_append_singleton]
    obtain ⟨hinit, hlast, hbefore⟩ := canonical_append_singleton.1 h
    have hlt : last.hi < r.lo := hafter last (by simp)
    split
    · refine canonical_append_singleton.2 ⟨hinit, ?_, hbefore⟩
      dsimp only
      omega
    · next hmerge =>
      refine canonical_append_singleton.2 ⟨h, hr, fun r' hr' => ⟨hafter r' hr', fun htouch hv => ?_⟩⟩
      -- only the last run can touch the new one
      rcases mem_append.1 hr' with hr' | hr'
      · have := (hbefore r' hr').1
        omega
      · obtain rfl := mem_singleton.1 hr'
        exact hmerge ⟨hv, htouch⟩

end

end Rove
