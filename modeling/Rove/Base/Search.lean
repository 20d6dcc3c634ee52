/-
Binary search on a slice, as the Rust standard library does it:
`binary_search_by` and, through it, `partition_point`.

On a slice ordered for the comparison (`OrderedFor`), a successful search
gives the index of an equal element, and a failed one means that there is
none (`binarySearchBy_spec`); on a slice that is partitioned by a predicate,
`partition_point` is the number of elements that satisfy it
(`partitionPoint_spec`).
-/
import Mathlib.Data.List.Basic
import Mathlib.Tactic.Set

namespace Rove

variable {α : Type}

/-- The halving loop: `base` after the interval at `base` of length `size` has
been cut down to one element. -/
def searchLoop (cmp : Nat → Ordering) : (fuel base size : Nat) → Nat
  | 0, base, _ => base
  | fuel + 1, base, size =>
    if size ≤ 1 then base
    else
      let half := size / 2
      let mid := base + half
      searchLoop cmp fuel (if cmp mid = .gt then base else mid) (size - half)

/-- `slice::binary_search_by`: `ok` of the index of an equal element, or
`error` of where one would be inserted. -/
def binarySearchBy (xs : List α) (f : α → Ordering) : Except Nat Nat :=
  if xs.length = 0 then .error 0
  else
    let cmp := fun i => (xs[i]?.map f).getD .gt
    let base := searchLoop cmp xs.length 0 xs.length
    match cmp base with
    | .eq => .ok base
    | .lt => .error (base + 1)
    | .gt => .error base

def partitionPoint (xs : List α) (pred : α → Bool) : Nat :=
  match binarySearchBy xs (fun x => if pred x then .lt else .gt) with
  | .ok i => i
  | .error i => i

/-- The slice is ordered for the comparison: elements that compare less, then
equal ones, then greater ones. -/
def OrderedFor (xs : List α) (f : α → Ordering) : Prop :=
  xs.Pairwise fun a b => (f a = .gt → f b = .gt) ∧ (f b = .lt → f a = .lt)

/-- The loop keeps the interval where the answer is: what stands before it
does not compare greater at its last step, what stands after it does. -/
theorem searchLoop_spec {cmp n}
    (hgt : ∀ i j, i < j → cmp i = .gt → cmp j = .gt) :
    ∀ fuel base size, size ≤ fuel → 0 < size → base + size ≤ n →
      (base = 0 ∨ cmp base ≠ .gt) → (∀ j, base + size ≤ j → j < n → cmp j = .gt) →
      searchLoop cmp fuel base size < n ∧
        (searchLoop cmp fuel base size = 0 ∨ cmp (searchLoop cmp fuel base size) ≠ .gt) ∧
        ∀ j, searchLoop cmp fuel base size < j → j < n → cmp j = .gt := by
  intro fuel
  induction fuel with
  | zero => intro base size hf hs; omega
  | succ fuel ih =>
    intro base size hf hs hn hb ha
    rw [searchLoop]
    split
    · next h1 =>
      exact ⟨by omega, hb, fun j hj hjn => ha j (by omega) hjn⟩
    · next h1 =>
      by_cases hm : cmp (base + size / 2) = .gt
      · simp only [hm, if_true]
        refine ih base (size - size / 2) (by omega) (by omega) (by omega) hb fun j hj hjn => ?_
        rcases Nat.lt_or_ge (base + size / 2) j with h | h
        · exact hgt _ _ h hm
        · have : j = base + size / 2 := by omega
          exact this ▸ hm
      · simp only [hm, if_false]
        refine ih (base + size / 2) (size - size / 2) (by omega) (by omega) (by omega) (.inr hm)
          fun j hj hjn => ha j (by omega) hjn

theorem OrderedFor.getElem {xs : List α} {f : α → Ordering} (h : OrderedFor xs f) {i j : Nat}
    (hij : i < j) (hj : j < xs.length) :
    (f xs[i] = .gt → f xs[j] = .gt) ∧ (f xs[j] = .lt → f xs[i] = .lt) :=
  List.pairwise_iff_getElem.1 h i j (by omega) hj hij

theorem binarySearchBy_spec {xs : List α} {f : α → Ordering} (h : OrderedFor xs f) :
    match binarySearchBy xs f with
    | .ok i => ∃ x, xs[i]? = some x ∧ f x = .eq
    | .error i => i ≤ xs.length ∧ (∀ j x, j < i → xs[j]? = some x → f x = .lt) ∧
        ∀ j x, i ≤ j → xs[j]? = some x → f x = .gt := by
  unfold binarySearchBy
  by_cases hlen : xs.length = 0
  · have : xs = [] := List.eq_nil_of_length_eq_zero hlen
    subst this
    simp
  · set cmp : Nat → Ordering := fun i => (xs[i]?.map f).getD .gt with hcmp
    have hin : ∀ {i} (hi : i < xs.length), cmp i = f xs[i] := by
      intro i hi
      simp [hcmp, hi]
    have hout : ∀ {i}, xs.length ≤ i → cmp i = .gt := by
      intro i hi
      simp [hcmp, hi]
    have hgt : ∀ i j, i < j → cmp i = .gt → cmp j = .gt := by
      intro i j hij hi
      by_cases hj : j < xs.length
      · rw [hin hj]
        rw [hin (by omega)] at hi
        exact (h.getElem hij hj).1 hi
      · exact hout (by omega)
    obtain ⟨hb, hz, ha⟩ := searchLoop_spec (n := xs.length) hgt xs.length 0 xs.length (Nat.le_refl _) (by omega)
      (by omega) (.inl rfl) (by omega)
    simp only [hlen, if_false]
    generalize searchLoop cmp xs.length 0 xs.length = base at hb hz ha
    have hafter : ∀ j x, base < j → xs[j]? = some x → f x = .gt := by
      intro j x hj hx
      obtain ⟨hjl, rfl⟩ := List.getElem?_eq_some_iff.1 hx
      rw [← hin hjl]
      exact ha j hj hjl
    have hlt : ∀ j x, j < base → xs[j]? = some x → cmp base = .lt → f x = .lt := by
      intro j x hj hx hc
      obtain ⟨hjl, rfl⟩ := List.getElem?_eq_some_iff.1 hx
      rw [hin hb] at hc
      exact (h.getElem hj hb).2 hc
    cases hc : cmp base with
    | eq => exact ⟨xs[base], List.getElem?_eq_getElem hb, by rw [← hin hb]; exact hc⟩
    | lt =>
      refine ⟨by omega, fun j x hj hx => ?_, fun j x hj hx => hafter j x (by omega) hx⟩
      rcases Nat.lt_or_ge j base with hjb | hjb
      · exact hlt j x hjb hx hc
      · obtain ⟨hjl, rfl⟩ := List.getElem?_eq_some_iff.1 hx
        have : j = base := by omega
        subst this
        rw [← hin hjl]
        exact hc
    | gt =>
      have hb0 : base = 0 := hz.resolve_right fun hne => hne hc
      subst hb0
      refine ⟨by omega, fun j x hj => by omega, fun j x _ hx => ?_⟩
      rcases Nat.eq_zero_or_pos j with hj | hj
      · subst hj
        obtain ⟨hjl, rfl⟩ := List.getElem?_eq_some_iff.1 hx
        rw [← hin hjl]
        exact hc
      · exact hafter j x hj hx

/-- A partitioned slice: `partition_point` counts the elements that satisfy
the predicate, which stand first. -/
theorem partitionPoint_spec {xs : List α} {pred : α → Bool}
    (h : xs.Pairwise fun a b => pred b = true → pred a = true) :
    partitionPoint xs pred ≤ xs.length ∧
      (∀ j x, xs[j]? = some x → (pred x = true ↔ j < partitionPoint xs pred)) := by
  have hord : OrderedFor xs (fun x => if pred x then .lt else .gt) := by
    refine h.imp fun {a b} hab => ⟨fun ha => ?_, fun hb => ?_⟩
    · cases hb : pred b with
      | false => simp [hb]
      | true => simp [hab hb] at ha
    · have hpb : pred b = true := by
        cases hb' : pred b with
        | true => rfl
        | false => simp [hb'] at hb
      simp [hab hpb]
  have hs := binarySearchBy_spec hord
  unfold partitionPoint
  cases hr : binarySearchBy xs (fun x => if pred x then .lt else .gt) with
  | ok i =>
    rw [hr] at hs
    obtain ⟨x, -, hx⟩ := hs
    cases hp : pred x <;> simp [hp] at hx
  | error i =>
    rw [hr] at hs
    obtain ⟨hi, hl, hg⟩ := hs
    refine ⟨hi, fun j x hx => ⟨fun hp => ?_, fun hj => ?_⟩⟩
    · by_contra hj
      have := hg j x (Nat.le_of_not_lt hj) hx
      simp [hp] at this
    · have := hl j x hj hx
      cases hp : pred x <;> simp [hp] at this ⊢

end Rove
