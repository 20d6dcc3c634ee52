/-
Least elements found piece by piece: a set of candidates whose least member
(if any) is kept in an `Option`, and a running minimum that starts from a
bound no candidate reaches.
-/
import Mathlib.Order.Bounds.Basic
import Mathlib.Data.Nat.Init
import Mathlib.Order.Nat
import Mathlib.Data.List.Basic

namespace Rove

open List

variable {α β ι : Type} [LinearOrder α]

/-- `o` is the least element of `T`, or `none` when `T` is empty. -/
def MinOf (o : Option α) (T : Set α) : Prop :=
  match o with
  | none => T = ∅
  | some i => IsLeast T i

/-- `o` with `v` noted: the lesser of the two. -/
def noteLeast (o : Option α) (v : α) : Option α := some (o.elim v (min · v))

variable {o : Option α} {T : Set α}

theorem MinOf.unique {o'} (h : MinOf o T) (h' : MinOf o' T) : o = o' := by
  cases o with
  | none =>
    cases o' with
    | none => rfl
    | some j => exact absurd h'.1 (by rw [show T = ∅ from h]; simp)
  | some i =>
    cases o' with
    | none => exact absurd h.1 (by rw [show T = ∅ from h']; simp)
    | some j => rw [IsLeast.unique h h']

theorem MinOf.mem {i} (h : MinOf o T) (hi : o = some i) : i ∈ T := by
  subst hi
  exact h.1

theorem MinOf.note (h : MinOf o T) (v : α) :
    MinOf (noteLeast o v) (insert v T) := by
  cases o with
  | none =>
    rw [show T = ∅ from h]
    exact ⟨by simp, by simp [lowerBounds]⟩
  | some i =>
    have hv := IsLeast.insert v h
    rwa [min_comm] at hv

theorem minOf_foldl_note (h : MinOf o T) (xs : List α) :
    MinOf (xs.foldl noteLeast o) (T ∪ {i | i ∈ xs}) := by
  induction xs generalizing o T with
  | nil => simpa using h
  | cons x xs ih =>
    have hx := ih (h.note x)
    have hset : insert x T ∪ {i | i ∈ xs} = T ∪ {i | i ∈ x :: xs} := by
      ext i
      simp only [Set.mem_union, Set.mem_insert_iff, Set.mem_ofPred_eq, mem_cons]
      tauto
    rwa [hset] at hx

theorem MinOf.noteIf (h : MinOf o T) (v : α) (c : Prop) [Decidable c] :
    MinOf (if c then noteLeast o v else o) {i | i ∈ T ∨ i = v ∧ c} := by
  split
  · next hc =>
    have hset : {i | i ∈ T ∨ i = v ∧ c} = insert v T := by
      ext i
      simp [hc, or_comm]
    exact hset ▸ h.note v
  · next hc => simpa [hc] using h

/-- A store with one cell a key, into which `v` is noted at each key of a list:
every cell keeps the least of what was noted there. -/
theorem minOf_foldl_cells {σ K : Type} [DecidableEq K] (get : σ → K → Option α) (add : σ → K → σ) (v : α)
    (ks : List K)
    (hadd : ∀ s, ∀ k ∈ ks, ∀ k', get (add s k) k' = if k' = k then noteLeast (get s k') v else get s k')
    (s : σ) (T : K → Set α) (h : ∀ k, MinOf (get s k) (T k)) (k : K) :
    MinOf (get (ks.foldl add s) k) {i | i ∈ T k ∨ i = v ∧ k ∈ ks} := by
  induction ks generalizing s T with
  | nil => simpa using h k
  | cons k₀ ks ih =>
    have hs : ∀ k, MinOf (get (add s k₀) k) {i | i ∈ T k ∨ i = v ∧ k = k₀} := by
      intro k
      rw [hadd s k₀ mem_cons_self k]
      exact (h k).noteIf v (k = k₀)
    have hks := ih (fun s k hk => hadd s k (mem_cons_of_mem _ hk)) (add s k₀) _ hs
    have hset : {i | i ∈ T k ∨ i = v ∧ k ∈ k₀ :: ks} =
        {i | i ∈ {i | i ∈ T k ∨ i = v ∧ k = k₀} ∨ i = v ∧ k ∈ ks} := by
      ext i
      simp only [Set.mem_ofPred_eq, mem_cons]
      tauto
    rw [hset]
    exact hks

/-- The least of the least elements of several sets is the least of their union. -/
theorem MinOf.biUnion {Q : ι → Prop} {o : ι → Option α} {T : ι → Set α} {r : Option α}
    (h : ∀ q, Q q → MinOf (o q) (T q)) (hr : MinOf r {i | ∃ q, Q q ∧ o q = some i}) :
    MinOf r {i | ∃ q, Q q ∧ i ∈ T q} := by
  cases r with
  | none =>
    refine Set.eq_empty_iff_forall_notMem.2 ?_
    rintro i ⟨q, hq, hi⟩
    have hq' := h q hq
    cases ho : o q with
    | none =>
      rw [ho] at hq'
      rw [show T q = ∅ from hq'] at hi
      exact hi
    | some j =>
      have : j ∈ {i | ∃ q, Q q ∧ o q = some i} := ⟨q, hq, ho⟩
      rw [show {i | ∃ q, Q q ∧ o q = some i} = ∅ from hr] at this
      exact this
  | some m =>
    obtain ⟨⟨q, hq, ho⟩, hleast⟩ := hr
    refine ⟨⟨q, hq, (h q hq).mem ho⟩, ?_⟩
    rintro i ⟨q', hq', hi⟩
    have hT := h q' hq'
    cases ho' : o q' with
    | none =>
      rw [ho'] at hT
      rw [show T q' = ∅ from hT] at hi
      simp at hi
    | some j =>
      rw [ho'] at hT
      exact le_trans (hleast ⟨q', hq', ho'⟩) (hT.2 hi)

/-- Searching a list front to back finds the least position that hits. -/
theorem minOf_find?_zipIdx (xs : List β) (p : β → Bool) :
    MinOf ((xs.zipIdx.find? fun (x, _) => p x).map (·.2)) {i | ∃ x, xs[i]? = some x ∧ p x = true} := by
  cases hf : xs.zipIdx.find? fun (x, _) => p x with
  | none =>
    refine Set.eq_empty_iff_forall_notMem.2 ?_
    rintro i ⟨x, hx, hp⟩
    exact find?_eq_none.1 hf (x, i) (mem_zipIdx_iff_getElem?.2 hx) hp
  | some e =>
    obtain ⟨x, i⟩ := e
    obtain ⟨hp, as, bs, hsplit, hbefore⟩ := find?_eq_some_iff_append.1 hf
    have hx : xs[i]? = some x := mem_zipIdx_iff_getElem?.1 (mem_of_find?_eq_some hf)
    refine ⟨⟨x, hx, hp⟩, ?_⟩
    rintro j ⟨y, hy, hpy⟩
    by_contra hle
    have hlt : j < i := not_le.1 hle
    -- an earlier entry stands before the one found, and none of those hits
    have hlen : as.length = i := by
      have h := congrArg (fun l => l[as.length]?) hsplit
      simp only [getElem?_append_right (Nat.le_refl as.length), Nat.sub_self,
        getElem?_cons_zero, getElem?_zipIdx] at h
      obtain ⟨z, -, hz⟩ := Option.map_eq_some_iff.1 h
      have := congrArg Prod.snd hz
      simpa using this
    have hj : (y, j) ∈ as := by
      have h := congrArg (fun l => l[j]?) hsplit
      rw [getElem?_append_left (by omega)] at h
      simp only [getElem?_zipIdx, hy, Option.map_some, Nat.zero_add] at h
      exact mem_of_getElem? h.symm
    simpa [hpy] using hbefore (y, j) hj

/-! ## A running minimum below a bound -/

theorem IsLeast.min_option {top b U} (hb : IsLeast (insert top T) b)
    (ho : MinOf o U) : IsLeast (insert top (T ∪ U)) (o.elim b (min b)) := by
  cases o with
  | none => simpa [show U = ∅ from ho] using hb
  | some i =>
    have := IsLeast.union hb ho
    simpa [Set.insert_union] using this

theorem IsLeast.trans_insert {top b b' U} (hb : IsLeast (insert top T) b)
    (hb' : IsLeast (insert b U) b') : IsLeast (insert top (T ∪ U)) b' := by
  have hle : b' ≤ b := hb'.2 (Set.mem_insert _ _)
  constructor
  · rcases hb'.1 with rfl | hU
    · rcases hb.1 with rfl | hT
      · exact Set.mem_insert _ _
      · exact Set.mem_insert_of_mem _ (.inl hT)
    · exact Set.mem_insert_of_mem _ (.inr hU)
  · rintro i (rfl | hT | hU)
    · exact le_trans hle (hb.2 (Set.mem_insert _ _))
    · exact le_trans hle (hb.2 (Set.mem_insert_of_mem _ hT))
    · exact hb'.2 (Set.mem_insert_of_mem _ hU)

/-- Read a running minimum as an optional result: the bound itself is no hit. -/
theorem MinOf.ofBound {top b} (hb : IsLeast (insert top T) b) (hT : ∀ i ∈ T, i < top) :
    MinOf (if b ≠ top then some b else none) T := by
  by_cases h : b = top
  · simp only [h, ne_eq, not_true_eq_false, if_false]
    refine Set.eq_empty_iff_forall_notMem.2 fun i hi => ?_
    exact absurd (hT i hi) (not_lt.2 (h ▸ hb.2 (Set.mem_insert_of_mem _ hi)))
  · simp only [h, ne_eq, not_false_eq_true, if_true]
    exact ⟨hb.1.resolve_left h, fun i hi => hb.2 (Set.mem_insert_of_mem _ hi)⟩

/-- Scan for an entry that hits with a smaller index than the best so far. An
index of zero cannot be improved on and ends the scan. -/
def scanMin (hit : β → Bool) : List (β × Nat) → Nat → Nat
  | [], best => best
  | (x, idx) :: rest, best =>
    if idx < best && hit x then
      if idx = 0 then idx else scanMin hit rest idx
    else scanMin hit rest best

theorem isLeast_scanMin (hit : β → Bool) (xs : List (β × Nat)) (best : Nat) :
    IsLeast (insert best {i | ∃ x, (x, i) ∈ xs ∧ hit x = true}) (scanMin hit xs best) := by
  induction xs generalizing best with
  | nil => simp [scanMin]
  | cons e xs ih =>
    obtain ⟨x, idx⟩ := e
    rw [scanMin]
    by_cases hx : hit x = true
    · -- the entry hits: its index is a candidate like any other
      have hset : {i | ∃ y, (y, i) ∈ (x, idx) :: xs ∧ hit y = true} =
          insert idx {i | ∃ y, (y, i) ∈ xs ∧ hit y = true} := by
        ext i
        constructor
        · rintro ⟨y, hy, hh⟩
          rcases mem_cons.1 hy with he | hy
          · exact .inl (congrArg Prod.snd he)
          · exact .inr ⟨y, hy, hh⟩
        · rintro (rfl | ⟨y, hy, hh⟩)
          · exact ⟨x, mem_cons_self, hx⟩
          · exact ⟨y, mem_cons_of_mem _ hy, hh⟩
      rw [hset]
      by_cases hlt : idx < best
      · simp only [hlt, hx, decide_true, Bool.and_self, if_true]
        by_cases h0 : idx = 0
        · rw [if_pos h0]
          exact ⟨by simp, fun i _ => by omega⟩
        · rw [if_neg h0]
          obtain ⟨hm, hl⟩ := ih idx
          refine ⟨Set.mem_insert_of_mem _ hm, ?_⟩
          rintro i (rfl | hi)
          · exact le_trans (hl (Set.mem_insert _ _)) (le_of_lt hlt)
          · exact hl hi
      · simp only [hlt, decide_false, Bool.false_and, Bool.false_eq_true, if_false]
        obtain ⟨hm, hl⟩ := ih best
        refine ⟨?_, ?_⟩
        · rcases hm with hm | hm
          · exact .inl hm
          · exact .inr (.inr hm)
        · rintro i (rfl | rfl | hi)
          · exact hl (Set.mem_insert _ _)
          · exact le_trans (hl (Set.mem_insert _ _)) (not_lt.1 hlt)
          · exact hl (Set.mem_insert_of_mem _ hi)
    · have hset : {i | ∃ y, (y, i) ∈ (x, idx) :: xs ∧ hit y = true} =
          {i | ∃ y, (y, i) ∈ xs ∧ hit y = true} := by
        ext i
        constructor
        · rintro ⟨y, hy, hh⟩
          rcases mem_cons.1 hy with he | hy
          · cases he
            exact absurd hh hx
          · exact ⟨y, hy, hh⟩
        · rintro ⟨y, hy, hh⟩
          exact ⟨y, mem_cons_of_mem _ hy, hh⟩
      simp only [hx, hset, Bool.and_false, Bool.false_eq_true, if_false]
      exact ih best

end Rove
