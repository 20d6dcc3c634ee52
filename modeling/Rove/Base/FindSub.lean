/-
The first occurrence of one list in another, and of one text in another by
their UTF-8 bytes.
-/
import Mathlib.Data.Nat.Find
import Rove.Base.Utf8

namespace Rove

open List

section

variable {α : Type} [DecidableEq α]

/-- Where the needle first occurs; the empty needle occurs nowhere. -/
def findSub (needle : List α) : List α → Option Nat
  | [] => none
  | x :: xs => if needle ≠ [] ∧ needle <+: x :: xs then some 0 else (findSub needle xs).map (· + 1)

variable {needle xs : List α}

theorem findSub_eq_some_iff {i} :
    findSub needle xs = some i ↔
      needle ≠ [] ∧ needle <+: xs.drop i ∧ ∀ j < i, ¬ needle <+: xs.drop j := by
  induction xs generalizing i with
  | nil =>
    simp only [findSub, drop_nil, prefix_nil, reduceCtorEq, false_iff]
    exact fun h => h.1 h.2.1
  | cons x xs ih =>
    rw [findSub]
    by_cases hn : needle = []
    · have hnone : findSub needle xs = none := by
        refine Option.eq_none_iff_forall_ne_some.2 fun j hj => ?_
        exact (ih.1 hj).1 hn
      rw [if_neg fun h => h.1 hn, hnone]
      exact ⟨fun h => (Option.some_ne_none _ h.symm).elim, fun h => absurd hn h.1⟩
    by_cases hp : needle <+: x :: xs
    · rw [if_pos ⟨hn, hp⟩, Option.some.injEq]
      refine ⟨fun hi => ?_, fun h => ?_⟩
      · subst hi
        exact ⟨hn, hp, fun j hj => absurd hj (by omega)⟩
      · rcases Nat.eq_zero_or_pos i with hi | hi
        · exact hi.symm
        · exact absurd hp (h.2.2 0 hi)
    · rw [if_neg fun h => hp h.2, Option.map_eq_some_iff]
      refine ⟨fun h => ?_, fun h => ?_⟩
      · obtain ⟨j, hj, rfl⟩ := h
        obtain ⟨_, hat, hbefore⟩ := ih.1 hj
        refine ⟨hn, hat, fun k hk => ?_⟩
        cases k with
        | zero => exact hp
        | succ k => exact hbefore k (by omega)
      · obtain ⟨_, hat, hbefore⟩ := h
        cases i with
        | zero => exact absurd hat hp
        | succ i => exact ⟨i, ih.2 ⟨hn, hat, fun j hj => hbefore (j + 1) (by omega)⟩, rfl⟩

theorem findSub_append {i} (h : findSub needle xs = some i) (ys : List α) :
    findSub needle (xs ++ ys) = some i := by
  obtain ⟨hn, hat, hbefore⟩ := findSub_eq_some_iff.1 h
  have hlen := hat.length_le
  rw [length_drop] at hlen
  have hpos : 0 < needle.length := length_pos_iff.2 hn
  refine findSub_eq_some_iff.2 ⟨hn, ?_, fun j hj hp => hbefore j hj ?_⟩
  · rw [drop_append_of_le_length (by omega)]
    exact hat.trans (prefix_append _ _)
  · rw [drop_append_of_le_length (by omega)] at hp
    refine prefix_of_prefix_length_le hp (prefix_append _ _) ?_
    rw [length_drop]
    omega

theorem length_lt_of_findSub_append {i ys} (hxs : findSub needle xs = none)
    (h : findSub needle (xs ++ ys) = some i) : xs.length < i + needle.length := by
  obtain ⟨hn, hat, hbefore⟩ := findSub_eq_some_iff.1 h
  by_contra hle
  have hxs' : findSub needle xs = some i := by
    refine findSub_eq_some_iff.2 ⟨hn, ?_, fun j hj hp => hbefore j hj ?_⟩
    · rw [drop_append_of_le_length (by omega)] at hat
      refine prefix_of_prefix_length_le hat (prefix_append _ _) ?_
      rw [length_drop]
      omega
    · rw [drop_append_of_le_length (by omega)]
      exact hp.trans (prefix_append _ _)
  rw [hxs] at hxs'
  cases hxs'

theorem exists_findSub_of_drop {i n} (h : findSub needle (xs.drop n) = some i) : ∃ j, findSub needle xs = some j := by
  obtain ⟨hne, hat, -⟩ := findSub_eq_some_iff.1 h
  have hex : ∃ j, needle <+: xs.drop j := ⟨n + i, by rwa [drop_drop] at hat⟩
  exact ⟨Nat.find hex, findSub_eq_some_iff.2 ⟨hne, Nat.find_spec hex, fun j hj => Nat.find_min hex hj⟩⟩

theorem findSub_drop_eq_some {i n} (hn : n ≤ i) (h : findSub needle xs = some i) :
    findSub needle (xs.drop n) = some (i - n) := by
  obtain ⟨hne, hat, hbefore⟩ := findSub_eq_some_iff.1 h
  refine findSub_eq_some_iff.2 ⟨hne, ?_, fun j hj => ?_⟩
  · rw [drop_drop, Nat.add_sub_cancel' hn]
    exact hat
  · rw [drop_drop]
    exact hbefore _ (by omega)

theorem findSub_take {i k} (h : findSub needle xs = some i) (hk : i + needle.length ≤ k) :
    findSub needle (xs.take k) = some i := by
  obtain ⟨hne, hat, hbefore⟩ := findSub_eq_some_iff.1 h
  refine findSub_eq_some_iff.2 ⟨hne, ?_, fun j hj hp => hbefore j hj (hp.trans ?_)⟩
  · rw [drop_take]
    exact prefix_take_iff.2 ⟨hat, by omega⟩
  · exact (List.take_prefix _ _).drop j

theorem findSub_eq_none_iff (hne : needle ≠ []) : findSub needle xs = none ↔ ¬ needle <:+: xs := by
  refine ⟨fun h hwithin => ?_, fun h => Option.eq_none_iff_forall_ne_some.2 fun i hi => ?_⟩
  · obtain ⟨before, after, rfl⟩ := hwithin
    have hat : needle <+: (before ++ needle ++ after).drop before.length := by
      rw [append_assoc, drop_left]
      exact prefix_append _ _
    obtain ⟨i, hi⟩ : ∃ i, findSub needle ((before ++ needle ++ after).drop before.length) = some i :=
      ⟨0, findSub_eq_some_iff.2 ⟨hne, hat, fun j hj => absurd hj (Nat.not_lt_zero j)⟩⟩
    obtain ⟨j, hj⟩ := exists_findSub_of_drop hi
    rw [h] at hj
    cases hj
  · obtain ⟨_, hat, _⟩ := findSub_eq_some_iff.1 hi
    exact h (hat.isInfix.trans (drop_suffix _ _).isInfix)

theorem findSub_take_eq_none {i k} (h : findSub needle xs = some i) (hk : k < i + needle.length) :
    findSub needle (xs.take k) = none := by
  refine Option.eq_none_iff_forall_ne_some.2 fun j hj => ?_
  have hxs := findSub_append hj (xs.drop k)
  rw [take_append_drop, h] at hxs
  cases hxs
  obtain ⟨hne, hat, _⟩ := findSub_eq_some_iff.1 hj
  have hle := hat.length_le
  have hpos := length_pos_of_ne_nil hne
  rw [length_drop, length_take] at hle
  omega

theorem findSub_concat (h : findSub needle xs = none) (x : α) :
    findSub needle (xs ++ [x]) =
      if needle ≠ [] ∧ needle <:+ xs ++ [x] then some (xs.length + 1 - needle.length) else none := by
  have hlength : (xs ++ [x]).length = xs.length + 1 := length_append
  cases hfind : findSub needle (xs ++ [x]) with
  | some i =>
    obtain ⟨hne, hat, -⟩ := findSub_eq_some_iff.1 hfind
    have hlt := length_lt_of_findSub_append h hfind
    have hle := hat.length_le
    rw [length_drop] at hle
    have heq : needle = (xs ++ [x]).drop i := hat.eq_of_length (by rw [length_drop]; omega)
    have hpos := length_pos_of_ne_nil hne
    rw [if_pos ⟨hne, heq ▸ drop_suffix i _⟩, Option.some.injEq]
    omega
  | none =>
    rw [if_neg]
    rintro ⟨hne, before, hsuffix⟩
    have hat : findSub needle ((xs ++ [x]).drop before.length) = some 0 := by
      rw [← hsuffix, drop_left]
      exact findSub_eq_some_iff.2 ⟨hne, prefix_rfl, fun j hj => absurd hj (Nat.not_lt_zero j)⟩
    obtain ⟨i, hi⟩ := exists_findSub_of_drop hat
    rw [hfind] at hi
    cases hi

/-- A search that found nothing goes on where a match may have begun. -/
theorem findSub_resume (h : findSub needle xs = none) (ys : List α) :
    findSub needle (xs ++ ys) =
      (findSub needle ((xs ++ ys).drop (xs.length - (needle.length - 1)))).map
      (· + (xs.length - (needle.length - 1))) := by
  cases hfind : findSub needle (xs ++ ys) with
  | some i =>
    have hstart : xs.length - (needle.length - 1) ≤ i := by
      have := length_lt_of_findSub_append h hfind
      omega
    rw [findSub_drop_eq_some hstart hfind, Option.map_some, Nat.sub_add_cancel hstart]
  | none =>
    cases hdrop : findSub needle ((xs ++ ys).drop (xs.length - (needle.length - 1))) with
    | none => rfl
    | some j =>
      obtain ⟨i, hi⟩ := exists_findSub_of_drop hdrop
      rw [hfind] at hi
      cases hi

end

end Rove
