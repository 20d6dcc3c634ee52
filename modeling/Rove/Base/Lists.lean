/-
Facts about lists that the developments over texts and tables share.
-/
import Mathlib.Data.List.Infix
import Mathlib.Data.List.Forall2
import Mathlib.Data.List.Nodup

namespace Rove

open List

/-- Looking up a key among entries with distinct keys. -/
theorem find?_key_eq_some_iff {K V : Type} [DecidableEq K] {es : List (K × V)} (hnodup : (es.map Prod.fst).Nodup)
    {k : K} {v : V} : (es.find? (·.1 = k)).map (·.2) = some v ↔ (k, v) ∈ es := by
  rw [Option.map_eq_some_iff]
  constructor
  · rintro ⟨⟨k', v'⟩, hf, rfl⟩
    obtain rfl : k' = k := by simpa using find?_some hf
    exact mem_of_find?_eq_some hf
  · intro h
    cases hf : es.find? (·.1 = k) with
    | none => simpa using find?_eq_none.1 hf (k, v) h
    | some p =>
      have hk : p.1 = k := by simpa using find?_some hf
      exact ⟨p, rfl, congrArg Prod.snd (inj_on_of_nodup_map hnodup (mem_of_find?_eq_some hf) h hk)⟩

/-- The nonempty prefixes of a list are its initial segments but the first. -/
theorem mem_tail_inits {α : Type} {p q : List α} : q ∈ p.inits.tail ↔ q ≠ [] ∧ q <+: p := by
  cases p with
  | nil => simp +contextual [List.inits]
  | cons a p =>
    simp only [List.inits, tail_cons, mem_map, mem_inits]
    constructor
    · rintro ⟨r, hr, rfl⟩
      exact ⟨by simp, cons_prefix_cons.2 ⟨rfl, hr⟩⟩
    · rintro ⟨hq, hp⟩
      cases q with
      | nil => exact absurd rfl hq
      | cons b q =>
        obtain ⟨rfl, hq'⟩ := cons_prefix_cons.1 hp
        exact ⟨q, hq', rfl⟩

/-- Two predicates first hold at the same position exactly when the first
element that either holds of has both, or there is none. -/
theorem findIdx?_eq_findIdx?_iff {α : Type} (p q : α → Bool) (l : List α) :
    l.findIdx? p = l.findIdx? q ↔ (l.find? fun x => p x || q x).all (fun x => p x && q x) = true := by
  induction l with
  | nil => simp
  | cons a l ih =>
    rw [findIdx?_cons, findIdx?_cons, find?_cons]
    cases hp : p a <;> cases hq : q a
    · simpa [Option.map_inj_right] using ih
    · cases l.findIdx? p <;> simp [hp]
    · cases l.findIdx? q <;> simp [hq]
    · simp [hp, hq]

theorem find?_eq_some_of_unique {α : Type} {l : List α} {p : α → Bool} {a : α} (ha : a ∈ l) (hp : p a = true)
    (huniq : ∀ b ∈ l, p b = true → b = a) : l.find? p = some a := by
  cases hf : l.find? p with
  | none => exact absurd hp (by simpa using find?_eq_none.1 hf a ha)
  | some b => rw [huniq b (mem_of_find?_eq_some hf) (find?_some hf)]

/-- `Iterator::max_by_key`: the last of the greatest. -/
def maxByKey {α : Type} (key : α → Nat) (l : List α) : Option α :=
  l.foldl (fun best x => some (best.elim x fun b => if key b ≤ key x then x else b)) none

theorem maxByKey_append_singleton {α : Type} (key : α → Nat) (l : List α) (x : α) :
    maxByKey key (l ++ [x]) = some ((maxByKey key l).elim x fun b => if key b ≤ key x then x else b) := by
  rw [maxByKey, foldl_append]
  rfl

/-- What `max_by_key` gives over the elements with a property: one of them that
none exceeds, and none after it equals. -/
theorem maxByKey_filter {α : Type} (key : α → Nat) (c : α → Bool) (l : List α) :
    (maxByKey key (l.filter c) = none ∧ ∀ x ∈ l, c x = false) ∨
      ∃ (i : Nat) (m : α), maxByKey key (l.filter c) = some m ∧ l[i]? = some m ∧ c m = true ∧
        ∀ (j : Nat) (x : α), l[j]? = some x → c x = true → key x ≤ key m ∧ (key x = key m → j ≤ i) := by
  induction l using List.reverseRecOn with
  | nil => exact .inl ⟨rfl, by simp⟩
  | append_singleton l x ih =>
    -- the last element of the longer list, or one of the shorter
    have hlast : ∀ {j : Nat} {y : α}, (l ++ [x])[j]? = some y → l[j]? = some y ∨ (j = l.length ∧ y = x) := by
      intro j y h
      rcases Nat.lt_or_ge j l.length with hj | hj
      · rw [getElem?_append_left hj] at h
        exact .inl h
      · rw [getElem?_append_right hj] at h
        obtain ⟨hlt, rfl⟩ := List.getElem?_eq_some_iff.1 h
        have hzero : j - l.length = 0 := Nat.lt_one_iff.1 hlt
        exact .inr ⟨by omega, by simp only [hzero, getElem_cons_zero]⟩
    have hkeep : ∀ {j : Nat} {y : α}, l[j]? = some y → (l ++ [x])[j]? = some y := fun h =>
      (List.getElem?_append_left (List.getElem?_eq_some_iff.1 h).1).trans h
    have hnew : (l ++ [x])[l.length]? = some x := by rw [getElem?_concat_length]
    rw [filter_append]
    cases hc : c x with
    | false =>
      rw [filter_cons_of_neg (by simp [hc]), filter_nil, append_nil]
      rcases ih with ⟨hnone, hall⟩ | ⟨i, m, hm, hi, hcm, hmax⟩
      · exact .inl ⟨hnone, by rw [forall_mem_append]; exact ⟨hall, by simpa using hc⟩⟩
      · refine .inr ⟨i, m, hm, hkeep hi, hcm, fun j y hj hy => ?_⟩
        rcases hlast hj with hj | ⟨_, rfl⟩
        · exact hmax j y hj hy
        · rw [hc] at hy
          cases hy
    | true =>
      rw [filter_cons_of_pos hc, filter_nil, maxByKey_append_singleton]
      rcases ih with ⟨hnone, hall⟩ | ⟨i, m, hm, hi, hcm, hmax⟩
      · refine .inr ⟨l.length, x, by rw [hnone]; rfl, hnew, hc, fun j y hj hy => ?_⟩
        rcases hlast hj with hj | ⟨rfl, rfl⟩
        · rw [hall y (mem_of_getElem? hj)] at hy
          cases hy
        · exact ⟨Nat.le_refl _, fun _ => Nat.le_refl _⟩
      · rw [hm, Option.elim_some]
        by_cases hle : key m ≤ key x
        · rw [if_pos hle]
          refine .inr ⟨l.length, x, rfl, hnew, hc, fun j y hj hy => ?_⟩
          rcases hlast hj with hj | ⟨rfl, rfl⟩
          · exact ⟨Nat.le_trans (hmax j y hj hy).1 hle, fun _ => (List.getElem?_eq_some_iff.1 hj).1.le⟩
          · exact ⟨Nat.le_refl _, fun _ => Nat.le_refl _⟩
        · rw [if_neg hle]
          refine .inr ⟨i, m, rfl, hkeep hi, hcm, fun j y hj hy => ?_⟩
          rcases hlast hj with hj | ⟨rfl, rfl⟩
          · exact hmax j y hj hy
          · exact ⟨(Nat.lt_of_not_le hle).le, fun heq => absurd heq.ge hle⟩

theorem Forall₂.exists_of_mem_left {α β : Type} {R : α → β → Prop} {l : List α} {l' : List β} (h : List.Forall₂ R l l')
    {a : α} (ha : a ∈ l) : ∃ b ∈ l', R a b := by
  induction h with
  | nil => cases ha
  | cons hab _ ih =>
    rcases mem_cons.1 ha with rfl | ha
    · exact ⟨_, mem_cons_self, hab⟩
    · obtain ⟨b, hb, hr⟩ := ih ha
      exact ⟨b, mem_cons_of_mem _ hb, hr⟩

theorem Forall₂.exists_of_mem_right {α β : Type} {R : α → β → Prop} {l : List α} {l' : List β} (h : List.Forall₂ R l l')
    {b : β} (hb : b ∈ l') : ∃ a ∈ l, R a b :=
  Forall₂.exists_of_mem_left h.flip hb

theorem eq_or_mem_eraseIdx {α : Type} {l : List α} {k : Nat} {a b : α} (hk : l[k]? = some a) (hb : b ∈ l) :
    b = a ∨ b ∈ l.eraseIdx k := by
  obtain ⟨j, hj⟩ := mem_iff_getElem?.1 hb
  by_cases hjk : j = k
  · rw [hjk, hk] at hj
    exact .inl (Option.some.inj hj).symm
  · exact .inr (mem_eraseIdx_iff_getElem?.2 ⟨j, hjk, hj⟩)

end Rove
