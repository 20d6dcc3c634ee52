/-
Ordered maps and sets: `BTreeMap` and `BTreeSet`, as entries in strictly
ascending key order, which is the order they are iterated in.
-/
import Mathlib.Order.Lattice
import Mathlib.Data.List.Pairwise
import Rove.Base.Lists

namespace Rove

open List

/-- `BTreeMap<K, V>`: entries in ascending key order. -/
structure BTreeMap (K V : Type) [LinearOrder K] where
  entries : List (K × V)
  sorted : entries.Pairwise (·.1 < ·.1)

namespace BTreeMap

variable {K V : Type} [LinearOrder K]

/-- Replace the value of a key by `f` of it, in a list of ascending keys. -/
def alterList (k : K) (f : Option V → V) : List (K × V) → List (K × V)
  | [] => [(k, f none)]
  | (k', v) :: es =>
    if k < k' then (k, f none) :: (k', v) :: es
    else if k = k' then (k', f (some v)) :: es
    else (k', v) :: alterList k f es

variable {k : K} {es : List (K × V)} {m : BTreeMap K V}

theorem mem_alterList {f e}
    (he : e ∈ alterList k f es) : e.1 = k ∨ e ∈ es := by
  induction es with
  | nil =>
    rw [alterList, mem_singleton] at he
    exact .inl (by rw [he])
  | cons a es ih =>
    obtain ⟨k', v⟩ := a
    rw [alterList] at he
    split at he
    · rcases mem_cons.1 he with rfl | he
      · exact .inl rfl
      · exact .inr he
    · split at he
      · next _ hk =>
        rcases mem_cons.1 he with rfl | he
        · exact .inl hk.symm
        · exact .inr (mem_cons_of_mem _ he)
      · rcases mem_cons.1 he with rfl | he
        · exact .inr (by simp)
        · exact (ih he).imp_right (mem_cons_of_mem _)

theorem sorted_alterList {f}
    (h : es.Pairwise (·.1 < ·.1)) : (alterList k f es).Pairwise (·.1 < ·.1) := by
  induction es with
  | nil => simp [alterList]
  | cons a es ih =>
    obtain ⟨k', v⟩ := a
    obtain ⟨ha, hes⟩ := pairwise_cons.1 h
    rw [alterList]
    split
    · next hk =>
      refine pairwise_cons.2 ⟨fun e he => ?_, h⟩
      rcases mem_cons.1 he with rfl | he
      · exact hk
      · exact lt_trans hk (ha e he)
    · split
      · exact pairwise_cons.2 ⟨ha, hes⟩
      · next h1 h2 =>
        refine pairwise_cons.2 ⟨fun e he => ?_, ih hes⟩
        rcases mem_alterList he with hk | he
        · rw [hk]
          exact lt_of_le_of_ne (not_lt.1 h1) (Ne.symm h2)
        · exact ha e he

def empty : BTreeMap K V := ⟨[], List.Pairwise.nil⟩

/-- `entry(k)`, with the value then replaced by `f` of it. -/
def alter (m : BTreeMap K V) (k : K) (f : Option V → V) : BTreeMap K V :=
  ⟨alterList k f m.entries, sorted_alterList m.sorted⟩

/-- `BTreeMap::get`. -/
def get? (m : BTreeMap K V) (k : K) : Option V := (m.entries.find? (·.1 = k)).map (·.2)

def keys (m : BTreeMap K V) : List K := m.entries.map (·.1)

theorem nodup_keys (m : BTreeMap K V) : m.keys.Nodup :=
  pairwise_map.2 (m.sorted.imp fun h => ne_of_lt h)

theorem get?_eq_some_iff {v} : m.get? k = some v ↔ (k, v) ∈ m.entries := find?_key_eq_some_iff m.nodup_keys

theorem find?_eq_none_of_lt (h : ∀ e ∈ es, k < e.1) :
    es.find? (·.1 = k) = none :=
  find?_eq_none.2 fun e he => by simpa using (ne_of_lt (h e he)).symm

theorem get?_alter (m : BTreeMap K V) (k k' : K) (f : Option V → V) :
    (m.alter k f).get? k' = if k' = k then some (f (m.get? k)) else m.get? k' := by
  obtain ⟨es, hs⟩ := m
  simp only [alter, get?]
  induction es with
  | nil =>
    by_cases h : k' = k
    · simp [alterList, h]
    · simp [alterList, h, Ne.symm h]
  | cons e es ih =>
    obtain ⟨a, v⟩ := e
    obtain ⟨ha, hes⟩ := pairwise_cons.1 hs
    rw [alterList]
    split
    · next hk =>
      have hnone : ((a, v) :: es).find? (·.1 = k) = none := by
        refine find?_eq_none_of_lt fun e he => ?_
        rcases mem_cons.1 he with rfl | he
        · exact hk
        · exact lt_trans hk (ha e he)
      rw [hnone, find?_cons]
      by_cases h : k' = k
      · simp [h]
      · simp [h, Ne.symm h]
    · split
      · next _ hka =>
        subst hka
        by_cases h : k' = k
        · simp [h]
        · simp [h, Ne.symm h]
      · next h1 h2 =>
        by_cases hk' : a = k'
        · subst hk'
          simp [Ne.symm h2]
        · simpa [hk', Ne.symm h2] using ih hes

theorem mem_keys_iff : k ∈ m.keys ↔ ∃ v, m.get? k = some v := by
  simp only [keys, mem_map, Prod.exists, get?_eq_some_iff]
  refine ⟨fun h => ?_, fun h => ?_⟩
  · obtain ⟨_, v, hm, rfl⟩ := h
    exact ⟨v, hm⟩
  · obtain ⟨v, hm⟩ := h
    exact ⟨k, v, hm, rfl⟩

theorem sorted_keys (m : BTreeMap K V) : m.keys.Pairwise (· < ·) := pairwise_map.2 m.sorted

@[simp] theorem get?_empty (k : K) : (empty : BTreeMap K V).get? k = none := rfl

@[ext] theorem ext {m'} (h : ∀ k, m.get? k = m'.get? k) : m = m' := by
  have hmem : ∀ e, e ∈ m.entries ↔ e ∈ m'.entries := by
    intro e
    rw [← get?_eq_some_iff (k := e.1), ← get?_eq_some_iff (k := e.1), h]
  have hentries : m.entries = m'.entries := by
    refine ((perm_ext_iff_of_nodup (List.Nodup.of_map _ m.nodup_keys)
        (List.Nodup.of_map _ m'.nodup_keys)).2 hmem).eq_of_pairwise
      (fun a b _ _ hab hba => ?_) m.sorted m'.sorted
    exact absurd hab (lt_asymm hba)
  cases m
  cases m'
  congr

/-- `BTreeMap::remove`, the map that is left. -/
def erase (m : BTreeMap K V) (k : K) : BTreeMap K V :=
  ⟨m.entries.filter (·.1 ≠ k), m.sorted.sublist filter_sublist⟩

theorem get?_erase (m : BTreeMap K V) (k k' : K) : (m.erase k).get? k' = if k' = k then none else m.get? k' := by
  apply Option.ext
  intro v
  rw [get?_eq_some_iff, erase, mem_filter]
  split
  · next h => simp [h]
  · next h => simp [h, get?_eq_some_iff]

end BTreeMap

/-- `BTreeSet<K>`. -/
abbrev BTreeSet (K : Type) [LinearOrder K] := BTreeMap K Unit

namespace BTreeSet

variable {K : Type} [LinearOrder K]

def insert (s : BTreeSet K) (k : K) : BTreeSet K := s.alter k fun _ => ()

def elems (s : BTreeSet K) : List K := s.keys

variable {s : BTreeSet K}

theorem mem_elems_iff {k} : k ∈ s.elems ↔ s.get? k = some () := by
  rw [elems, BTreeMap.mem_keys_iff]
  exact ⟨fun h => h.choose_spec, fun h => ⟨(), h⟩⟩

theorem mem_insert {k k'} : k' ∈ (s.insert k).elems ↔ k' = k ∨ k' ∈ s.elems := by
  rw [mem_elems_iff, mem_elems_iff, insert, BTreeMap.get?_alter]
  split
  · next h => simp [h]
  · next h => simp [h]

theorem mem_foldl_insert {ks : List K} {k : K} :
    k ∈ (ks.foldl insert s).elems ↔ k ∈ ks ∨ k ∈ s.elems := by
  induction ks generalizing s with
  | nil => simp
  | cons a ks ih =>
    rw [foldl_cons, ih, mem_insert, mem_cons]
    tauto

theorem nodup_elems (s : BTreeSet K) : s.elems.Nodup := s.nodup_keys

theorem place_unique (s : BTreeSet K) {i j : Nat} {k : K} (hi : s.elems[i]? = some k)
    (hj : s.elems[j]? = some k) : i = j :=
  (List.getElem?_inj (List.getElem?_eq_some_iff.1 hi).1 s.nodup_elems).1 (hi.trans hj.symm)

theorem sorted_elems (s : BTreeSet K) : s.elems.Pairwise (· < ·) := s.sorted_keys

theorem ext_elems {t} (h : ∀ k, k ∈ s.elems ↔ k ∈ t.elems) : s = t := by
  refine BTreeMap.ext fun k => Option.ext fun u => ?_
  have := h k
  rwa [mem_elems_iff, mem_elems_iff] at this

end BTreeSet

/-- `BTreeMap<K, BTreeSet<V>>` that is filled only by
`entry(k).or_default().insert(v)`: no key has the empty set. -/
structure BTreeMultimap (K V : Type) [LinearOrder K] [LinearOrder V] where
  sets : BTreeMap K (BTreeSet V)
  nonempty : ∀ k s, sets.get? k = some s → s.elems ≠ []

namespace BTreeMultimap

variable {K V : Type} [LinearOrder K] [LinearOrder V]

def empty : BTreeMultimap K V := ⟨.empty, fun _ _ h => by cases h⟩

/-- `entry(k).or_default().insert(v)`. -/
def insert (m : BTreeMultimap K V) (k : K) (v : V) : BTreeMultimap K V where
  sets := m.sets.alter k fun s => (s.getD .empty).insert v
  nonempty := by
    intro k' s hs
    rw [BTreeMap.get?_alter] at hs
    split at hs
    · rw [← Option.some.inj hs]
      exact ne_nil_of_mem (BTreeSet.mem_insert.2 (.inl rfl))
    · exact m.nonempty k' s hs

/-- The value is among those of the key. -/
def Holds (m : BTreeMultimap K V) (k : K) (v : V) : Prop := ∃ s, m.sets.get? k = some s ∧ v ∈ s.elems

theorem not_holds_empty (k : K) (v : V) : ¬ (empty : BTreeMultimap K V).Holds k v := by
  intro h
  obtain ⟨_, h, -⟩ := h
  cases h

theorem holds_insert {m : BTreeMultimap K V} {k k' : K} {v v' : V} :
    (m.insert k v).Holds k' v' ↔ (k' = k ∧ v' = v) ∨ m.Holds k' v' := by
  unfold Holds insert
  simp only [BTreeMap.get?_alter]
  by_cases hk : k' = k
  · subst hk
    simp only [if_true, Option.some.injEq, exists_eq_left', BTreeSet.mem_insert, true_and]
    cases m.sets.get? k' with
    | none => simp [BTreeSet.elems, BTreeMap.keys, BTreeMap.empty]
    | some s => simp
  · simp [hk]

theorem ext_holds {m m' : BTreeMultimap K V} (h : ∀ k v, m.Holds k v ↔ m'.Holds k v) : m = m' := by
  have hsome : ∀ {m m' : BTreeMultimap K V}, (∀ k v, m.Holds k v ↔ m'.Holds k v) → ∀ k s, m.sets.get? k = some s →
      m'.sets.get? k = some s := by
    intro m m' h k s hs
    obtain ⟨v, hv⟩ := exists_mem_of_ne_nil _ (m.nonempty k s hs)
    obtain ⟨s', hs', -⟩ := (h k v).1 ⟨s, hs, hv⟩
    rw [hs', Option.some.injEq]
    refine BTreeSet.ext_elems fun w => ?_
    have hw := h k w
    simp only [Holds, hs, hs', Option.some.injEq, exists_eq_left'] at hw
    exact hw.symm
  have hsets : m.sets = m'.sets := BTreeMap.ext fun k => Option.ext fun s =>
    ⟨hsome h k s, hsome (fun k v => (h k v).symm) k s⟩
  cases m
  cases m'
  congr

end BTreeMultimap

end Rove
