/-
A hash map as what a program can observe of it: finitely many entries with
distinct keys. The order of `entries` stands for the order in which the map
happens to be iterated, which a program must not rely on; `IterOrder` is an
arbitrary such order, for code that iterates a map it has just built.
-/
import Rove.Base.Lists

namespace Rove

open List

/-- `HashMap<K, V>`: entries with distinct keys. -/
structure HashMap (K V : Type) where
  entries : List (K × V)
  nodup : (entries.map Prod.fst).Nodup

namespace HashMap

variable {K V W : Type}

def empty : HashMap K V := ⟨[], nodup_nil⟩

instance : EmptyCollection (HashMap K V) := ⟨empty⟩

def keys (m : HashMap K V) : List K := m.entries.map Prod.fst

def len (m : HashMap K V) : Nat := m.entries.length

variable {m src : HashMap K V} {k : K} {v : V} {es : List (K × V)} {R : K → V → W → Prop}

theorem eq_of_mem {w} (hv : (k, v) ∈ m.entries)
    (hw : (k, w) ∈ m.entries) : v = w := by
  have h := inj_on_of_nodup_map m.nodup hv hw rfl
  simpa using h

theorem ext_entries {m'} (h : m.entries = m'.entries) : m = m' := by
  cases m
  cases m'
  subst h
  rfl

variable [DecidableEq K]

/-- `HashMap::get`. -/
def get? (m : HashMap K V) (k : K) : Option V := (m.entries.find? (·.1 = k)).map (·.2)

def containsKey (m : HashMap K V) (k : K) : Bool := (m.get? k).isSome

/-- `HashMap::remove`, the map that is left. -/
def erase (m : HashMap K V) (k : K) : HashMap K V :=
  ⟨m.entries.filter (·.1 ≠ k), m.nodup.sublist (filter_sublist.map _)⟩

/-- `HashMap::insert`: the new value replaces the old one of that key. -/
def insert (m : HashMap K V) (k : K) (v : V) : HashMap K V where
  entries := (m.erase k).entries ++ [(k, v)]
  nodup := by
    simp only [map_append, map_cons, map_nil]
    refine nodup_append.2 ⟨(m.erase k).nodup, nodup_singleton k, ?_⟩
    intro a ha b hb hab
    simp only [mem_singleton] at hb
    subst hab hb
    simp [erase] at ha

theorem get?_eq_some_iff : m.get? k = some v ↔ (k, v) ∈ m.entries := find?_key_eq_some_iff m.nodup

theorem get?_eq_none_iff : m.get? k = none ↔ ∀ v, (k, v) ∉ m.entries := by
  rw [Option.eq_none_iff_forall_not_mem]
  exact forall_congr' fun v => not_congr (by rw [Option.mem_def, get?_eq_some_iff])

theorem containsKey_iff :
    m.containsKey k = true ↔ ∃ v, m.get? k = some v := by
  rw [containsKey, Option.isSome_iff_exists]

theorem mem_keys_iff : k ∈ m.keys ↔ ∃ v, m.get? k = some v := by
  simp only [keys, mem_map, Prod.exists, get?_eq_some_iff]
  constructor
  · rintro ⟨a, b, h, rfl⟩; exact ⟨b, h⟩
  · rintro ⟨v, h⟩; exact ⟨k, v, h, rfl⟩

@[simp] theorem get?_empty (k : K) : (∅ : HashMap K V).get? k = none := rfl

@[simp] theorem get?_insert_self (m : HashMap K V) (k : K) (v : V) : (m.insert k v).get? k = some v :=
  get?_eq_some_iff.2 (by simp [insert])

theorem get?_insert_ne (m : HashMap K V) {k'} (v : V) (h : k' ≠ k) :
    (m.insert k v).get? k' = m.get? k' := by
  apply Option.ext
  intro w
  rw [get?_eq_some_iff, get?_eq_some_iff]
  simp [insert, erase, h]

theorem get?_insert (m : HashMap K V) (k k' : K) (v : V) :
    (m.insert k v).get? k' = if k' = k then some v else m.get? k' := by
  split
  · next h => subst h; exact get?_insert_self m k' v
  · next h => exact get?_insert_ne m v h

theorem len_insert_of_none (h : m.get? k = none) (v : V) : (m.insert k v).len = m.len + 1 := by
  have herase : (m.erase k).entries = m.entries := by
    refine filter_eq_self.2 fun e he => ?_
    rw [decide_eq_true_eq]
    intro hk
    exact get?_eq_none_iff.1 h e.2 (hk ▸ he)
  rw [len, insert, length_append, herase]
  rfl

theorem perm_erase (h : m.get? k = some v) : m.entries.Perm ((k, v) :: (m.erase k).entries) := by
  have hnodup : m.entries.Nodup := .of_map _ m.nodup
  refine (perm_ext_iff_of_nodup hnodup ?_).2 fun e => ?_
  · refine nodup_cons.2 ⟨fun hmem => ?_, hnodup.filter _⟩
    simpa using (mem_filter.1 hmem).2
  · have hmem := get?_eq_some_iff.1 h
    simp only [erase, mem_cons, mem_filter, decide_eq_true_eq]
    refine ⟨fun he => ?_, fun he => he.elim (fun he => he ▸ hmem) And.left⟩
    by_cases hk : e.1 = k
    · obtain ⟨k', w⟩ := e
      subst hk
      exact .inl (by rw [eq_of_mem he hmem])
    · exact .inr ⟨he, hk⟩

theorem len_erase_of_some (h : m.get? k = some v) : (m.erase k).len + 1 = m.len := (perm_erase h).length_eq.symm

theorem get?_of_erase {k'} (h : (m.erase k).get? k' = some v) : m.get? k' = some v := by
  rw [get?_eq_some_iff] at h ⊢
  exact mem_of_mem_filter h

theorem get?_erase (m : HashMap K V) (k k' : K) : (m.erase k).get? k' = if k' = k then none else m.get? k' := by
  apply Option.ext
  intro v
  rw [get?_eq_some_iff]
  split
  · next h => simp [erase, h]
  · next h =>
    rw [get?_eq_some_iff]
    simp [erase, h]

theorem containsKey_erase (m : HashMap K V) (k k' : K) :
    (m.erase k).containsKey k' = if k' = k then false else m.containsKey k' := by
  rw [containsKey, get?_erase]
  split <;> rfl

theorem containsKey_insert (m : HashMap K V) (k k' : K) (v : V) :
    (m.insert k v).containsKey k' = if k' = k then true else m.containsKey k' := by
  rw [containsKey, get?_insert]
  split <;> rfl

theorem insert_insert (m : HashMap K V) (k : K) (v w : V) : (m.insert k v).insert k w = m.insert k w :=
  ext_entries (by simp [insert, erase, filter_append, filter_filter])

theorem erase_insert_empty (k : K) (v : V) : ((∅ : HashMap K V).insert k v).erase k = ∅ :=
  ext_entries (by simp [erase, insert, EmptyCollection.emptyCollection, empty])

def retain (m : HashMap K V) (p : K → V → Bool) : HashMap K V where
  entries := m.entries.filter fun e => p e.1 e.2
  nodup := m.nodup.sublist (filter_sublist.map Prod.fst)

theorem get?_retain (m : HashMap K V) (p : K → V → Bool) (k : K) : (m.retain p).get? k = (m.get? k).filter (p k) := by
  ext v
  rw [get?_eq_some_iff, Option.filter_eq_some_iff, get?_eq_some_iff, retain, mem_filter]

/-! ## Filling a map from a list of entries -/

/-- What a map holds after entries were put in is one of them, or was there before. -/
theorem get?_foldl_insert
    (h : (es.foldl (fun m e => m.insert e.1 e.2) m).get? k = some v) : m.get? k = some v ∨ (k, v) ∈ es := by
  induction es generalizing m with
  | nil => exact .inl h
  | cons e es ih =>
    rcases ih h with h | h
    · rw [get?_insert] at h
      split at h
      · next heq =>
        cases h
        exact .inr (heq ▸ mem_cons_self)
      · exact .inl h
    · exact .inr (mem_cons_of_mem _ h)

/-- A map filled from entries with distinct keys holds just these. -/
theorem get?_foldl_insert_iff (hd : (es.map Prod.fst).Nodup) :
    (es.foldl (fun m e => m.insert e.1 e.2) (∅ : HashMap K V)).get? k = some v ↔ (k, v) ∈ es := by
  have hkeep : ∀ (es : List (K × V)) (m : HashMap K V), k ∉ es.map Prod.fst →
      (es.foldl (fun m e => m.insert e.1 e.2) m).get? k = m.get? k := by
    intro es
    induction es with
    | nil => intro m _; rfl
    | cons e es ih =>
      intro m hk
      rw [map_cons, mem_cons, not_or] at hk
      rw [foldl_cons, ih _ hk.2, get?_insert_ne _ _ hk.1]
  have hmem : ∀ (es : List (K × V)) (m : HashMap K V), (es.map Prod.fst).Nodup → (k, v) ∈ es →
      (es.foldl (fun m e => m.insert e.1 e.2) m).get? k = some v := by
    intro es
    induction es with
    | nil => intro m _ hm; cases hm
    | cons e es ih =>
      intro m hd hm
      rw [map_cons, nodup_cons] at hd
      rcases mem_cons.1 hm with rfl | hm
      · rw [foldl_cons, hkeep es _ hd.1, get?_insert_self]
      · exact ih _ hd.2 hm
  exact ⟨fun h => (get?_foldl_insert h).resolve_left (by simp), hmem es ∅ hd⟩

/-- A map from what distinct elements of a list are called to where they stand. -/
theorem get?_foldl_zipIdx {α : Type} {f : α → K} {g : Nat → V} {l : List α} (hd : (l.map f).Nodup) {k : K} {v : V} :
    (l.zipIdx.foldl (fun m e => m.insert (f e.1) (g e.2)) (∅ : HashMap K V)).get? k = some v ↔
      ∃ i a, l[i]? = some a ∧ f a = k ∧ g i = v := by
  have hfold : l.zipIdx.foldl (fun m e => m.insert (f e.1) (g e.2)) (∅ : HashMap K V) =
      (l.zipIdx.map fun e => (f e.1, g e.2)).foldl (fun m e => m.insert e.1 e.2) ∅ := by
    rw [foldl_map]
  have hkeys : ((l.zipIdx.map fun e => (f e.1, g e.2)).map Prod.fst).Nodup := by
    have hfst : (l.zipIdx.map fun e => (f e.1, g e.2)).map Prod.fst = (l.zipIdx.map Prod.fst).map f := by
      rw [map_map, map_map]
      rfl
    rwa [hfst, zipIdx_map_fst]
  rw [hfold, get?_foldl_insert_iff hkeys, mem_map]
  simp only [Prod.exists, mem_zipIdx_iff_getElem?, Prod.mk.injEq]
  exact exists_comm

/-- `m` is `base` with a value put in for every entry of `es`, which `R`
relates to the entry. -/
def Filled (R : K → V → W → Prop) (es : List (K × V)) (base m : HashMap K W) : Prop :=
  ∀ k, (∃ v w, (k, v) ∈ es ∧ m.get? k = some w ∧ R k v w) ∨
    ((∀ v, (k, v) ∉ es) ∧ m.get? k = base.get? k)

theorem Filled.nil {base} : Filled R [] base base :=
  fun _ => .inr ⟨fun _ => by simp, rfl⟩

theorem Filled.cons {base m w}
    (hk : k ∉ es.map Prod.fst) (hR : R k v w) (h : Filled R es (base.insert k w) m) :
    Filled R ((k, v) :: es) base m := by
  intro k'
  rcases h k' with ⟨v', w', hm, hg, hr⟩ | ⟨hno, hg⟩
  · exact .inl ⟨v', w', mem_cons_of_mem _ hm, hg, hr⟩
  · by_cases hkk : k' = k
    · subst hkk
      exact .inl ⟨v, w, mem_cons_self, by rw [hg, get?_insert_self], hR⟩
    · refine .inr ⟨fun v' hm => ?_, by rw [hg, get?_insert_ne _ _ hkk]⟩
      rcases mem_cons.1 hm with he | hm
      · exact hkk (congrArg Prod.fst he)
      · exact hno v' hm

theorem Filled.imp {R' : K → V → W → Prop} {base m} (h : Filled R es base m) (himp : ∀ k v w, R k v w → R' k v w) :
    Filled R' es base m := by
  intro k
  rcases h k with ⟨v, w, hm, hg, hr⟩ | hno
  · exact .inl ⟨v, w, hm, hg, himp k v w hr⟩
  · exact .inr hno

theorem Filled.perm {es' base m} (hp : es.Perm es')
    (h : Filled R es base m) : Filled R es' base m := by
  intro k
  simpa only [hp.mem_iff] using h k

theorem Filled.get?_eq_some {m w}
    (h : Filled R src.entries ∅ m) (hg : m.get? k = some w) : ∃ v, src.get? k = some v ∧ R k v w := by
  rcases h k with ⟨v, w', hm, hg', hr⟩ | ⟨-, hg'⟩
  · obtain rfl := Option.some.inj (hg'.symm.trans hg)
    exact ⟨v, get?_eq_some_iff.2 hm, hr⟩
  · rw [hg, get?_empty] at hg'
    cases hg'

theorem Filled.exists_get? {base m}
    (h : Filled R src.entries base m) (hg : src.get? k = some v) : ∃ w, m.get? k = some w ∧ R k v w := by
  rcases h k with ⟨v', w, hm, hg', hr⟩ | ⟨hno, -⟩
  · obtain rfl := eq_of_mem hm (get?_eq_some_iff.1 hg)
    exact ⟨w, hg', hr⟩
  · exact absurd (get?_eq_some_iff.1 hg) (hno v)

theorem Filled.get?_of_none {base m}
    (h : Filled R src.entries base m) (hg : src.get? k = none) : m.get? k = base.get? k := by
  rcases h k with ⟨v, w, hm, -, -⟩ | ⟨-, hg'⟩
  · rw [get?_eq_some_iff.2 hm] at hg
    cases hg
  · exact hg'

end HashMap

structure IterOrder where
  run : {α : Type} → List α → List α
  perm : ∀ {α : Type} (l : List α), (run l).Perm l

namespace IterOrder

@[simp] theorem mem_run (o : IterOrder) {α : Type} {l : List α} {a : α} : a ∈ o.run l ↔ a ∈ l :=
  (o.perm l).mem_iff

/-- Entries in the order in which they are kept. -/
def keep : IterOrder := ⟨id, fun _ => List.Perm.refl _⟩

end IterOrder

end Rove
