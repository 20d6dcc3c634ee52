/-
A trie: values stored under paths, one level of a node per step of a path.
`update` sets the value at the end of a path, creating the nodes on the way;
`foldAlong` walks a path from the root and visits the values it passes, until
a step leaves the trie; `walk` lists every stored path with its value.

All three are said in terms of `lookup`, the value stored under a path:
`lookup_update`, `foldAlong_eq` and `mem_walk`.
-/
import Rove.Base.Lists

namespace Rove

open List

/-- The children of a trie node: a map from the next step to the child, whose
value and own children are held in place. -/
inductive Children (K V : Type) where
  | nil
  | cons (label : K) (val : Option V) (sub : Children K V) (rest : Children K V)

/-- A trie node: the value stored here, if any, and the children. -/
structure Trie (K V : Type) where
  val : Option V
  children : Children K V

namespace Children

variable {K V : Type} [DecidableEq K]

def get? (l : K) : Children K V → Option (Trie K V)
  | nil => none
  | cons k v sub rest => if k = l then some ⟨v, sub⟩ else get? l rest

/-- `entry(l).or_default()`, with the child then replaced by `g` of it. -/
def entry (l : K) (g : Trie K V → Trie K V) : Children K V → Children K V
  | nil => cons l (g ⟨none, nil⟩).val (g ⟨none, nil⟩).children nil
  | cons k v sub rest =>
    if k = l then cons k (g ⟨v, sub⟩).val (g ⟨v, sub⟩).children rest
    else cons k v sub (entry l g rest)

/-- The labels, in the order the children are kept. -/
def labels : Children K V → List K
  | nil => []
  | cons k _ _ rest => k :: labels rest

/-- Labels are distinct, at every level. -/
def WF : Children K V → Prop
  | nil => True
  | cons k _ sub rest => k ∉ labels rest ∧ WF sub ∧ WF rest

/-- Every stored value with the labels that lead to it, the last one first;
`path` is the labels above, likewise. -/
def walk (path : List K) : Children K V → List (List K × V)
  | nil => []
  | cons k v sub rest =>
    v.toList.map (fun a => (k :: path, a)) ++ walk (k :: path) sub ++ walk path rest

theorem get?_entry (l : K) (g : Trie K V → Trie K V) (t : Children K V) (l' : K) :
    (t.entry l g).get? l' = if l' = l then some (g ((t.get? l).getD ⟨none, nil⟩)) else t.get? l' := by
  induction t with
  | nil =>
    by_cases h : l' = l
    · simp [entry, get?, h]
    · simp [entry, get?, h, Ne.symm h]
  | cons k v sub rest _ ih =>
    by_cases hk : k = l
    · subst hk
      by_cases h : l' = k
      · simp [entry, get?, h]
      · simp [entry, get?, h, Ne.symm h]
    · by_cases h : k = l'
      · subst h
        simp [entry, get?, hk]
      · simp [entry, get?, hk, h, ih]

theorem mem_labels_entry (l : K) (g : Trie K V → Trie K V) (t : Children K V) (k : K) :
    k ∈ (t.entry l g).labels ↔ k = l ∨ k ∈ t.labels := by
  induction t with
  | nil => simp [entry, labels]
  | cons k' v sub rest _ ih =>
    by_cases hk : k' = l
    · simp [entry, labels, hk]
    · simp only [entry, hk, if_false, labels, mem_cons, ih]
      tauto

theorem WF.entry {l : K} {g : Trie K V → Trie K V} {t : Children K V} (h : t.WF)
    (hg : ∀ n : Trie K V, n.children.WF → (g n).children.WF) : (t.entry l g).WF := by
  induction t with
  | nil => exact ⟨by simp [labels], hg _ trivial, trivial⟩
  | cons k v sub rest _ ih =>
    obtain ⟨hk, hs, hr⟩ := h
    by_cases hkl : k = l
    · simp only [Children.entry, hkl, if_true]
      exact ⟨hkl ▸ hk, hg _ hs, hr⟩
    · simp only [Children.entry, hkl, if_false]
      refine ⟨?_, hs, ih hr⟩
      rw [mem_labels_entry]
      exact fun hm => hm.elim hkl hk

theorem get?_eq_none_of_not_mem {l : K} {t : Children K V} (h : l ∉ t.labels) : t.get? l = none := by
  induction t with
  | nil => rfl
  | cons k v sub rest _ ih =>
    simp only [labels, mem_cons, not_or] at h
    simp [get?, Ne.symm h.1, ih h.2]

end Children

namespace Trie

variable {K V : Type} [DecidableEq K]

def empty : Trie K V := ⟨none, .nil⟩

/-- Replace the value at the end of a path by `f` of it. -/
def update (f : Option V → V) : List K → Trie K V → Trie K V
  | [], n => ⟨some (f n.val), n.children⟩
  | l :: ls, n => ⟨n.val, n.children.entry l (update f ls)⟩

def lookup : List K → Trie K V → Option V
  | [], n => n.val
  | l :: ls, n => (n.children.get? l).bind (lookup ls)

/-- Walk down a path and fold the values met, the root's left out. The walk
ends where the path leaves the trie. -/
def foldAlong {A : Type} (step : A → V → A) : List K → Trie K V → A → A
  | [], _, acc => acc
  | l :: ls, n, acc =>
    match n.children.get? l with
    | some child => foldAlong step ls child (child.val.elim acc (step acc))
    | none => acc

/-- Labels are distinct at every level. -/
def WF (n : Trie K V) : Prop := n.children.WF

theorem lookup_empty (p : List K) : lookup p (empty : Trie K V) = none := by
  cases p <;> rfl

theorem WF.update {f : Option V → V} {p : List K} {n : Trie K V} (h : n.WF) : (update f p n).WF := by
  induction p generalizing n with
  | nil => exact h
  | cons l ls ih => exact Children.WF.entry h fun _ hn => ih hn

/-- Updating a path changes the value stored under it and no other. -/
theorem lookup_update (f : Option V → V) (p q : List K) (n : Trie K V) :
    lookup q (update f p n) = if q = p then some (f (lookup p n)) else lookup q n := by
  induction p generalizing q n with
  | nil =>
    cases q with
    | nil => simp [update, lookup]
    | cons l q => simp [update, lookup]
  | cons l p ih =>
    cases q with
    | nil => simp [update, lookup]
    | cons l' q =>
      simp only [update, lookup, Children.get?_entry]
      by_cases hl : l' = l
      · subst hl
        simp only [if_true, Option.bind_some, ih, List.cons.injEq, true_and]
        cases hc : n.children.get? l' with
        | some c => simp
        | none => simp [show (⟨none, .nil⟩ : Trie K V) = empty from rfl, lookup_empty]
      · simp [hl]

/-- The values under the nonempty prefixes of a path, shortest first. -/
def along (p : List K) (n : Trie K V) : List V := p.inits.tail.filterMap (lookup · n)

theorem mem_along {p : List K} {n : Trie K V} {v : V} :
    v ∈ along p n ↔ ∃ q, q ≠ [] ∧ q <+: p ∧ lookup q n = some v := by
  simp only [along, mem_filterMap, mem_tail_inits, and_assoc]

theorem along_cons (l : K) (ls : List K) (n : Trie K V) :
    along (l :: ls) n =
      match n.children.get? l with
      | some child => child.val.toList ++ along ls child
      | none => [] := by
  simp only [along, List.inits, tail_cons, filterMap_map]
  cases hc : n.children.get? l with
  | none =>
    refine filterMap_eq_nil_iff.2 fun q _ => ?_
    simp [lookup, hc]
  | some child =>
    have hfun : ((fun x => lookup x n) ∘ fun t => l :: t) = (lookup · child) := by
      funext q
      simp [lookup, hc]
    rw [hfun]
    cases ls with
    | nil => cases hv : child.val <;> simp [List.inits, lookup, hv]
    | cons a ls => cases hv : child.val <;> simp [List.inits, lookup, hv]

/-- Walking down a path folds the values under its nonempty prefixes. -/
theorem foldAlong_eq {A : Type} (step : A → V → A) (p : List K) (n : Trie K V) (acc : A) :
    foldAlong step p n acc = (along p n).foldl step acc := by
  induction p generalizing n acc with
  | nil => simp [foldAlong, along, List.inits]
  | cons l ls ih =>
    rw [foldAlong, along_cons]
    cases hc : n.children.get? l with
    | none => rfl
    | some child =>
      simp only [ih, foldl_append]
      cases child.val <;> rfl

/-- What `Children.walk` lists is what is stored under a nonempty path. -/
theorem mem_walk {t : Children K V} (h : t.WF) {path p : List K} {v : V} :
    (p, v) ∈ t.walk path ↔
      ∃ q, q ≠ [] ∧ p = q.reverse ++ path ∧ lookup q (⟨none, t⟩ : Trie K V) = some v := by
  induction t generalizing path with
  | nil =>
    simp only [Children.walk, not_mem_nil, false_iff]
    rintro ⟨q, hq, -, hl⟩
    cases q with
    | nil => exact hq rfl
    | cons l q => simp [lookup, Children.get?] at hl
  | cons k w sub rest ihs ihr =>
    obtain ⟨hk, hs, hr⟩ := h
    simp only [Children.walk, mem_append, mem_map, Option.mem_toList, Prod.mk.injEq,
      ihs hs, ihr hr]
    constructor
    · rintro ((⟨a, ha, rfl, rfl⟩ | ⟨q, hq, rfl, hl⟩) | ⟨q, hq, rfl, hl⟩)
      · exact ⟨[k], by simp, by simp, by simp [lookup, Children.get?, ha]⟩
      · refine ⟨k :: q, by simp, by simp, ?_⟩
        cases q with
        | nil => exact absurd rfl hq
        | cons l q => simpa [lookup, Children.get?] using hl
      · cases q with
        | nil => exact absurd rfl hq
        | cons l q =>
          have hkl : k ≠ l := by
            rintro rfl
            simp [lookup, Children.get?_eq_none_of_not_mem hk] at hl
          exact ⟨l :: q, hq, rfl, by simpa [lookup, Children.get?, hkl] using hl⟩
    · rintro ⟨q, hq, rfl, hl⟩
      cases q with
      | nil => exact absurd rfl hq
      | cons l q =>
        by_cases hkl : k = l
        · subst hkl
          left
          cases q with
          | nil => exact .inl ⟨v, by simpa [lookup, Children.get?] using hl, by simp⟩
          | cons l' q =>
            exact .inr ⟨l' :: q, by simp, by simp, by simpa [lookup, Children.get?] using hl⟩
        · right
          exact ⟨l :: q, hq, rfl, by simpa [lookup, Children.get?, hkl] using hl⟩

end Trie

end Rove
