/-
The first-match index over a policy's routes (`RouteIndex` of
`policy/mod.rs`): each selector is kept with the smallest route index that
contains it, and a query takes the least index any selector yields.

`Indexes ix noted` says what an index holds after the rule sets `noted` went
into it. `indexInto` keeps it (`Indexes.indexInto`), and under it a query is
the least index of a rule set that matches (`firstMatch_minOf`).
-/
import Rove.Policy.RuleSet
import Rove.Base.Least

namespace Rove.Policy

/-- `u32::MAX`. -/
def u32Max : Nat := 2 ^ 32 - 1

/-- `RouteIndex`. `suffix` is `IndexedSuffix`: a node's value is its `best`. -/
structure RouteIndex where
  full : HashMap Str Nat
  suffix : Trie Str Nat
  keywords : List (Str × Nat)
  exactIp : HashMap IpAddr Nat
  cidrs : List (IpNet × Nat)
  books : List (Nat × BookRules)

/-- `RouteIndex::default`. -/
def RouteIndex.empty : RouteIndex := ⟨∅, .empty, [], ∅, [], []⟩

def noteMin {K : Type} [DecidableEq K] (map : HashMap K Nat) (key : K) (idx : Nat) : HashMap K Nat :=
  map.insert key (((map.get? key).map (min · idx)).getD idx)

/-- `IndexedSuffix::add`. -/
def suffixAdd (t : Trie Str Nat) (domain : Str) (idx : Nat) : Trie Str Nat :=
  if domain = [] then t else t.update (fun best => (best.map (min · idx)).getD idx) (revLabels domain)

/-- `IndexedSuffix::best`. -/
def suffixBest (t : Trie Str Nat) (domain : Str) : Option Nat :=
  if domain = [] then none
  else t.foldAlong (fun best idx => some ((best.map (min · idx)).getD idx)) (revLabels domain) none

def RuleSet.indexInto (o : IterOrder) (rs : RuleSet) (idx : Nat) (ix : RouteIndex) : RouteIndex where
  full := (rs.domains.contributeFull o).foldl (noteMin · · idx) ix.full
  suffix := (rs.domains.domain.contributeSuffixes o).foldl (suffixAdd · · idx) ix.suffix
  keywords := ix.keywords ++ rs.domains.contributeKeywords.map (·, idx)
  exactIp := (rs.ips.contributeExact o).foldl (noteMin · · idx) ix.exactIp
  cidrs := ix.cidrs ++ rs.ips.contributeCidrs.map (·, idx)
  books := ix.books ++ rs.book.toList.map (idx, ·)

/-- The best index among the selectors of the host itself, before the books
are asked. -/
def RouteIndex.bestDirect (ix : RouteIndex) (host : Str) : Nat :=
  match parseIpAddr host with
  | some addr =>
    let best := (ix.exactIp.get? addr).elim u32Max (min u32Max)
    scanMin (·.contains addr) ix.cidrs best
  | none =>
    let normalized := normalize host
    if normalized = [] then u32Max
    else
      let best := (ix.full.get? normalized).elim u32Max (min u32Max)
      let best := (suffixBest ix.suffix normalized).elim best (min best)
      scanMin (Str.contains normalized) ix.keywords best

def RouteIndex.firstMatch (ix : RouteIndex) (host : Str) : Option Nat :=
  let best := scanMin (fun b => b.book.matchesHost host b.selector) (ix.books.map Prod.swap)
    (ix.bestDirect host)
  if best ≠ u32Max then some best else none

/-! ## What an index holds -/

/-- The route indices at which some property of the rule set holds. -/
def indicesOf (noted : List (RuleSet × Nat)) (P : RuleSet → Prop) : Set Nat :=
  {i | ∃ rs, (rs, i) ∈ noted ∧ P rs}

/-- The index holds every selector of the rule sets noted, under the least
index of a rule set that has it. -/
structure Indexes (ix : RouteIndex) (noted : List (RuleSet × Nat)) : Prop where
  full : ∀ k, MinOf (ix.full.get? k) (indicesOf noted (k ∈ ·.domains.full.keys))
  suffix : ∀ s, MinOf (ix.suffix.lookup (revLabels s)) (indicesOf noted (·.domains.domain.Holds s))
  suffixNamed : ∀ p i, ix.suffix.lookup p = some i → ∃ s, p = revLabels s
  keywords : ∀ k i, (k, i) ∈ ix.keywords ↔ i ∈ indicesOf noted (k ∈ ·.domains.keyword)
  exactIp : ∀ a, MinOf (ix.exactIp.get? a) (indicesOf noted (a ∈ ·.ips.exact.keys))
  cidrs : ∀ n i, (n, i) ∈ ix.cidrs ↔ i ∈ indicesOf noted (n ∈ ·.ips.cidrs)
  books : ∀ b i, (i, b) ∈ ix.books ↔ i ∈ indicesOf noted (·.book = some b)

theorem indicesOf_append (noted : List (RuleSet × Nat)) (rs : RuleSet) (idx : Nat) (P : RuleSet → Prop) :
    indicesOf (noted ++ [(rs, idx)]) P = {i | i ∈ indicesOf noted P ∨ i = idx ∧ P rs} := by
  ext i
  simp only [indicesOf, Set.mem_ofPred_eq, List.mem_append, List.mem_singleton, Prod.mk.injEq]
  constructor
  · rintro ⟨r, h | ⟨rfl, rfl⟩, hP⟩
    · exact .inl ⟨r, h, hP⟩
    · exact .inr ⟨rfl, hP⟩
  · rintro (⟨r, h, hP⟩ | ⟨rfl, hP⟩)
    · exact ⟨r, .inl h, hP⟩
    · exact ⟨rs, .inr ⟨rfl, rfl⟩, hP⟩

theorem Indexes.empty : Indexes .empty [] := by
  have hnone : ∀ P, indicesOf [] P = ∅ := fun P => by simp [indicesOf]
  refine ⟨fun k => hnone _, fun s => ?_, fun p i h => ?_, ?_, fun a => hnone _, ?_, ?_⟩
  · rw [RouteIndex.empty, Trie.lookup_empty]
    exact hnone _
  · rw [RouteIndex.empty, Trie.lookup_empty] at h
    cases h
  all_goals simp [RouteIndex.empty, hnone]

/-! ## Indexing one more rule set -/

theorem get?_noteMin {K : Type} [DecidableEq K] (m : HashMap K Nat) (k k' : K) (idx : Nat) :
    (noteMin m k idx).get? k' = if k' = k then noteLeast (m.get? k') idx else m.get? k' := by
  rw [noteMin, HashMap.get?_insert]
  split
  · next h => subst h; cases m.get? k' <;> rfl
  · rfl

theorem lookup_suffixAdd (t : Trie Str Nat) {s} (hs : s ≠ []) (p : List Str) (idx : Nat) :
    (suffixAdd t s idx).lookup p =
      if p = revLabels s then noteLeast (t.lookup p) idx else t.lookup p := by
  rw [suffixAdd, if_neg hs, Trie.lookup_update]
  split
  · next h => subst h; cases t.lookup (revLabels s) <;> rfl
  · rfl

theorem suffixAdd_named {t} (h : ∀ p i, t.lookup p = some i → ∃ s, p = revLabels s)
    (s : Str) (idx : Nat) : ∀ p i, (suffixAdd t s idx).lookup p = some i → ∃ s, p = revLabels s := by
  intro p i hp
  by_cases hs : s = []
  · rw [suffixAdd, if_pos hs] at hp
    exact h p i hp
  · rw [lookup_suffixAdd t hs] at hp
    split at hp
    · next he => exact ⟨s, he⟩
    · exact h p i hp

theorem foldl_suffixAdd_named (ss : List Str) (idx : Nat) {t}
    (h : ∀ p i, t.lookup p = some i → ∃ s, p = revLabels s) :
    ∀ p i, (ss.foldl (suffixAdd · · idx) t).lookup p = some i → ∃ s, p = revLabels s := by
  induction ss generalizing t with
  | nil => exact h
  | cons s ss ih => exact ih (suffixAdd_named h s idx)

variable {ix : RouteIndex} {noted : List (RuleSet × Nat)}

theorem Indexes.indexInto (h : Indexes ix noted)
    (o : IterOrder) (rs : RuleSet) (idx : Nat) : Indexes (rs.indexInto o idx ix) (noted ++ [(rs, idx)]) where
  full k := by
    have hk := minOf_foldl_cells HashMap.get? (noteMin · · idx) idx (rs.domains.contributeFull o)
      (fun m k _ k' => get?_noteMin m k k' idx) ix.full _ h.full k
    simp only [DomainMatcher.contributeFull, IterOrder.mem_run] at hk
    rw [indicesOf_append]
    exact hk
  suffix s := by
    have hs := minOf_foldl_cells (fun t s => t.lookup (revLabels s)) (suffixAdd · · idx) idx
      (rs.domains.domain.contributeSuffixes o) (fun t s hs s' => ?_) ix.suffix _ h.suffix s
    · simp only [SubDomainMatcher.mem_contributeSuffixes] at hs
      rw [indicesOf_append]
      exact hs
    · have hne := ((SubDomainMatcher.mem_contributeSuffixes o _ s).1 hs).1
      simp only [lookup_suffixAdd t hne]
      by_cases he : s' = s
      · simp [he]
      · rw [if_neg he, if_neg fun h' => he (revLabels_inj h')]
  suffixNamed := foldl_suffixAdd_named _ idx h.suffixNamed
  keywords k i := by
    rw [indicesOf_append]
    simp [RuleSet.indexInto, DomainMatcher.contributeKeywords, h.keywords, and_comm, eq_comm]
  exactIp a := by
    have ha := minOf_foldl_cells HashMap.get? (noteMin · · idx) idx (rs.ips.contributeExact o)
      (fun m k _ k' => get?_noteMin m k k' idx) ix.exactIp _ h.exactIp a
    simp only [IpMatcher.contributeExact, IterOrder.mem_run] at ha
    rw [indicesOf_append]
    exact ha
  cidrs n i := by
    rw [indicesOf_append]
    simp [RuleSet.indexInto, IpMatcher.contributeCidrs, h.cidrs, and_comm, eq_comm]
  books b i := by
    rw [indicesOf_append]
    simp [RuleSet.indexInto, h.books, and_comm, eq_comm]

/-! ## Querying -/

/-- The stored names that are parent domains of a host yield the least index
of a rule set that holds one. -/
theorem suffixBest_minOf (h : Indexes ix noted)
    {host} (hne : host ≠ []) :
    MinOf (suffixBest ix.suffix host)
      (indicesOf noted fun rs => ∃ s, rs.domains.domain.Holds s ∧ IsLabelSuffix s host) := by
  have hfold : suffixBest ix.suffix host = (ix.suffix.along (revLabels host)).foldl noteLeast none := by
    rw [suffixBest, if_neg hne, Trie.foldAlong_eq]
    congr 1
    funext best i
    cases best <;> rfl
  have hmin := minOf_foldl_note (show MinOf (none : Option Nat) ∅ from rfl) (ix.suffix.along (revLabels host))
  rw [← hfold] at hmin
  have hset : (∅ : Set Nat) ∪ {i | i ∈ ix.suffix.along (revLabels host)} =
      {i | ∃ s, IsLabelSuffix s host ∧ ix.suffix.lookup (revLabels s) = some i} := by
    ext i
    simp only [Set.empty_union, Set.mem_ofPred_eq, Trie.mem_along]
    constructor
    · rintro ⟨q, -, hq, hl⟩
      obtain ⟨s, rfl⟩ := h.suffixNamed q i hl
      exact ⟨s, (isLabelSuffix_iff s host).2 hq, hl⟩
    · rintro ⟨s, hs, hl⟩
      exact ⟨revLabels s, revLabels_ne_nil s, (isLabelSuffix_iff s host).1 hs, hl⟩
  rw [hset] at hmin
  have hall := MinOf.biUnion (fun s _ => h.suffix s) hmin
  have hset' : {i | ∃ s, IsLabelSuffix s host ∧ i ∈ indicesOf noted (·.domains.domain.Holds s)} =
      indicesOf noted fun rs => ∃ s, rs.domains.domain.Holds s ∧ IsLabelSuffix s host := by
    ext i
    constructor
    · rintro ⟨s, hs, rs, hrs, hh⟩; exact ⟨rs, hrs, s, hh, hs⟩
    · rintro ⟨rs, hrs, s, hh, hs⟩; exact ⟨s, hs, rs, hrs, hh⟩
  rwa [hset'] at hall

theorem indicesOf_union (noted : List (RuleSet × Nat)) (P Q : RuleSet → Prop) :
    indicesOf noted P ∪ indicesOf noted Q = indicesOf noted fun rs => P rs ∨ Q rs := by
  ext i
  constructor
  · rintro (⟨rs, h, hP⟩ | ⟨rs, h, hQ⟩)
    · exact ⟨rs, h, .inl hP⟩
    · exact ⟨rs, h, .inr hQ⟩
  · rintro ⟨rs, h, hP | hQ⟩
    · exact .inl ⟨rs, h, hP⟩
    · exact .inr ⟨rs, h, hQ⟩

/-- Scanning a list that holds the selectors of the rule sets noted. -/
theorem isLeast_scan {β : Type} {xs : List (β × Nat)} {has : β → RuleSet → Prop}
    (hxs : ∀ x i, (x, i) ∈ xs ↔ i ∈ indicesOf noted (has x)) (hit : β → Bool) (best : Nat) :
    IsLeast (insert best (indicesOf noted fun rs => ∃ x, has x rs ∧ hit x = true)) (scanMin hit xs best) := by
  have h := isLeast_scanMin hit xs best
  have hset : {i | ∃ x, (x, i) ∈ xs ∧ hit x = true} = indicesOf noted fun rs => ∃ x, has x rs ∧ hit x = true := by
    ext i
    simp only [hxs, indicesOf, Set.mem_ofPred_eq]
    constructor
    · rintro ⟨x, ⟨rs, hrs, hx⟩, hh⟩; exact ⟨rs, hrs, x, hx, hh⟩
    · rintro ⟨rs, hrs, x, hx, hh⟩; exact ⟨x, ⟨rs, hrs, hx⟩, hh⟩
  rwa [hset] at h

theorem bestDirect_isLeast (h : Indexes ix noted) (host : Str) :
    IsLeast (insert u32Max (indicesOf noted (·.MatchesDirect host))) (ix.bestDirect host) := by
  have htop : IsLeast (insert u32Max (∅ : Set Nat)) u32Max := by simp
  unfold RouteIndex.bestDirect RuleSet.MatchesDirect
  cases parseIpAddr host with
  | some addr =>
    have hexact := IsLeast.min_option htop (h.exactIp addr)
    have hall := IsLeast.trans_insert hexact (isLeast_scan h.cidrs (·.contains addr) _)
    rw [Set.empty_union, indicesOf_union] at hall
    simpa only [IpMatcher.matchesAddr_iff] using hall
  | none =>
    simp only [DomainMatcher.matchesHost, DomainMatcher.matchesNormalized_iff]
    by_cases hn : normalize host = []
    · simp [hn, indicesOf]
    · have hfull := IsLeast.min_option htop (h.full (normalize host))
      have hsuffix := IsLeast.min_option hfull (suffixBest_minOf h hn)
      have hall := IsLeast.trans_insert hsuffix (isLeast_scan h.keywords (Str.contains (normalize host)) _)
      rw [Set.empty_union, indicesOf_union, indicesOf_union] at hall
      simpa [hn, Str.contains, or_assoc] using hall

/-- A query yields the least index of a rule set that matches the host. -/
theorem firstMatch_minOf (h : Indexes ix noted)
    (hlt : ∀ e ∈ noted, e.2 < u32Max) (host : Str) :
    MinOf (ix.firstMatch host) (indicesOf noted (·.matchesHost host = true)) := by
  have hbooks : ∀ b i, (b, i) ∈ ix.books.map Prod.swap ↔ i ∈ indicesOf noted (·.book = some b) := by
    intro b i
    rw [← h.books, List.mem_map]
    constructor
    · rintro ⟨⟨i', b'⟩, hm, he⟩; cases he; exact hm
    · intro hm; exact ⟨(i, b), hm, rfl⟩
  have hall := IsLeast.trans_insert (bestDirect_isLeast h host)
    (isLeast_scan hbooks (fun b => b.book.matchesHost host b.selector) (ix.bestDirect host))
  rw [indicesOf_union] at hall
  simp only [← RuleSet.matchesHost_iff] at hall
  refine MinOf.ofBound hall ?_
  rintro i ⟨rs, hm, -⟩
  exact hlt _ hm

end Rove.Policy
