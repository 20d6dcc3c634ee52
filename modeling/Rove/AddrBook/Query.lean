/-
What the queries of a book mean. A host has category sets in a book
(`Book.setsOf`), a pattern selects categories (`Book.idsOf`), and a host
matches a resolved selector exactly when one of its sets holds a category
some pattern selects (`resolve_matchesHost`).

The cache in front of `resolve` drops out here: `resolve_spec` is the last
place that sees it.
-/
import Rove.AddrBook.Book
import Rove.Base.Lists
import Rove.Base.IpText
import Mathlib.Data.List.Destutter

namespace Rove.AddrBook

open List Res

/-! ## Bits of a mask -/

@[simp] theorem length_setBit (mask : List (BitVec 64)) (id : Nat) : (setBit mask id).length = mask.length := by
  simp [setBit]

theorem getBit_setBit (mask : List (BitVec 64)) (i id : Nat) :
    getBit (setBit mask i) id = true ↔ getBit mask id = true ∨ (id = i ∧ id / 64 < mask.length) := by
  unfold getBit setBit
  rw [getElem?_modify]
  by_cases hw : i / 64 = id / 64
  · simp only [if_pos hw]
    cases hm : mask[id / 64]? with
    | none =>
      have hlen : mask.length ≤ id / 64 := getElem?_eq_none_iff.1 hm
      simp [Nat.not_lt.2 hlen]
    | some x =>
      have hlen : id / 64 < mask.length := (List.getElem?_eq_some_iff.1 hm).1
      have hbit : (1#64 <<< (i % 64)).getLsbD (id % 64) = decide (id = i) := by
        have hid : id % 64 < 64 := Nat.mod_lt _ (by decide)
        simp only [BitVec.getLsbD_shiftLeft, BitVec.getLsbD_one, hid, decide_true, Bool.true_and]
        by_cases he : id = i
        · subst he; simp
        · by_cases hlt : id % 64 < i % 64
          · simp [hlt, he]
          · simp [he]; omega
      simp [hbit, hlen]
  · simp only [if_neg hw]
    have hne : id ≠ i := fun h => hw (by rw [h])
    simp [hne]

theorem getBit_foldl_setBit (ids : List Nat) (mask : List (BitVec 64)) (id : Nat) :
    getBit (ids.foldl setBit mask) id = true ↔
      getBit mask id = true ∨ (id ∈ ids ∧ id / 64 < mask.length) := by
  induction ids generalizing mask with
  | nil => simp
  | cons i ids ih =>
    rw [foldl_cons, ih, getBit_setBit, length_setBit, mem_cons]
    tauto

theorem length_foldl_setBit (ids : List Nat) (mask : List (BitVec 64)) :
    (ids.foldl setBit mask).length = mask.length := by
  induction ids generalizing mask with
  | nil => rfl
  | cons i ids ih => rw [foldl_cons, ih, length_setBit]

theorem getBit_replicate_zero (n id : Nat) : getBit (replicate n 0) id = false := by
  unfold getBit
  rw [getElem?_replicate]
  split <;> simp

/-- Two bitmaps share a set bit exactly when some word of one meets its
counterpart in the other. -/
theorem any_and_ne_zero_iff (xs ys : List (BitVec 64)) :
    (xs.zip ys).any (fun (x, y) => x &&& y != 0) = true ↔
      ∃ id, getBit xs id = true ∧ getBit ys id = true := by
  rw [any_eq_true]
  constructor
  · rintro ⟨⟨x, y⟩, hm, hne⟩
    obtain ⟨k, hk⟩ := mem_iff_getElem?.1 hm
    obtain ⟨hx, hy⟩ := getElem?_zip_eq_some.1 hk
    have hne' : x &&& y ≠ 0 := by simpa using hne
    obtain ⟨i, hi⟩ : ∃ i, (x &&& y).getLsbD i = true := by
      by_contra hno
      refine hne' (BitVec.eq_of_getLsbD_eq fun i _ => ?_)
      have : ¬ (x &&& y).getLsbD i = true := fun h => hno ⟨i, h⟩
      simpa using this
    have hi64 : i < 64 := BitVec.lt_of_getLsbD hi
    have hdiv : (64 * k + i) / 64 = k := by omega
    have hmod : (64 * k + i) % 64 = i := by omega
    rw [BitVec.getLsbD_and, Bool.and_eq_true] at hi
    exact ⟨64 * k + i, by simp [getBit, hdiv, hmod, hx, hi.1], by simp [getBit, hdiv, hmod, hy, hi.2]⟩
  · rintro ⟨id, hx, hy⟩
    unfold getBit at hx hy
    cases hxs : xs[id / 64]? with
    | none => simp [hxs] at hx
    | some x =>
      cases hys : ys[id / 64]? with
      | none => simp [hys] at hy
      | some y =>
        simp only [hxs, hys, Option.getD_some] at hx hy
        refine ⟨(x, y), mem_of_getElem? (getElem?_zip_eq_some.2 ⟨hxs, hys⟩), ?_⟩
        have hne : x &&& y ≠ 0 := by
          intro h0
          have := congrArg (·.getLsbD (id % 64)) h0
          simp [hx, hy] at this
        simpa using hne

theorem catsetIntersects_iff (b : Book) (cs : BitVec 32) (sel : Selector) :
    b.catsetIntersects cs sel = true ↔
      ∃ id, getBit (b.catset cs) id = true ∧ getBit sel.mask id = true := by
  unfold Book.catsetIntersects
  split
  · next h0 => simp [Book.catset, h0, getBit]
  · exact any_and_ne_zero_iff _ _

/-! ## The sets of a host -/

/-- The prefixes of a reversed name that end at a label boundary. -/
def labelPrefixes (rev : Str) : List Str := (rev.splitOn '.').inits.tail.map (Str.join ['.'])

/-- Every category set the book has for a host. -/
def Book.setsOf (b : Book) (host : Str) : List (BitVec 32) :=
  match parseIpAddr host with
  | some ip => (b.lookupIp ip).toList
  | none =>
    let name := normalizeDomain host
    if name = [] then []
    else
      (findText b.raw.domainExact name).toList.map (·.catset) ++
      ((labelPrefixes (reverseLabels name)).filterMap (findText b.raw.domainSuffix)).map (·.catset) ++
      (b.raw.keywords.filter fun k => Str.contains name k.text).map (·.catset)

/-- Is the host in the category with this id? -/
def Book.inCategory (b : Book) (host : Str) (id : Nat) : Bool :=
  (b.setsOf host).any fun cs => getBit (b.catset cs) id

/-- Does the category pattern select a category the host is in? -/
def Book.selects (b : Book) (pattern host : Str) : Bool :=
  (b.idsOf (normalizeCategory pattern)).any (b.inCategory host)

/-- Does the category pattern select a category the address is in? -/
def Book.selectsIp (b : Book) (pattern : Str) (ip : IpAddr) : Bool :=
  (b.idsOf (normalizeCategory pattern)).any fun id => (b.lookupIp ip).any fun cs => getBit (b.catset cs) id

variable {host : Str} {b : Book} {names patterns : List Str} {sel : Selector}

theorem selects_of_parseIpAddr (b : Book) (pattern : Str) {ip}
    (h : parseIpAddr host = some ip) : b.selects pattern host = b.selectsIp pattern ip := by
  unfold Book.selects Book.selectsIp Book.inCategory Book.setsOf
  simp only [h]
  cases b.lookupIp ip <;> simp

/-- A book does not tell a mapped IPv4 address from the address itself. -/
theorem selectsIp_mapped (b : Book) (pattern : Str) (a : Ipv4Addr) :
    b.selectsIp pattern (.v6 a.toIpv6Mapped) = b.selectsIp pattern (.v4 a) := by
  simp [Book.selectsIp, Book.lookupIp]

/-- The loop tests what ends at a label boundary of the rest, after what was
passed over. -/
theorem labelPrefixAny_iff (test : Str → Bool) (fuel : Nat) (done rest : Str) (hfuel : rest.length < fuel) :
    labelPrefixAny test (done ++ rest) fuel done.length = true ↔
      ∃ q, q ≠ [] ∧ q <+: rest.splitOn '.' ∧ test (done ++ Str.join ['.'] q) = true := by
  induction fuel generalizing done rest with
  | zero => omega
  | succ fuel ih =>
    rw [labelPrefixAny, drop_left]
    by_cases hdot : '.' ∈ rest
    · -- a label, a dot, and more labels
      obtain ⟨a, rest', rfl, ha⟩ := eq_append_cons_of_mem hdot
      have htake : (a ++ '.' :: rest').takeWhile (· ≠ '.') = a := by
        rw [takeWhile_append_of_pos (fun c hc => by simpa using ne_of_mem_of_not_mem hc ha)]
        simp
      have hlen : rest'.length < fuel := by simp at hfuel; omega
      have hih := ih (done ++ a ++ ['.']) rest' hlen
      have htext : done ++ (a ++ '.' :: rest') = done ++ a ++ ['.'] ++ rest' := by simp
      have hpre : (done ++ (a ++ '.' :: rest')).take (done.length + a.length) = done ++ a := by
        rw [← append_assoc, ← length_append, take_left]
      rw [htake, splitOn_append_cons_self_of_not_mem ha]
      simp only [hpre]
      rw [htext, if_neg (c := done.length + a.length = _) (by simp)]
      have hbound : done.length + a.length + 1 = (done ++ a ++ ['.']).length := by simp; omega
      rw [hbound]
      split
      · next ht => exact ⟨fun _ => ⟨[a], by simp, by simp, by simpa [Str.join] using ht⟩, fun _ => rfl⟩
      · next ht =>
        rw [hih]
        constructor
        · rintro ⟨q, hq, hp, hx⟩
          refine ⟨a :: q, by simp, cons_prefix_cons.2 ⟨rfl, hp⟩, ?_⟩
          cases q with
          | nil => exact absurd rfl hq
          | cons l q => simpa [Str.join, List.intercalate] using hx
        · rintro ⟨q, hq, hp, hx⟩
          cases q with
          | nil => exact absurd rfl hq
          | cons l q =>
            obtain ⟨rfl, hp'⟩ := cons_prefix_cons.1 hp
            cases q with
            | nil => exact absurd (by simpa [Str.join] using hx) ht
            | cons l' q => exact ⟨l' :: q, by simp, hp', by simpa [Str.join, List.intercalate] using hx⟩
    · -- the last label
      have htake : rest.takeWhile (· ≠ '.') = rest :=
        takeWhile_eq_self_iff.2 fun c hc => by simpa using ne_of_mem_of_not_mem hc hdot
      rw [htake, splitOn_eq_singleton hdot]
      simp only [← length_append, take_length, if_true]
      constructor
      · intro h
        refine ⟨[rest], by simp, by simp, ?_⟩
        simpa [Str.join] using h
      · rintro ⟨q, hq, hp, hx⟩
        cases q with
        | nil => exact absurd rfl hq
        | cons l q =>
          obtain ⟨rfl, hq'⟩ := cons_prefix_cons.1 hp
          obtain rfl := prefix_nil.1 hq'
          simpa [Str.join] using hx

theorem mem_labelPrefixes {rev p} :
    p ∈ labelPrefixes rev ↔ ∃ q, q ≠ [] ∧ q <+: rev.splitOn '.' ∧ Str.join ['.'] q = p := by
  rw [labelPrefixes, mem_map]
  refine exists_congr fun q => ?_
  rw [mem_tail_inits, and_assoc]

theorem textSelected_iff (b : Book) (entries : List StrEntry) (sel : Selector) (text : Str) :
    b.textSelected entries sel text = true ↔
      ∃ e, findText entries text = some e ∧ b.catsetIntersects e.catset sel = true := by
  unfold Book.textSelected
  cases findText entries text <;> simp

theorem labelPrefixAny_eq_true (test : Str → Bool) (rev : Str) :
    labelPrefixAny test rev (rev.length + 1) 0 = true ↔ ∃ p ∈ labelPrefixes rev, test p = true := by
  have h := labelPrefixAny_iff test (rev.length + 1) [] rev (Nat.lt_succ_self _)
  simp only [nil_append, length_nil] at h
  rw [h]
  simp only [mem_labelPrefixes]
  refine ⟨fun hq => ?_, fun hp => ?_⟩
  · obtain ⟨q, hq, hpre, ht⟩ := hq
    exact ⟨_, ⟨q, hq, hpre, rfl⟩, ht⟩
  · obtain ⟨_, ⟨q, hq, hpre, rfl⟩, ht⟩ := hp
    exact ⟨q, hq, hpre, ht⟩

/-- The sets of a host that is a name: of the name itself, of a suffix, of a
keyword in it. -/
theorem mem_setsOf_name (hip : parseIpAddr host = none) (hn : normalizeDomain host ≠ [])
    {cs} :
    cs ∈ b.setsOf host ↔
      (∃ e, findText b.raw.domainExact (normalizeDomain host) = some e ∧ e.catset = cs) ∨
      (∃ p ∈ labelPrefixes (reverseLabels (normalizeDomain host)),
        ∃ e, findText b.raw.domainSuffix p = some e ∧ e.catset = cs) ∨
      ∃ k ∈ b.raw.keywords, Str.contains (normalizeDomain host) k.text = true ∧ k.catset = cs := by
  rw [Book.setsOf]
  simp only [hip, hn, if_false, mem_append, mem_map, mem_filterMap, mem_filter, Option.mem_toList,
    or_assoc, and_assoc]
  refine or_congr Iff.rfl (or_congr ⟨fun h => ?_, fun h => ?_⟩ Iff.rfl)
  · obtain ⟨e, ⟨p, hp, he⟩, hcs⟩ := h
    exact ⟨p, hp, e, he, hcs⟩
  · obtain ⟨p, hp, e, he, hcs⟩ := h
    exact ⟨e, ⟨p, hp, he⟩, hcs⟩

theorem matchesHost_iff_setsOf (b : Book) (host : Str) (sel : Selector) :
    b.matchesHost host sel = true ↔ ∃ cs ∈ b.setsOf host, b.catsetIntersects cs sel = true := by
  rw [Book.matchesHost]
  cases hip : parseIpAddr host with
  | some ip =>
    simp only [Book.matchesIp, Book.setsOf, hip]
    cases b.lookupIp ip <;> simp
  | none =>
    simp only [Book.matchesDomain]
    by_cases hn : normalizeDomain host = []
    · simp [hn, Book.setsOf, hip]
    · simp only [hn, if_false, Bool.if_true_left, Bool.or_eq_true, decide_eq_true_eq, labelPrefixAny_eq_true,
        textSelected_iff, any_eq_true, Bool.and_eq_true, mem_setsOf_name hip hn]
      refine ⟨fun h => ?_, fun h => ?_⟩
      · rcases h with ⟨e, he, hi⟩ | ⟨p, hp, e, he, hi⟩ | ⟨k, hk, hc, hi⟩
        · exact ⟨_, .inl ⟨e, he, rfl⟩, hi⟩
        · exact ⟨_, .inr (.inl ⟨p, hp, e, he, rfl⟩), hi⟩
        · exact ⟨_, .inr (.inr ⟨k, hk, hc, rfl⟩), hi⟩
      · obtain ⟨cs, hcs, hi⟩ := h
        rcases hcs with ⟨e, he, rfl⟩ | ⟨p, hp, e, he, rfl⟩ | ⟨k, hk, hc, rfl⟩
        · exact .inl ⟨e, he, hi⟩
        · exact .inr (.inl ⟨p, hp, e, he, hi⟩)
        · exact .inr (.inr ⟨k, hk, hc, hi⟩)

theorem matchesHost_iff (b : Book) (host : Str) (sel : Selector) :
    b.matchesHost host sel = true ↔ ∃ id, b.inCategory host id = true ∧ getBit sel.mask id = true := by
  simp only [matchesHost_iff_setsOf, catsetIntersects_iff, Book.inCategory, any_eq_true]
  refine ⟨fun h => ?_, fun h => ?_⟩
  · obtain ⟨cs, hcs, id, hc, hm⟩ := h
    exact ⟨id, ⟨cs, hcs, hc⟩, hm⟩
  · obtain ⟨id, ⟨cs, hcs, hc⟩, hm⟩ := h
    exact ⟨cs, hcs, id, hc, hm⟩

theorem lt_of_inCategory {id} (h : b.inCategory host id = true) :
    id / 64 < b.raw.catsetWords.toNat := by
  obtain ⟨cs, -, hbit⟩ := any_eq_true.1 h
  by_contra hle
  have hlen : (b.catset cs).length ≤ id / 64 :=
    le_trans (length_take_le _ _) (Nat.le_of_not_lt hle)
  simp [getBit, getElem?_eq_none hlen] at hbit

/-! ## Resolving patterns -/

theorem resolveNames_spec {mask mask'}
    (h : b.resolveNames names mask = .ok mask') :
    (∀ n ∈ names, b.idsOf n ≠ []) ∧
      ∀ id, getBit mask' id = true ↔
        getBit mask id = true ∨ ((∃ n ∈ names, id ∈ b.idsOf n) ∧ id / 64 < mask.length) := by
  induction names generalizing mask with
  | nil =>
    cases h
    simp
  | cons n names ih =>
    obtain ⟨hne, hrest⟩ := ensure_bind_eq_ok.1 h
    obtain ⟨hall, hbits⟩ := ih hrest
    refine ⟨forall_mem_cons.2 ⟨hne, hall⟩, fun id => ?_⟩
    rw [hbits, getBit_foldl_setBit, length_foldl_setBit]
    simp only [mem_cons, exists_eq_or_imp]
    tauto

theorem normalizePatterns_eq_ok (h : normalizePatterns patterns = .ok names) :
    names = patterns.map normalizeCategory ∧ ∀ p ∈ patterns, normalizeCategory p ≠ [] := by
  induction patterns generalizing names with
  | nil =>
    cases h
    simp
  | cons p ps ih =>
    obtain ⟨hp, h⟩ := ensure_bind_eq_ok.1 h
    obtain ⟨ns, hns, h⟩ := bind_eq_ok.1 h
    cases h
    obtain ⟨rfl, hall⟩ := ih hns
    exact ⟨rfl, forall_mem_cons.2 ⟨hp, hall⟩⟩

theorem mem_destutter'_ne (l : List Str) (a n : Str) : n ∈ l.destutter' (· ≠ ·) a ↔ n = a ∨ n ∈ l := by
  induction l generalizing a with
  | nil => simp
  | cons b l ih =>
    by_cases h : a ≠ b
    · rw [destutter'_cons_pos _ h, mem_cons, ih, mem_cons]
    · rw [destutter'_cons_neg _ h, ih, mem_cons, not_not.1 h]
      tauto

theorem mem_sortDedup {n} : n ∈ sortDedup names ↔ n ∈ names := by
  have hsort : n ∈ names.mergeSort (· ≤ ·) ↔ n ∈ names := mem_mergeSort
  rw [← hsort, sortDedup]
  cases names.mergeSort (· ≤ ·) with
  | nil => rfl
  | cons a l => rw [destutter_cons', mem_destutter'_ne, mem_cons]

theorem pairwise_sortDedup (names : List Str) : (sortDedup names).Pairwise (· < ·) := by
  have hsorted : (names.mergeSort (· ≤ ·)).Pairwise (· ≤ ·) := by
    simpa using @pairwise_mergeSort Str (fun a b => decide (a ≤ b)) (by simpa using fun _ _ _ => le_trans)
      (by simpa using le_total) names
  have hle := hsorted.sublist (destutter_sublist (· ≠ ·) _)
  have hne := isChain_destutter (· ≠ ·) (names.mergeSort (· ≤ ·))
  rw [← sortDedup] at hle hne
  -- neighbours differ, and so they ascend
  refine isChain_iff_pairwise.1 ?_
  generalize sortDedup names = l at hle hne
  induction l with
  | nil => exact .nil
  | cons a l ih =>
    cases l with
    | nil => exact .singleton a
    | cons b l =>
      rw [isChain_cons_cons] at hne ⊢
      rw [pairwise_cons] at hle
      exact ⟨lt_of_le_of_ne (hle.1 b mem_cons_self) hne.1, ih hle.2 hne.2⟩

theorem sortDedup_congr {names'} (h : ∀ n, n ∈ names ↔ n ∈ names') : sortDedup names = sortDedup names' := by
  have hperm : (sortDedup names).Perm (sortDedup names') :=
    (perm_ext_iff_of_nodup ((pairwise_sortDedup names).imp ne_of_lt) ((pairwise_sortDedup names').imp ne_of_lt)).2
      fun n => by rw [mem_sortDedup, mem_sortDedup, h]
  exact hperm.eq_of_pairwise (fun _ _ _ _ h h' => absurd h' (lt_asymm h)) (pairwise_sortDedup names)
    (pairwise_sortDedup names')

/-- The mask that patterns resolve to, whatever is cached. -/
def Book.resolveMask (b : Book) (patterns : List Str) : Res (List (BitVec 64)) := do
  let names ← normalizePatterns patterns
  if sortDedup names = [] then pure [] else b.resolveNames (sortDedup names) b.zeroMask

/-- The cache decides which allocation is shared, not what is selected. -/
theorem resolve_map_mask (cache : SelectorCache b) (patterns : List Str) :
    (b.resolve cache patterns).map (·.1.mask) = b.resolveMask patterns := by
  unfold Book.resolve Book.resolveMask
  cases normalizePatterns patterns with
  | error e => rfl
  | ok names =>
    rw [ok_bind, ok_bind]
    dsimp only
    split
    · rfl
    · cases hget : cache.get? (sortDedup names) with
      | some sel => exact (cache.get?_sound hget).symm
      | none =>
        dsimp only
        split
        · next herr => exact herr.symm
        · next hok => exact hok.symm

theorem resolveMask_of_resolve {cache cache'}
    (h : b.resolve cache patterns = .ok (sel, cache')) : b.resolveMask patterns = .ok sel.mask := by
  rw [← resolve_map_mask cache, h]
  rfl

/-- A resolved selector has the bits of what its patterns select, whether it
came from the cache or not; and every pattern selects something. -/
theorem resolve_spec {cache cache'}
    (h : b.resolve cache patterns = .ok (sel, cache')) :
    (∀ p ∈ patterns, b.idsOf (normalizeCategory p) ≠ []) ∧
      ∀ id, getBit sel.mask id = true ↔
        (∃ p ∈ patterns, id ∈ b.idsOf (normalizeCategory p)) ∧ id / 64 < b.raw.catsetWords.toNat := by
  obtain ⟨names, hnames, h⟩ := bind_eq_ok.1 (resolveMask_of_resolve h)
  obtain ⟨rfl, -⟩ := normalizePatterns_eq_ok hnames
  have hmem : ∀ n, n ∈ sortDedup (patterns.map normalizeCategory) ↔ ∃ p ∈ patterns, normalizeCategory p = n := by
    intro n
    rw [mem_sortDedup, mem_map]
  split at h
  · next hnil =>
    have hpat : patterns = [] :=
      eq_nil_iff_forall_not_mem.2 fun p hp => by simpa [hnil] using (hmem _).2 ⟨p, hp, rfl⟩
    rw [← Except.ok.inj h]
    simp [hpat, getBit]
  · obtain ⟨hall, hbits⟩ := resolveNames_spec h
    refine ⟨fun p hp => hall _ ((hmem _).2 ⟨p, hp, rfl⟩), fun id => ?_⟩
    rw [hbits, Book.zeroMask, getBit_replicate_zero, length_replicate]
    simp [hmem]

/-- A host matches the selector resolved from some patterns exactly when one
of the patterns selects a category the host is in. -/
theorem resolve_matchesHost {cache cache'}
    (h : b.resolve cache patterns = .ok (sel, cache')) (host : Str) :
    b.matchesHost host sel = true ↔ ∃ p ∈ patterns, b.selects p host = true := by
  simp only [matchesHost_iff, (resolve_spec h).2, Book.selects, any_eq_true]
  refine ⟨fun h => ?_, fun h => ?_⟩
  · obtain ⟨id, hin, ⟨p, hp, hid⟩, -⟩ := h
    exact ⟨p, hp, id, hid, hin⟩
  · obtain ⟨p, hp, id, hid, hin⟩ := h
    exact ⟨id, hin, ⟨p, hp, hid⟩, lt_of_inCategory hin⟩

end Rove.AddrBook
