/-
On a valid book every lookup is a scan. The tables are sorted, so a binary
search finds the entry that has the text, the range that holds the address,
and the categories at or under a name, wherever in the table they stand.
-/
import Rove.AddrBook.Valid
import Mathlib.Data.List.Sort

namespace Rove.AddrBook

open List

/-! ## Texts and ranges -/

def scanText (entries : List StrEntry) (text : Str) : Option StrEntry := entries.find? fun e => e.text = text

/-- The set of the range that holds the key, by a scan. -/
def scanRange {w : Nat} (ranges : List (Range w)) (key : BitVec w) : Option (BitVec 32) :=
  (ranges.find? fun r => decide (r.1 ≤ key) && decide (key ≤ r.2.1)).map (·.2.2)

variable {entries : List StrEntry} {nSets : Nat} {cs : BitVec 32} {book : RawBook}

theorem eq_of_text_eq (h : (entries.map (·.text)).Pairwise (· < ·)) {e e'}
    (he : e ∈ entries) (he' : e' ∈ entries) (ht : e.text = e'.text) : e = e' :=
  inj_on_of_nodup_map (h.imp ne_of_lt) he he' ht

theorem orderedFor_text (h : (entries.map (·.text)).Pairwise (· < ·)) (text : Str) :
    OrderedFor entries fun e => compare e.text text := by
  refine (pairwise_map.1 h).imp fun {a b} hab => ⟨fun ha => ?_, fun hb => ?_⟩
  · exact (Str.compare_eq_gt_iff _ _).2 (lt_trans ((Str.compare_eq_gt_iff _ _).1 ha) hab)
  · exact (Str.compare_eq_lt_iff _ _).2 (lt_trans hab ((Str.compare_eq_lt_iff _ _).1 hb))

theorem findText_eq_scanText (h : (entries.map (·.text)).Pairwise (· < ·)) (text : Str) :
    findText entries text = scanText entries text := by
  have hs := binarySearchBy_spec (orderedFor_text h text)
  unfold findText scanText
  cases hr : binarySearchBy entries fun e => compare e.text text with
  | ok i =>
    rw [hr] at hs
    obtain ⟨e, hi, heq⟩ := hs
    have htext : e.text = text := Std.compare_eq_iff_eq.1 heq
    have hmem := mem_of_getElem? hi
    refine hi.trans (find?_eq_some_of_unique hmem (by simpa using htext) fun e' he' ht => ?_).symm
    exact eq_of_text_eq h he' hmem ((of_decide_eq_true ht).trans htext.symm)
  | error i =>
    rw [hr] at hs
    obtain ⟨-, hlt, hgt⟩ := hs
    refine (find?_eq_none.2 fun e he ht => ?_).symm
    obtain ⟨j, hj⟩ := mem_iff_getElem?.1 he
    have heq : compare e.text text = .eq := Std.compare_eq_iff_eq.2 (of_decide_eq_true ht)
    rcases Nat.lt_or_ge j i with hji | hji
    · rw [hlt j e hji hj] at heq
      cases heq
    · rw [hgt j e hji hj] at heq
      cases heq

def Range.Holds {w : Nat} (r : Range w) (key : BitVec w) : Prop := r.1 ≤ key ∧ key ≤ r.2.1

theorem RangesOk.lt_of_lt {w : Nat} {ranges : List (Range w)} (h : RangesOk nSets ranges) {i j : Nat}
    {r r' : Range w} (hi : ranges[i]? = some r) (hj : ranges[j]? = some r') (hij : i < j) : r.2.1 < r'.1 := by
  obtain ⟨hi', rfl⟩ := List.getElem?_eq_some_iff.1 hi
  obtain ⟨hj', rfl⟩ := List.getElem?_eq_some_iff.1 hj
  exact pairwise_iff_getElem.1 h.apart i j hi' hj' hij

theorem RangesOk.unique {w : Nat} {ranges : List (Range w)} (h : RangesOk nSets ranges) {r r' : Range w}
    {key : BitVec w} (hr : r ∈ ranges) (hr' : r' ∈ ranges) (hk : r.Holds key) (hk' : r'.Holds key) : r = r' := by
  obtain ⟨i, hi⟩ := mem_iff_getElem?.1 hr
  obtain ⟨j, hj⟩ := mem_iff_getElem?.1 hr'
  obtain ⟨hs, he⟩ := hk
  obtain ⟨hs', he'⟩ := hk'
  rw [BitVec.le_def] at hs he hs' he'
  rcases Nat.lt_trichotomy i j with hij | hij | hij
  · have := BitVec.lt_def.1 (h.lt_of_lt hi hj hij)
    omega
  · subst hij
    exact Option.some.inj (hi.symm.trans hj)
  · have := BitVec.lt_def.1 (h.lt_of_lt hj hi hij)
    omega

theorem scanRange_eq_some_iff {w : Nat} {ranges : List (Range w)} (h : RangesOk nSets ranges) {key : BitVec w} :
    scanRange ranges key = some cs ↔ ∃ r ∈ ranges, r.Holds key ∧ r.2.2 = cs := by
  rw [scanRange, Option.map_eq_some_iff]
  refine ⟨fun hf => ?_, fun hr => ?_⟩
  · obtain ⟨r, hf, rfl⟩ := hf
    have hk := find?_some hf
    rw [Bool.and_eq_true, decide_eq_true_eq, decide_eq_true_eq] at hk
    exact ⟨r, mem_of_find?_eq_some hf, hk, rfl⟩
  · obtain ⟨r, hr, hk, rfl⟩ := hr
    refine ⟨r, find?_eq_some_of_unique hr ?_ fun r' hr' hk' => ?_, rfl⟩
    · rw [Bool.and_eq_true, decide_eq_true_eq, decide_eq_true_eq]
      exact hk
    · rw [Bool.and_eq_true, decide_eq_true_eq, decide_eq_true_eq] at hk'
      exact h.unique hr' hr hk' hk

theorem RangesOk.partitioned {w ranges} (h : RangesOk nSets ranges) (key : BitVec w) :
    ranges.Pairwise fun r r' => decide (r'.1 ≤ key) = true → decide (r.1 ≤ key) = true := by
  refine pairwise_iff_getElem.2 fun i j hi hj hij hle => ?_
  have hlt := pairwise_iff_getElem.1 h.apart i j hi hj hij
  have hord := h.ordered _ (getElem_mem hi)
  simp only [decide_eq_true_eq, BitVec.le_def, BitVec.lt_def] at hle hlt hord ⊢
  omega

theorem lookupRange_eq_scanRange {w : Nat} {ranges : List (Range w)} (h : RangesOk nSets ranges) (key : BitVec w) :
    lookupRange ranges key = scanRange ranges key := by
  obtain ⟨hle, hpoint⟩ := partitionPoint_spec (h.partitioned key)
  apply Option.ext
  intro cs
  rw [scanRange_eq_some_iff h]
  unfold lookupRange
  generalize partitionPoint ranges (fun r => decide (r.1 ≤ key)) = idx at hle hpoint
  simp only [decide_eq_true_eq] at hpoint
  refine ⟨fun hl => ?_, fun hr => ?_⟩
  · dsimp only at hl
    split at hl
    · cases hl
    · next hne =>
      obtain ⟨r, hr, hl⟩ := Option.bind_eq_some_iff.1 hl
      split at hl
      · next hend => exact ⟨r, mem_of_getElem? hr, ⟨(hpoint _ _ hr).2 (by omega), hend⟩, Option.some.inj hl⟩
      · cases hl
  · -- the range that holds the key is the last that starts at or before it
    obtain ⟨r, hr, ⟨hs, he⟩, rfl⟩ := hr
    obtain ⟨i, hi⟩ := mem_iff_getElem?.1 hr
    have hlt : i < idx := (hpoint i r hi).1 hs
    have hlast : i = idx - 1 := by
      by_contra hne
      obtain ⟨r', hr'⟩ : ∃ r', ranges[idx - 1]? = some r' := ⟨_, getElem?_eq_getElem (by omega)⟩
      have hs' := BitVec.le_def.1 ((hpoint _ _ hr').2 (by omega))
      have := BitVec.lt_def.1 (h.lt_of_lt hi hr' (by omega))
      rw [BitVec.le_def] at he
      omega
    rw [if_neg (by omega), ← hlast, hi]
    exact if_pos he

/-! What a lookup finds, as membership. -/

theorem exists_findText_iff (h : (entries.map (·.text)).Pairwise (· < ·)) {t : Str}
    {P : StrEntry → Prop} : (∃ e, findText entries t = some e ∧ P e) ↔ ∃ e ∈ entries, e.text = t ∧ P e := by
  simp only [findText_eq_scanText h, scanText]
  refine ⟨fun he => ?_, fun he => ?_⟩
  · obtain ⟨e, hf, hp⟩ := he
    exact ⟨e, mem_of_find?_eq_some hf, by simpa using find?_some hf, hp⟩
  · obtain ⟨e, he, ht, hp⟩ := he
    refine ⟨e, find?_eq_some_of_unique he (by simpa using ht) fun e' he' ht' => ?_, hp⟩
    exact eq_of_text_eq h he' he ((by simpa using ht' : e'.text = t).trans ht.symm)

theorem exists_lookupRange_iff {w : Nat} {ranges : List (Range w)} (h : RangesOk nSets ranges) {k : BitVec w}
    {P : BitVec 32 → Prop} :
    (∃ cs, lookupRange ranges k = some cs ∧ P cs) ↔ ∃ r ∈ ranges, r.Holds k ∧ P r.2.2 := by
  simp only [lookupRange_eq_scanRange h, scanRange_eq_some_iff h]
  refine ⟨fun hr => ?_, fun hr => ?_⟩
  · obtain ⟨_, ⟨r, hr, hk, rfl⟩, hp⟩ := hr
    exact ⟨r, hr, hk, hp⟩
  · obtain ⟨r, hr, hk, hp⟩ := hr
    exact ⟨_, ⟨r, hr, hk, rfl⟩, hp⟩

/-! ## Categories -/

/-- Is the category the named one, or one below it? -/
def Under (name cat : Str) : Prop := cat = name ∨ name ++ ['/'] <+: cat

instance (name cat : Str) : Decidable (Under name cat) := inferInstanceAs (Decidable (_ ∨ _))

def Book.scanIds (b : Book) (name : Str) : List Nat :=
  (b.raw.categories.zipIdx.filter fun e => Under name e.1.name).map (·.2)

theorem mem_scanIds {b : Book} {name : Str} {id : Nat} :
    id ∈ b.scanIds name ↔ ∃ c, b.raw.categories[id]? = some c ∧ Under name c.name := by
  simp only [Book.scanIds, mem_map, mem_filter, decide_eq_true_eq, Prod.exists, mem_zipIdx_iff_getElem?]
  refine ⟨fun h => ?_, fun h => ?_⟩
  · obtain ⟨c, i, ⟨hi, hu⟩, rfl⟩ := h
    exact ⟨c, hi, hu⟩
  · obtain ⟨c, hi, hu⟩ := h
    exact ⟨c, id, ⟨hi, hu⟩, rfl⟩

theorem pairwise_scanIds (b : Book) (name : Str) : (b.scanIds name).Pairwise (· < ·) := by
  have hall : (b.raw.categories.zipIdx.map (·.2)).Pairwise (· < ·) := by
    rw [zipIdx_map_snd]
    exact pairwise_lt_range'
  exact hall.sublist (filter_sublist.map _)

theorem nameIndexOf_get? {cats} (h : (cats.map (·.name)).Nodup) {name i} :
    (nameIndexOf cats).get? name = some i ↔ ∃ c, cats[i]? = some c ∧ c.name = name := by
  refine (HashMap.get?_foldl_zipIdx (g := id) h).trans ⟨fun h => ?_, fun h => ?_⟩
  · obtain ⟨j, c, hc, hname, rfl⟩ := h
    exact ⟨c, hc, hname⟩
  · obtain ⟨c, hc, hname⟩ := h
    exact ⟨i, c, hc, hname, rfl⟩

/-- The categories before a bound stand first in the sorted table. -/
theorem Valid.partitionPoint_spec (h : Valid book) (bound : Str) :
    partitionPoint book.categories (fun c => decide (c.name < bound)) ≤ book.categories.length ∧
      ∀ i c, book.categories[i]? = some c →
        (c.name < bound ↔ i < partitionPoint book.categories fun c => decide (c.name < bound)) := by
  have hpart : book.categories.Pairwise fun c c' => decide (c'.name < bound) = true →
    decide (c.name < bound) = true := by
    refine (pairwise_map.1 h.sorted).imp fun {c c'} hlt hb => ?_
    rw [decide_eq_true_eq] at hb ⊢
    exact lt_trans hlt hb
  have hspec := Rove.partitionPoint_spec hpart
  simp only [decide_eq_true_eq] at hspec
  exact hspec

/-- `'0'` follows `'/'`, so what lies between the two bounds is what is below
the name. -/
theorem Valid.between_iff (h : Valid book) (name : Str) {i} :
    (partitionPoint book.categories (fun c => decide (c.name < name ++ ['/'])) ≤ i ∧
        i < partitionPoint book.categories fun c => decide (c.name < name ++ ['0'])) ↔
      ∃ c, book.categories[i]? = some c ∧ name ++ ['/'] <+: c.name := by
  obtain ⟨-, hlo⟩ := h.partitionPoint_spec (name ++ ['/'])
  obtain ⟨hlen, hhi⟩ := h.partitionPoint_spec (name ++ ['0'])
  refine ⟨fun hi => ?_, fun hc => ?_⟩
  · obtain ⟨c, hc⟩ : ∃ c, book.categories[i]? = some c := ⟨_, getElem?_eq_getElem (by omega)⟩
    refine ⟨c, hc, (Str.append_prefix_iff_between (by decide) _ _).2 ⟨fun hlt => ?_, (hhi i c hc).2 hi.2⟩⟩
    have := (hlo i c hc).1 hlt
    omega
  · obtain ⟨c, hc, hpre⟩ := hc
    obtain ⟨hge, hlt⟩ := (Str.append_prefix_iff_between (b := '0') (by decide) _ _).1 hpre
    exact ⟨Nat.le_of_not_lt fun hi => hge ((hlo i c hc).2 hi), (hhi i c hc).1 hlt⟩

/-- `resolve` finds the categories at or under a name in the order of the table. -/
theorem Valid.idsOf_eq_scanIds (h : Valid book) (checksum : Digest) (name : Str) :
    (Book.fromRaw book checksum).idsOf name = (Book.fromRaw book checksum).scanIds name := by
  have hnodup : (book.categories.map (·.name)).Nodup := h.sorted.imp ne_of_lt
  have hown : ∀ i, i ∈ ((Book.fromRaw book checksum).nameIndex.get? name).toList ↔
      ∃ c, book.categories[i]? = some c ∧ c.name = name := by
    intro i
    rw [Option.mem_toList]
    exact nameIndexOf_get? hnodup
  have hbelow : ∀ i, i ∈ List.range' (partitionPoint book.categories fun c => decide (c.name < name ++ ['/']))
      (partitionPoint book.categories (fun c => decide (c.name < name ++ ['0'])) -
        partitionPoint book.categories fun c => decide (c.name < name ++ ['/'])) ↔
      ∃ c, book.categories[i]? = some c ∧ name ++ ['/'] <+: c.name := by
    intro i
    rw [← h.between_iff name, mem_range'_1]
    omega
  refine List.Pairwise.eq_of_mem_iff (r := (· < ·)) ?_ (pairwise_scanIds _ _) fun i => ?_
  · refine pairwise_append.2 ⟨?_, pairwise_lt_range', fun i hi j hj => ?_⟩
    · cases (Book.fromRaw book checksum).nameIndex.get? name <;> simp
    · -- the name itself sorts before everything below it
      obtain ⟨c, hc, rfl⟩ := (hown i).1 hi
      obtain ⟨hj, -⟩ := (h.between_iff c.name).2 ((hbelow j).1 hj)
      exact Nat.lt_of_lt_of_le (((h.partitionPoint_spec _).2 i c hc).1 (Str.lt_append_cons _ _ _)) hj
  · rw [mem_scanIds, Book.idsOf, mem_append]
    refine (or_congr (hown i) (hbelow i)).trans ⟨fun hi => ?_, fun hi => ?_⟩
    · rcases hi with ⟨c, hc, hname⟩ | ⟨c, hc, hpre⟩
      · exact ⟨c, hc, .inl hname⟩
      · exact ⟨c, hc, .inr hpre⟩
    · obtain ⟨c, hc, hname | hpre⟩ := hi
      · exact .inl ⟨c, hc, hname⟩
      · exact .inr ⟨c, hc, hpre⟩

/-! ## The sets of a host -/

/-- The set of an address, by a scan. -/
def Book.scanIp (b : Book) : IpAddr → Option (BitVec 32)
  | .v4 a => scanRange b.raw.ip4 a
  | .v6 a =>
    match a.toIpv4Mapped with
    | some v4 => scanRange b.raw.ip4 v4
    | none => scanRange b.raw.ip6 a

/-- Every category set the book has for a host, by scans. -/
def Book.scanSets (b : Book) (host : Str) : List (BitVec 32) :=
  match parseIpAddr host with
  | some ip => (b.scanIp ip).toList
  | none =>
    let name := normalizeDomain host
    if name = [] then []
    else
      (scanText b.raw.domainExact name).toList.map (·.catset) ++
      ((labelPrefixes (reverseLabels name)).filterMap (scanText b.raw.domainSuffix)).map (·.catset) ++
      (b.raw.keywords.filter fun k => Str.contains name k.text).map (·.catset)

theorem setsOf_eq_scanSets {b : Book} (h : Valid b.raw) (host : Str) : b.setsOf host = b.scanSets host := by
  have hip : ∀ ip, b.lookupIp ip = b.scanIp ip := by
    intro ip
    cases ip with
    | v4 a => exact lookupRange_eq_scanRange h.ip4 a
    | v6 a =>
      rw [Book.lookupIp, Book.scanIp]
      cases a.toIpv4Mapped with
      | some v4 => exact lookupRange_eq_scanRange h.ip4 v4
      | none => exact lookupRange_eq_scanRange h.ip6 a
  have hexact : findText b.raw.domainExact = scanText b.raw.domainExact :=
    funext fun t => findText_eq_scanText h.domainExact.sorted t
  have hsuffix : findText b.raw.domainSuffix = scanText b.raw.domainSuffix :=
    funext fun t => findText_eq_scanText h.domainSuffix.sorted t
  unfold Book.setsOf Book.scanSets
  rw [hexact, hsuffix]
  cases parseIpAddr host with
  | some ip => simp only [hip]
  | none => rfl

theorem lt_nSets_of_findText (h : TextsOk nSets entries) {text e}
    (he : findText entries text = some e) : e.catset.toNat < nSets := by
  rw [findText_eq_scanText h.sorted] at he
  exact h.sets e (mem_of_find?_eq_some he)

theorem lt_nSets_of_lookupRange {w : Nat} {ranges : List (Range w)} (h : RangesOk nSets ranges) {key : BitVec w}
    (hcs : lookupRange ranges key = some cs) : cs.toNat < nSets := by
  rw [lookupRange_eq_scanRange h] at hcs
  obtain ⟨r, hr, -, rfl⟩ := (scanRange_eq_some_iff h).1 hcs
  exact h.sets r hr

theorem lt_nSets_of_lookupIp {b : Book} (h : Valid b.raw) {ip : IpAddr} (hcs : b.lookupIp ip = some cs) :
    cs.toNat < b.raw.nSets := by
  cases ip with
  | v4 a => exact lt_nSets_of_lookupRange h.ip4 hcs
  | v6 a =>
    rw [Book.lookupIp] at hcs
    split at hcs
    · exact lt_nSets_of_lookupRange h.ip4 hcs
    · exact lt_nSets_of_lookupRange h.ip6 hcs

end Rove.AddrBook
