/-
What a book that passed `validate` is like: `Valid` says it as a proposition,
one field per check (`validate_eq_ok`), and the rest of the module says what
the queries need of it. Tables are sorted, so that a binary search finds what
a scan finds; ids are in range, so that a category set is a slice that exists
and names only categories that do.
-/
import Rove.AddrBook.Query

namespace Rove.AddrBook

open List Res

/-! ## The checks as propositions -/

theorem ascending_iff {α : Type} [Preorder α] [DecidableLT α] (l : List α) :
    ascending l = true ↔ l.Pairwise (· < ·) := by
  rw [← isChain_iff_pairwise]
  induction l with
  | nil => simp [ascending]
  | cons a l ih =>
    cases l with
    | nil => simp [ascending]
    | cons b l => rw [ascending, Bool.and_eq_true, ih, decide_eq_true_eq, isChain_cons_cons]

/-- A category of the table: its path is well formed, and its parent is the
entry of the path above it. -/
structure CategoryOk (cats : List Category) (c : Category) : Prop where
  nonempty : c.name ≠ []
  segments : (c.name.splitOn '/').all isSegment = true
  parent : ∀ up last, Str.rsplitOnce '/' c.name = some (up, last) →
    c.parent ≠ u32Max ∧ ∃ p, cats[c.parent.toNat]? = some p ∧ p.name = up
  root : Str.rsplitOnce '/' c.name = none → c.parent = u32Max

/-- Ranges in ascending order, apart from each other, with existing sets. -/
structure RangesOk {w : Nat} (nSets : Nat) (ranges : List (Range w)) : Prop where
  apart : ranges.Pairwise fun r r' => r.2.1 < r'.1
  ordered : ∀ r ∈ ranges, r.1 ≤ r.2.1
  sets : ∀ r ∈ ranges, r.2.2.toNat < nSets

/-- Texts in ascending order, normalised, with existing sets. -/
structure TextsOk (nSets : Nat) (entries : List StrEntry) : Prop where
  sorted : (entries.map (·.text)).Pairwise (· < ·)
  nonempty : ∀ e ∈ entries, e.text ≠ []
  normalized : ∀ e ∈ entries, isNormalizedMatchText e.text = true
  sets : ∀ e ∈ entries, e.catset.toNat < nSets

/-- How many category sets the table holds. -/
def RawBook.nSets (book : RawBook) : Nat := book.catsets.length / book.catsetWords.toNat

/-- A book whose tables are well formed and refer only to each other. -/
structure Valid (book : RawBook) : Prop where
  count : book.categories.length ≤ maxCategories
  words : book.catsetWords.toNat = (book.categories.length + 63) / 64
  noSets : book.catsetWords.toNat = 0 → book.catsets = []
  wholeSets : book.catsetWords.toNat ≠ 0 → book.catsets.length % book.catsetWords.toNat = 0
  sorted : (book.categories.map (·.name)).Pairwise (· < ·)
  category : ∀ c ∈ book.categories, CategoryOk book.categories c
  lastWord : ∀ i < book.nSets, book.categories.length % 64 = 0 ∨
    (book.catsets[i * book.catsetWords.toNat + (book.catsetWords.toNat - 1)]?.getD 0) &&&
      ~~~ validLastWord (book.categories.length % 64) = 0
  ip4 : RangesOk book.nSets book.ip4
  ip6 : RangesOk book.nSets book.ip6
  unmapped : ∀ r ∈ book.ip6, ¬ (r.1.toNat ≤ ipv4MappedEnd ∧ ipv4MappedStart ≤ r.2.1.toNat)
  domainExact : TextsOk book.nSets book.domainExact
  domainSuffix : TextsOk book.nSets book.domainSuffix
  keywords : TextsOk book.nSets book.keywords

theorem checkCategory_eq_ok {cats c} :
    checkCategory cats c = .ok () ↔ CategoryOk cats c := by
  unfold checkCategory
  rw [ensure_bind_eq_ok, ensure_bind_eq_ok]
  cases hsplit : Str.rsplitOnce '/' c.name with
  | none =>
    simp only [ensure_eq_ok]
    refine ⟨fun h => ⟨h.1, h.2.1, ?_, fun _ => h.2.2⟩, fun h => ⟨h.nonempty, h.segments, h.root hsplit⟩⟩
    intro up last hsome
    rw [hsplit] at hsome
    cases hsome
  | some parts =>
    obtain ⟨up, last⟩ := parts
    simp only [ensure_bind_eq_ok]
    refine ⟨fun h => ?_, fun h => ?_⟩
    · obtain ⟨hne, hseg, hmax, h⟩ := h
      refine ⟨hne, hseg, fun up' last' hsome => ⟨hmax, ?_⟩, fun hnone => ?_⟩
      · rw [hsplit] at hsome
        cases hsome
        cases hp : cats[c.parent.toNat]? with
        | none => rw [hp] at h; cases h
        | some p =>
          rw [hp] at h
          exact ⟨p, rfl, ensure_eq_ok.1 h⟩
      · rw [hsplit] at hnone
        cases hnone
    · obtain ⟨hmax, p, hp, hname⟩ := h.parent up last hsplit
      refine ⟨h.nonempty, h.segments, hmax, ?_⟩
      rw [hp]
      exact ensure_eq_ok.2 hname

theorem checkRanges_eq_ok {w : Nat} {what : String} {nSets : Nat} {extra : Range w → Res Unit}
    {prevEnd : Option (BitVec w)} {ranges : List (Range w)} :
    checkRanges what nSets extra prevEnd ranges = .ok () ↔
      (∀ pe ∈ prevEnd, ∀ r ∈ ranges, pe < r.1) ∧ RangesOk nSets ranges ∧ ∀ r ∈ ranges, extra r = .ok () := by
  induction ranges generalizing prevEnd with
  | nil =>
    refine ⟨fun _ => ⟨by simp, ⟨List.Pairwise.nil, by simp, by simp⟩, by simp⟩, fun _ => rfl⟩
  | cons r rest ih =>
    obtain ⟨s, e, c⟩ := r
    rw [checkRanges, ensure_bind_eq_ok, bind_eq_ok]
    refine ⟨fun h => ?_, fun h => ?_⟩
    · obtain ⟨hse, _, hextra, h⟩ := h
      obtain ⟨hprev, h⟩ := ensure_bind_eq_ok.1 h
      simp only [Option.all_eq_true, decide_eq_true_eq] at hprev
      obtain ⟨_, hcs, h⟩ := bind_eq_ok.1 h
      obtain ⟨hnext, hrest, hextras⟩ := ih.1 h
      have happart : ∀ r ∈ rest, e < r.1 := hnext e rfl
      refine ⟨fun pe hpe => forall_mem_cons.2 ⟨hprev pe hpe, fun r hr => ?_⟩, ⟨?_, ?_, ?_⟩, ?_⟩
      · have h1 := hprev pe hpe
        have h2 := happart r hr
        simp only [BitVec.lt_def, BitVec.le_def] at h1 h2 hse ⊢
        omega
      · exact pairwise_cons.2 ⟨happart, hrest.apart⟩
      · exact forall_mem_cons.2 ⟨hse, hrest.ordered⟩
      · exact forall_mem_cons.2 ⟨ensure_eq_ok.1 hcs, hrest.sets⟩
      · exact forall_mem_cons.2 ⟨hextra, hextras⟩
    · obtain ⟨hprev, hok, hextras⟩ := h
      obtain ⟨hnext, happart⟩ := pairwise_cons.1 hok.apart
      obtain ⟨hse, hordered⟩ := forall_mem_cons.1 hok.ordered
      obtain ⟨hcs, hsets⟩ := forall_mem_cons.1 hok.sets
      obtain ⟨hextra, hextras⟩ := forall_mem_cons.1 hextras
      refine ⟨hse, (), hextra, ensure_bind_eq_ok.2 ⟨?_, ?_⟩⟩
      · simp only [Option.all_eq_true, decide_eq_true_eq]
        exact fun pe hpe => hprev pe hpe _ mem_cons_self
      refine ensure_bind_eq_ok.2 ⟨hcs, ih.2 ⟨fun pe hpe r hr => ?_, ⟨happart, hordered, hsets⟩, hextras⟩⟩
      obtain rfl := Option.mem_some.1 hpe
      exact hnext r hr

theorem checkTexts_eq_ok {what nSets entries} :
    checkTexts what nSets entries = .ok () ↔ TextsOk nSets entries := by
  unfold checkTexts
  rw [ensure_bind_eq_ok, forM_eq_ok, ascending_iff]
  simp only [ensure_bind_eq_ok, checkCatset, ensure_eq_ok]
  refine ⟨fun h => ⟨h.1, ?_, ?_, ?_⟩, fun h => ⟨h.sorted, fun e he => ?_⟩⟩
  · exact fun e he => (h.2 e he).1
  · exact fun e he => (h.2 e he).2.1
  · exact fun e he => (h.2 e he).2.2
  · exact ⟨h.nonempty e he, h.normalized e he, h.sets e he⟩

theorem validate_eq_ok {book : RawBook} : validate book = .ok () ↔ Valid book := by
  have hif : ∀ (f : Unit → Res Unit),
      ((if book.catsetWords.toNat = 0 then
          ensure (book.catsets = []) "catset data present with zero word count" >>= f
        else ensure (book.catsets.length % book.catsetWords.toNat = 0)
          "catset table length not a multiple of word count" >>= f) = .ok ()) ↔
        ((book.catsetWords.toNat = 0 → book.catsets = []) ∧
          (book.catsetWords.toNat ≠ 0 → book.catsets.length % book.catsetWords.toNat = 0)) ∧ f () = .ok () := by
    intro f
    split
    · next h0 => simp [ensure_bind_eq_ok, h0]
    · next h0 => simp [ensure_bind_eq_ok, h0]
  unfold validate
  simp only [unit_bind_eq_ok, ensure_eq_ok, hif, ascending_iff, forM_eq_ok, checkCategory_eq_ok,
    checkRanges_eq_ok, checkTexts_eq_ok, checkMapped, mem_range]
  refine ⟨fun h => ?_, fun h => ?_⟩
  · obtain ⟨hcount, hwords, ⟨hno, hwhole⟩, hsorted, hcat, hlast, ⟨-, h4, -⟩, ⟨-, h6, hun⟩, he, hs, hk⟩ := h
    exact ⟨hcount, hwords, hno, hwhole, hsorted, hcat, hlast, h4, h6, hun, he, hs, hk⟩
  · exact ⟨h.count, h.words, ⟨h.noSets, h.wholeSets⟩, h.sorted, h.category, h.lastWord,
      ⟨by simp, h.ip4, fun _ _ => rfl⟩, ⟨by simp, h.ip6, h.unmapped⟩, h.domainExact, h.domainSuffix, h.keywords⟩

/-! ## Category sets -/

section
variable {book : RawBook}

theorem Valid.words_mul_nSets (h : Valid book) : book.catsetWords.toNat * book.nSets = book.catsets.length := by
  rw [RawBook.nSets]
  by_cases h0 : book.catsetWords.toNat = 0
  · rw [h0, h.noSets h0]
    rfl
  · exact Nat.mul_div_cancel' (Nat.dvd_of_mod_eq_zero (h.wholeSets h0))

theorem Valid.slice_le (h : Valid book) {cs} (hcs : cs < book.nSets) :
    cs * book.catsetWords.toNat + book.catsetWords.toNat ≤ book.catsets.length := by
  rw [← h.words_mul_nSets, ← Nat.succ_mul, Nat.mul_comm book.catsetWords.toNat]
  exact Nat.mul_le_mul_right _ hcs

/-- A category stands after its parent: this is what `validate` asserts of
each category it has passed. -/
theorem Valid.parent_lt (h : Valid book) {i : Nat} {c : Category} (hc : book.categories[i]? = some c) :
    c.parent = u32Max ∨ c.parent.toNat < i := by
  have hok := h.category c (mem_of_getElem? hc)
  cases hsplit : Str.rsplitOnce '/' c.name with
  | none => exact .inl (hok.root hsplit)
  | some parts =>
    obtain ⟨up, last⟩ := parts
    obtain ⟨-, p, hp, rfl⟩ := hok.parent up last hsplit
    have hname : c.name = p.name ++ '/' :: last := Str.rsplitOnce_eq_append hsplit
    have hlt : p.name < c.name := by
      rw [hname]
      exact Str.lt_append_cons _ _ _
    refine .inr (Nat.lt_of_not_le fun hle => ?_)
    -- a later category would have a greater name
    rcases Nat.lt_or_eq_of_le hle with hlt' | heq
    · obtain ⟨hi, rfl⟩ := List.getElem?_eq_some_iff.1 hc
      obtain ⟨hj, rfl⟩ := List.getElem?_eq_some_iff.1 hp
      exact lt_asymm hlt (pairwise_iff_getElem.1 (pairwise_map.1 h.sorted) _ _ hi hj hlt')
    · rw [← heq, hc] at hp
      rw [Option.some.inj hp] at hlt
      exact lt_irrefl _ hlt

theorem Valid.exists_above (h : Valid book) {name rest c} (hc : c ∈ book.categories)
    (hname : c.name = name ++ '/' :: rest) : ∃ up ∈ book.categories, up.name = name := by
  -- from parent to parent, each of them with one segment less
  induction hlen : rest.length using Nat.strong_induction_on generalizing c rest with
  | _ n ih =>
    subst hlen
    by_cases hlast : '/' ∈ rest
    · obtain ⟨last, mid, hrev, hnot⟩ := eq_append_cons_of_mem (mem_reverse.2 hlast)
      have hrest : rest = mid.reverse ++ '/' :: last.reverse := by
        rw [← reverse_reverse rest, hrev]
        simp
      have hsplit : Str.rsplitOnce '/' c.name = some (name ++ '/' :: mid.reverse, last.reverse) := by
        rw [← Str.rsplitOnce_append _ (by simpa using hnot), hname, hrest, append_assoc, cons_append]
      obtain ⟨-, p, hp, hup⟩ := (h.category c hc).parent _ _ hsplit
      exact ih mid.reverse.length (by simp [hrest]) (mem_of_getElem? hp) hup rfl
    · obtain ⟨-, p, hp, hup⟩ := (h.category c hc).parent _ _ (hname ▸ Str.rsplitOnce_append name hlast)
      exact ⟨p, mem_of_getElem? hp, hup⟩

end

end Rove.AddrBook
