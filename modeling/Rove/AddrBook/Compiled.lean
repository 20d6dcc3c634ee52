/-
From rule lines to answers: querying the bytes that were built from some
lines answers what the lines say (`matchesPattern_of_buildBytes`).

What a rule says of a host is `ruleCovers`: names are compared normalised,
and an address lies in a network in either of its spellings, as an IPv4
address or as the IPv6 address it is mapped to.
-/
import Rove.AddrBook.Tables
import Rove.AddrBook.Decoded

namespace Rove.AddrBook

open List
open Policy (Rule revLabels IsLabelSuffix isLabelSuffix_iff)

/-! ## What a rule covers -/

/-- The other spelling of an address that is IPv4, or IPv4-mapped. -/
def twin : IpAddr → Option IpAddr
  | .v4 a => some (.v6 a.toIpv6Mapped)
  | .v6 a => a.toIpv4Mapped.map .v4

def ruleCoversAddr (rule : Rule) (a : IpAddr) : Bool := rule.matchesAddr a || (twin a).any rule.matchesAddr

def ruleCovers (rule : Rule) (host : Str) : Bool :=
  match parseIpAddr host with
  | some a => ruleCoversAddr rule a
  | none => decide (normalizeDomain host ≠ []) && rule.matchesName (normalizeDomain host)

/-! ## Addresses -/

/-- The IPv4 part of a canonical range is what is mapped into the range. -/
theorem canonicalize_v4_iff {start stop x} (hx : x < 2 ^ 32) :
    (∃ lo hi, (lo, hi, true) ∈ canonicalizeIpRange (start, stop, false) ∧ lo ≤ x ∧ x ≤ hi) ↔
      start ≤ ipv4MappedStart + x ∧ ipv4MappedStart + x ≤ stop := by
  have hend : ipv4MappedEnd = ipv4MappedStart + (2 ^ 32 - 1) := rfl
  rw [canonicalizeIpRange]
  split
  · next hclear =>
    simp only [Bool.false_eq_true, false_or] at hclear
    refine ⟨fun h => ?_, fun h => by omega⟩
    obtain ⟨lo, hi, hmem, -⟩ := h
    simp at hmem
  · next hcut =>
    refine ⟨fun h => ?_, fun h => ⟨max start ipv4MappedStart - ipv4MappedStart,
      min stop ipv4MappedEnd - ipv4MappedStart, ?_, ?_, ?_⟩⟩
    · obtain ⟨lo, hi, hmem, hlo, hhi⟩ := h
      simp only [mem_append, mem_singleton, Prod.mk.injEq] at hmem
      rcases hmem with (hmem | ⟨hl, hh, -⟩) | hmem
      · split at hmem <;> simp at hmem
      · omega
      · split at hmem <;> simp at hmem
    · simp
    · omega
    · omega

/-- The IPv6 part of a canonical range is the range without the mapped block. -/
theorem canonicalize_v6_iff {start stop x} (hx : ¬ (ipv4MappedStart ≤ x ∧ x ≤ ipv4MappedEnd)) :
    (∃ lo hi, (lo, hi, false) ∈ canonicalizeIpRange (start, stop, false) ∧ lo ≤ x ∧ x ≤ hi) ↔ start ≤ x ∧ x ≤ stop := by
  rw [canonicalizeIpRange]
  split
  · next hclear => simp
  · next hcut =>
    refine ⟨fun h => ?_, fun h => ?_⟩
    · obtain ⟨lo, hi, hmem, hlo, hhi⟩ := h
      simp only [mem_append, mem_singleton, Prod.mk.injEq, Bool.false_eq_true, and_false, or_false] at hmem
      rcases hmem with hmem | hmem
      · split at hmem
        · simp only [mem_singleton, Prod.mk.injEq, and_true] at hmem
          omega
        · cases hmem
      · split at hmem
        · simp only [mem_singleton, Prod.mk.injEq, and_true] at hmem
          omega
        · cases hmem
    · rcases Nat.lt_or_ge x ipv4MappedStart with hlt | hge
      · refine ⟨start, ipv4MappedStart - 1, mem_append_left _ (mem_append_left _ ?_), by omega, by omega⟩
        rw [if_pos (by omega)]
        exact mem_singleton.2 rfl
      · refine ⟨ipv4MappedEnd + 1, stop, mem_append_right _ ?_, by omega, by omega⟩
        rw [if_pos (by omega)]
        exact mem_singleton.2 rfl

/-- One of the ranges of the family holds the position. -/
def InRanges (ranges : List IpRange) (v4 : Bool) (p : Nat) : Prop := ∃ lo hi, (lo, hi, v4) ∈ ranges ∧ lo ≤ p ∧ p ≤ hi

/-- The ranges of the family an address belongs to hold it. -/
def AddrInRanges (ranges : List IpRange) : IpAddr → Prop
  | .v4 a => InRanges ranges true a.toNat
  | .v6 a =>
    match a.toIpv4Mapped with
    | some v4 => InRanges ranges true v4.toNat
    | none => InRanges ranges false a.toNat

def RangeHolds (r : IpRange) : IpAddr → Prop
  | .v4 a => r.2.2 = true ∧ r.1 ≤ a.toNat ∧ a.toNat ≤ r.2.1
  | .v6 a => r.2.2 = false ∧ r.1 ≤ a.toNat ∧ a.toNat ≤ r.2.1

theorem toNat_of_toIpv4Mapped {a : Ipv6Addr} {v4 : Ipv4Addr} (h : a.toIpv4Mapped = some v4) :
    a.toNat = ipv4MappedStart + v4.toNat := by
  rw [Ipv6Addr.toIpv4Mapped] at h
  split at h
  · next hq =>
    have hstart : ipv4MappedStart = 0xffff * 2 ^ 32 := rfl
    rw [← Option.some.inj h, BitVec.toNat_ofNat]
    omega
  · cases h

theorem not_mapped_of_toIpv4Mapped {a : Ipv6Addr} (h : a.toIpv4Mapped = none) :
    ¬ (ipv4MappedStart ≤ a.toNat ∧ a.toNat ≤ ipv4MappedEnd) := by
  rw [Ipv6Addr.toIpv4Mapped] at h
  split at h
  · cases h
  · next hq =>
    have hstart : ipv4MappedStart = 0xffff * 2 ^ 32 := rfl
    have hend : ipv4MappedEnd = ipv4MappedStart + (2 ^ 32 - 1) := rfl
    omega

/-- The canonical ranges hold an address exactly when the range itself holds
one of its spellings. -/
theorem addrInRanges_canonicalize {r : IpRange} {a : IpAddr} :
    AddrInRanges (canonicalizeIpRange r) a ↔ RangeHolds r a ∨ ∃ t, twin a = some t ∧ RangeHolds r t := by
  obtain ⟨start, stop, isV4⟩ := r
  have hown : ∀ v4 p, InRanges (canonicalizeIpRange (start, stop, true)) v4 p ↔ v4 = true ∧ start ≤ p ∧ p ≤ stop := by
    intro v4 p
    simp [canonicalizeIpRange, InRanges]
  cases a with
  | v4 x =>
    have hmapped : x.toIpv6Mapped.toNat = ipv4MappedStart + x.toNat := Ipv4Addr.toNat_toIpv6Mapped x
    cases isV4 with
    | true => simp [AddrInRanges, hown, RangeHolds, twin]
    | false =>
      simp only [AddrInRanges, InRanges, canonicalize_v4_iff x.isLt, RangeHolds, twin,
        Option.some.injEq, exists_eq_left', hmapped]
      simp
  | v6 x =>
    cases hx : x.toIpv4Mapped with
    | some v4 =>
      have hmapped := toNat_of_toIpv4Mapped hx
      cases isV4 with
      | true => simp [AddrInRanges, hx, hown, RangeHolds, twin]
      | false =>
        simp only [AddrInRanges, hx, InRanges, canonicalize_v4_iff v4.isLt, RangeHolds, twin, hmapped]
        simp
    | none =>
      cases isV4 with
      | true => simp [AddrInRanges, hx, hown, RangeHolds, twin]
      | false =>
        simp only [AddrInRanges, hx, InRanges, canonicalize_v6_iff (not_mapped_of_toIpv4Mapped hx), RangeHolds, twin]
        simp

theorem rangeHolds_netRange {net a} : RangeHolds (netRange net) a ↔ net.contains a = true := by
  cases net <;> cases a <;> simp [RangeHolds, netRange, IpNet.contains, BitVec.le_def]

theorem rangeHolds_addrRange {addr a} : RangeHolds (addrRange addr) a ↔ addr = a := by
  cases addr <;> cases a <;> simp [RangeHolds, addrRange, BitVec.toNat_eq]
  all_goals omega

theorem addrInRanges_ruleRanges {rule a} :
    AddrInRanges (ruleRanges rule) a ↔ ruleCoversAddr rule a = true := by
  have hnone : ¬ AddrInRanges [] a := by
    cases a with
    | v4 x => simp [AddrInRanges, InRanges]
    | v6 x =>
      rw [AddrInRanges]
      cases x.toIpv4Mapped <;> simp [InRanges]
  have hany : ∀ P : IpAddr → Bool, (∃ t, twin a = some t ∧ P t = true) ↔ (twin a).any P = true := by
    intro P
    cases twin a <;> simp
  rw [ruleCoversAddr, Bool.or_eq_true]
  cases rule with
  | net net =>
    simp only [ruleRanges, addrInRanges_canonicalize, rangeHolds_netRange, hany]
    exact Iff.rfl
  | addr addr =>
    simp only [ruleRanges, addrInRanges_canonicalize, rangeHolds_addrRange, Rule.matchesAddr, decide_eq_true_eq, ← hany]
  | _ => simp [ruleRanges, hnone, Rule.matchesAddr, ← hany]

/-! ## Names -/

theorem splitOn_reverseLabels (name : Str) : (reverseLabels name).splitOn '.' = revLabels name := by
  refine splitOn_intercalate '.' (fun part hpart => ?_) ?_
  · exact Str.not_mem_of_mem_splitOn (mem_reverse.1 hpart)
  · simp [splitOn_ne_nil]

theorem reverseLabels_reverseLabels (text : Str) : reverseLabels (reverseLabels text) = text := by
  rw [reverseLabels, splitOn_reverseLabels]
  exact Policy.revLabels_join text

/-- The reversed suffix is a label prefix of the reversed name exactly when
the suffix is a parent of the name. -/
theorem reverseLabels_mem_labelPrefixes {suffix name} :
    reverseLabels suffix ∈ labelPrefixes (reverseLabels name) ↔ IsLabelSuffix suffix name := by
  rw [mem_labelPrefixes, splitOn_reverseLabels, isLabelSuffix_iff]
  refine ⟨fun h => ?_, fun h => ⟨revLabels suffix, Policy.revLabels_ne_nil suffix, h, rfl⟩⟩
  obtain ⟨q, hne, hpre, hjoin⟩ := h
  have hq : q = revLabels suffix := by
    rw [← splitOn_reverseLabels, ← hjoin]
    refine (splitOn_intercalate '.' (fun part hpart => ?_) hne).symm
    exact Str.not_mem_of_mem_splitOn (mem_reverse.1 (hpre.subset hpart))
  rwa [← hq]

theorem ruleItems_name_iff {cat c name rule} (hs : Storable rule) :
    (.exact name c ∈ ruleItems cat rule ∨
      (∃ p ∈ labelPrefixes (reverseLabels name), .suffix p c ∈ ruleItems cat rule) ∨
      ∃ word, Str.contains name word = true ∧ .keyword word c ∈ ruleItems cat rule) ↔
    cat = c ∧ rule.matchesName name = true := by
  cases rule with
  | full n =>
    simp only [ruleItems, mem_singleton, Item.exact.injEq, reduceCtorEq, and_false, exists_false, or_false,
      Rule.matchesName, decide_eq_true_eq]
    rw [and_comm, eq_comm (a := c), eq_comm (a := name)]
  | keyword k =>
    have hk : k ≠ [] := hs
    simp only [ruleItems, mem_singleton, Item.keyword.injEq, reduceCtorEq, and_false, exists_false, false_or,
      Rule.matchesName, hk, ne_eq, not_false_eq_true, decide_true, Bool.true_and]
    refine ⟨fun h => ?_, fun h => ⟨k, h.2, rfl, h.1.symm⟩⟩
    obtain ⟨_, hin, rfl, rfl⟩ := h
    exact ⟨rfl, hin⟩
  | suffix s =>
    have hk : s ≠ [] := hs
    simp only [ruleItems, mem_singleton, Item.suffix.injEq, reduceCtorEq, and_false,
      exists_false, false_or, or_false, Rule.matchesName, hk, ne_eq, not_false_eq_true, decide_true,
      Bool.true_and, decide_eq_true_eq, ← reverseLabels_mem_labelPrefixes]
    refine ⟨fun h => ?_, fun h => ⟨_, h.2, rfl, h.1.symm⟩⟩
    obtain ⟨_, hp, rfl, rfl⟩ := h
    exact ⟨rfl, hp⟩
  | net net => simp [ruleItems, Rule.matchesName]
  | addr addr => simp [ruleItems, Rule.matchesName]
  | book pattern => cases hs
  | blank => cases hs

/-! ## Lines -/

section
variable {parseIpNet : Str → Option IpNet} {epoch : BitVec 64} {b : BookBuilder} {lines : List (Str × Str)}
  (h : (BookBuilder.new epoch).addRules parseIpNet lines = .ok b)
include h

theorem has_rule_iff {i} (hi : ∀ c, i ≠ .category c) :
    b.Has i ↔ ∃ line ∈ lines, i ∈ ruleItems (normalizeCategory line.1) (ruleOf parseIpNet line.2) := by
  rw [has_addRules h]
  refine exists_congr fun line => and_congr_right fun _ => ?_
  rw [lineItems, mem_append, or_iff_right]
  intro hc
  obtain ⟨c, -, rfl⟩ := mem_map.1 hc
  exact hi c rfl

theorem coversAddr_iff {c a} : b.CoversAddr c a ↔
    ∃ line ∈ lines, normalizeCategory line.1 = c ∧ ruleCoversAddr (ruleOf parseIpNet line.2) a = true := by
  have hat : ∀ v4 p, b.CoversAt c v4 p ↔
      ∃ line ∈ lines, normalizeCategory line.1 = c ∧ InRanges (ruleRanges (ruleOf parseIpNet line.2)) v4 p := by
    intro v4 p
    have hitem := fun r => has_rule_iff h (i := .range r c) fun _ => by simp
    unfold BookBuilder.CoversAt InRanges
    simp only [hitem, range_mem_ruleItems]
    refine ⟨fun hc => ?_, fun hc => ?_⟩
    · obtain ⟨lo, hi, ⟨line, hline, hr, hcat⟩, hp⟩ := hc
      exact ⟨line, hline, hcat.symm, lo, hi, hr, hp⟩
    · obtain ⟨line, hline, hcat, lo, hi, hr, hp⟩ := hc
      exact ⟨lo, hi, ⟨line, hline, hr, hcat.symm⟩, hp⟩
  simp only [← addrInRanges_ruleRanges]
  cases a with
  | v4 x => exact hat true x.toNat
  | v6 x =>
    simp only [BookBuilder.CoversAddr, AddrInRanges]
    cases x.toIpv4Mapped with
    | some v4 => exact hat true v4.toNat
    | none => exact hat false x.toNat

theorem coversName_iff {c name} : b.CoversName c name ↔
    ∃ line ∈ lines, normalizeCategory line.1 = c ∧ (ruleOf parseIpNet line.2).matchesName name = true := by
  have hstored : ∀ line ∈ lines, Storable (ruleOf parseIpNet line.2) :=
      fun line hline => ((addRules_spec h).1 line hline).2
  have hexact := has_rule_iff h (i := .exact name c) fun _ => by simp
  have hsuffix := fun p => has_rule_iff h (i := .suffix p c) fun _ => by simp
  have hkeyword := fun word => has_rule_iff h (i := .keyword word c) fun _ => by simp
  simp only [BookBuilder.CoversName, hexact, hsuffix, hkeyword]
  refine ⟨fun hc => ?_, fun hc => ?_⟩
  · obtain ⟨line, hline, hi⟩ | ⟨p, hp, line, hline, hi⟩ | ⟨word, hin, line, hline, hi⟩ := hc
    · exact ⟨line, hline, (ruleItems_name_iff (hstored line hline)).1 (.inl hi)⟩
    · exact ⟨line, hline, (ruleItems_name_iff (hstored line hline)).1 (.inr (.inl ⟨p, hp, hi⟩))⟩
    · exact ⟨line, hline, (ruleItems_name_iff (hstored line hline)).1 (.inr (.inr ⟨word, hin, hi⟩))⟩
  · obtain ⟨line, hline, hm⟩ := hc
    rcases (ruleItems_name_iff (hstored line hline)).2 hm with hi | ⟨p, hp, hi⟩ | ⟨word, hin, hi⟩
    · exact .inl ⟨line, hline, hi⟩
    · exact .inr (.inl ⟨p, hp, line, hline, hi⟩)
    · exact .inr (.inr ⟨word, hin, line, hline, hi⟩)

theorem covers_iff {c host} : b.Covers c host ↔
    ∃ line ∈ lines, normalizeCategory line.1 = c ∧ ruleCovers (ruleOf parseIpNet line.2) host = true := by
  unfold BookBuilder.Covers ruleCovers
  cases parseIpAddr host with
  | some a => exact coversAddr_iff h
  | none =>
    simp only [coversName_iff h, Bool.and_eq_true, decide_eq_true_eq]
    refine ⟨fun hc => ?_, fun hc => ?_⟩
    · obtain ⟨hn, line, hline, hcat, hm⟩ := hc
      exact ⟨line, hline, hcat, hn, hm⟩
    · obtain ⟨line, hline, hcat, hn, hm⟩ := hc
      exact ⟨hn, line, hline, hcat, hm⟩

end

/-! ## Queries -/

/-- `matches(host, resolve([pattern]))`; a pattern that does not resolve
matches nothing. -/
def Book.matchesPattern (book : Book) (cache : SelectorCache book) (pattern host : Str) : Bool :=
  match book.resolve cache [pattern] with
  | .ok (sel, _) => book.matchesHost host sel
  | .error _ => false

theorem Valid.not_under_nil {raw} (h : Valid raw) {c} (hc : c ∈ raw.categories) : ¬ Under [] c.name := by
  intro hu
  have hok := h.category c hc
  rcases hu with hnil | ⟨rest, hrest⟩
  · exact hok.nonempty hnil
  · have hsplit : c.name.splitOn '/' = [] :: rest.splitOn '/' := by
      rw [← hrest]
      exact splitOn_append_cons_self_of_not_mem not_mem_nil rest
    have hseg := hok.segments
    rw [hsplit] at hseg
    cases hseg

theorem selects_iff {raw} (h : Valid raw) (checksum : Digest) (pattern host : Str) :
    (Book.fromRaw raw checksum).selects pattern host = true ↔
      ∃ id c, raw.categories[id]? = some c ∧ Under (normalizeCategory pattern) c.name ∧
        (Book.fromRaw raw checksum).inCategory host id = true := by
  rw [Book.selects, h.idsOf_eq_scanIds, any_eq_true]
  refine exists_congr fun id => ?_
  rw [mem_scanIds]
  refine ⟨fun hid => ?_, fun hid => ?_⟩
  · obtain ⟨⟨c, hc, hu⟩, hin⟩ := hid
    exact ⟨c, hc, hu, hin⟩
  · obtain ⟨c, hc, hu, hin⟩ := hid
    exact ⟨⟨c, hc, hu⟩, hin⟩

/-- A pattern resolves in a valid book when a category is at or under it. -/
theorem resolve_of_under {raw} (h : Valid raw) {checksum}
    (cache : SelectorCache (Book.fromRaw raw checksum)) {pattern c} (hc : c ∈ raw.categories)
    (hu : Under (normalizeCategory pattern) c.name) :
    ∃ r, (Book.fromRaw raw checksum).resolve cache [pattern] = .ok r := by
  obtain ⟨id, hid⟩ := mem_iff_getElem?.1 hc
  refine resolve_isOk_iff.2 fun p hp => ?_
  rw [mem_singleton.1 hp]
  refine ⟨fun hnil => ?_, ?_⟩
  · rw [hnil] at hu
    exact h.not_under_nil hc hu
  · rw [h.idsOf_eq_scanIds]
    exact ne_nil_of_mem (mem_scanIds.2 ⟨c, hid, hu⟩)

theorem matchesPattern_eq_selects {raw} (h : Valid raw) (checksum : Digest)
    (cache : SelectorCache (Book.fromRaw raw checksum)) (pattern host : Str) :
    (Book.fromRaw raw checksum).matchesPattern cache pattern host =
    (Book.fromRaw raw checksum).selects pattern host := by
  rw [Bool.eq_iff_iff, Book.matchesPattern]
  cases hres : (Book.fromRaw raw checksum).resolve cache [pattern] with
  | ok r =>
    obtain ⟨sel, cache'⟩ := r
    simpa using resolve_matchesHost hres host
  | error e =>
    -- a pattern that does not resolve selects no category
    simp only [Bool.false_eq_true, false_iff]
    intro hsel
    obtain ⟨id, c, hc, hu, -⟩ := (selects_iff h checksum pattern host).1 hsel
    obtain ⟨r, hok⟩ := resolve_of_under h cache (mem_of_getElem? hc) hu
    rw [hres] at hok
    cases hok

section
variable {parseIpNet : Str → Option IpNet} {epoch : BitVec 64}
  {lines : List (Str × Str)} {b : BookBuilder} {raw : RawBook}
  (hlines : (BookBuilder.new epoch).addRules parseIpNet lines = .ok b) (hbuild : b.build = .ok raw)
include hlines hbuild

theorem valid_of_build : Valid raw := by
  obtain ⟨st, hfrom⟩ := build_eq_ok (sound_addRules hlines) hbuild
  exact hfrom.valid

theorem name_of_build {name} : (∃ c ∈ raw.categories, c.name = name) ↔ name ∈ b.categories.elems := by
  obtain ⟨st, hfrom⟩ := build_eq_ok (sound_addRules hlines) hbuild
  rw [← hfrom.names, mem_map]

theorem selects_of_build (checksum : Digest) (pattern host : Str) :
    (Book.fromRaw raw checksum).selects pattern host = true ↔
      ∃ line ∈ lines, Under (normalizeCategory pattern) (normalizeCategory line.1) ∧
        ruleCovers (ruleOf parseIpNet line.2) host = true := by
  have hsound := sound_addRules hlines
  obtain ⟨st, hfrom⟩ := build_eq_ok hsound hbuild
  rw [selects_iff hfrom.valid]
  -- the category of a line stands in the table, at some place
  have hname : ∀ (id : Nat) (name : Str), b.categories.elems[id]? = some name ↔
      ∃ c : Category, raw.categories[id]? = some c ∧ c.name = name := by
    intro id name
    rw [← hfrom.names, getElem?_map, Option.map_eq_some_iff]
  simp only [inCategory_built hfrom hsound, covers_iff hlines, hname]
  refine ⟨fun hm => ?_, fun hm => ?_⟩
  · obtain ⟨id, c, hc, hu, _, ⟨c', hc', rfl⟩, line, hline, hcat, hcov⟩ := hm
    obtain rfl := Option.some.inj (hc.symm.trans hc')
    exact ⟨line, hline, hcat ▸ hu, hcov⟩
  · obtain ⟨line, hline, hu, hcov⟩ := hm
    obtain ⟨id, hid⟩ := mem_iff_getElem?.1 (category_of_line hlines hline)
    obtain ⟨c, hc, hcname⟩ := (hname id _).1 hid
    exact ⟨id, c, hc, hcname ▸ hu, _, ⟨c, hc, hcname⟩, line, hline, rfl, hcov⟩

end

theorem fromBytes_of_buildBytes {b : BookBuilder} {raw : RawBook} (hbuild : b.build = .ok raw) {sha256 : Bytes → Digest}
    {bytes : Bytes} (hbytes : b.buildBytes sha256 = .ok bytes) {book : Book} :
    Book.fromBytes sha256 bytes = .ok book ↔ WithinLimits raw ∧ book = Book.fromRaw raw (sha256 bytes) := by
  obtain ⟨raw', hraw', hencode⟩ := Res.bind_eq_ok.1 hbytes
  obtain rfl := Except.ok.inj (hbuild.symm.trans hraw')
  simp only [fromBytes_eq_ok, decode_of_encode hencode]
  refine ⟨fun h => ?_, fun h => ⟨raw, ⟨h.1, rfl⟩, h.2⟩⟩
  obtain ⟨_, ⟨hlim, rfl⟩, hbook⟩ := h
  exact ⟨hlim, hbook⟩

/-- Querying the bytes that were built from some lines answers what the lines
say: a host matches a category pattern exactly when a line at or under the
pattern covers it. The decoder takes the bytes unless the book is beyond its
limits. -/
theorem matchesPattern_of_buildBytes (parseIpNet : Str → Option IpNet) (sha256 : Bytes → Digest) (epoch : BitVec 64)
    (lines : List (Str × Str)) (b : BookBuilder) (raw : RawBook)
    (hlines : (BookBuilder.new epoch).addRules parseIpNet lines = .ok b) (hbuild : b.build = .ok raw) :
    (∀ bytes, b.buildBytes sha256 = .ok bytes → WithinLimits raw → ∃ book, Book.fromBytes sha256 bytes = .ok book) ∧
      ∀ bytes book, b.buildBytes sha256 = .ok bytes → Book.fromBytes sha256 bytes = .ok book →
        ∀ (cache : SelectorCache book) (pattern host : Str), book.matchesPattern cache pattern host = true ↔
          ∃ line ∈ lines, Under (normalizeCategory pattern) (normalizeCategory line.1) ∧
            ruleCovers (ruleOf parseIpNet line.2) host = true := by
  refine ⟨fun bytes hbytes hlim => ?_, fun bytes book hbytes hbook cache pattern host => ?_⟩
  · exact ⟨_, (fromBytes_of_buildBytes hbuild hbytes).2 ⟨hlim, rfl⟩⟩
  · obtain ⟨-, rfl⟩ := (fromBytes_of_buildBytes hbuild hbytes).1 hbook
    rw [matchesPattern_eq_selects (valid_of_build hlines hbuild)]
    exact selects_of_build hlines hbuild _ pattern host

def sampleBuilt : RawBook where
  buildEpoch := 1
  categories := [⟨"google", u32Max⟩, ⟨"google/ads", 0⟩, ⟨"lan", u32Max⟩]
  catsetWords := 1
  catsets := [4, 2, 1]
  ip4 := [(0x0a000000, 0x0affffff, 0)]
  domainExact := [⟨"ads.example.com", 1⟩]
  domainSuffix := [⟨"com.google", 2⟩]
  keywords := [⟨"corp", 0⟩]

theorem build_sampleLines :
    ((BookBuilder.new 1).addRules sampleNets sampleLines >>= BookBuilder.build) = .ok sampleBuilt := by decide +kernel

theorem withinLimits_sampleBuilt : WithinLimits sampleBuilt := by
  refine ⟨?_, ?_, ?_, ?_, ?_, ?_, ?_, ?_⟩
  all_goals decide +kernel

theorem texts_sampleBuilt : ∀ t ∈ sampleBuilt.texts, (utf8Bytes t).length ≤ 65535 := by decide +kernel

theorem validate_sampleBuilt : validate sampleBuilt = .ok () := by decide +kernel

theorem encode_sampleBuilt : encode zeroDigest sampleBuilt = .ok (fileBytes zeroDigest sampleBuilt) :=
  encode_eq_ok.2 ⟨validate_eq_ok.1 validate_sampleBuilt,
    sectionsFit_of_withinLimits withinLimits_sampleBuilt texts_sampleBuilt, rfl⟩

theorem matchesPattern_of_buildBytes_sampleLines :
    ∃ b bytes book, (BookBuilder.new 1).addRules sampleNets sampleLines = .ok b ∧ b.build = .ok sampleBuilt ∧
      b.buildBytes zeroDigest = .ok bytes ∧ Book.fromBytes zeroDigest bytes = .ok book ∧
      (book.matchesPattern (.empty book) "google" "ADS.example.com." = true ↔
        ∃ line ∈ sampleLines, Under (normalizeCategory "google") (normalizeCategory line.1) ∧
          ruleCovers (ruleOf sampleNets line.2) "ADS.example.com." = true) ∧
      (book.matchesPattern (.empty book) "lan" "::ffff:10.1.2.3" = true ↔
        ∃ line ∈ sampleLines, Under (normalizeCategory "lan") (normalizeCategory line.1) ∧
          ruleCovers (ruleOf sampleNets line.2) "::ffff:10.1.2.3" = true) := by
  obtain ⟨b, hb, hbuild⟩ := Res.bind_eq_ok.1 build_sampleLines
  have hbytes : b.buildBytes zeroDigest = .ok (fileBytes zeroDigest sampleBuilt) := by
    rw [BookBuilder.buildBytes, hbuild]
    exact encode_sampleBuilt
  obtain ⟨hdecodes, hqueries⟩ := matchesPattern_of_buildBytes sampleNets zeroDigest 1
    sampleLines b sampleBuilt hb hbuild
  obtain ⟨book, hbook⟩ := hdecodes _ hbytes withinLimits_sampleBuilt
  exact ⟨b, _, book, hb, hbuild, hbytes, hbook, hqueries _ book hbytes hbook _ _ _, hqueries _ book hbytes hbook _ _ _⟩

example : ruleCovers (ruleOf sampleNets "10.0.0.0/8") "::ffff:10.1.2.3" = true := by decide +kernel

end Rove.AddrBook
