/-
`build` is a function of the items a builder holds: two builders with the
same items build the same book (`build_congr`), so that the bytes are a
function of the set of lines (`buildBytes_eq_of_same_lines`).
-/
import Rove.AddrBook.Contents
import Rove.AddrBook.Scan
import Rove.AddrBook.RoundTrip

namespace Rove.AddrBook

open List

/-! ## The ranges of a builder -/

/-- A range that is not empty and within the addresses. -/
def IpRange.Fits (r : IpRange) : Prop := r.1 ≤ r.2.1 ∧ r.2.1 < infinity

theorem mem_canonicalizeIpRange {start stop isV4 r}
    (h : r ∈ canonicalizeIpRange (start, stop, isV4)) :
    ((isV4 = true ∨ stop < ipv4MappedStart ∨ ipv4MappedEnd < start) ∧ r = (start, stop, isV4)) ∨
    (isV4 = false ∧ ipv4MappedStart ≤ stop ∧ start ≤ ipv4MappedEnd ∧
      (start < ipv4MappedStart ∧ r = (start, ipv4MappedStart - 1, false) ∨
        r = (max start ipv4MappedStart - ipv4MappedStart, min stop ipv4MappedEnd - ipv4MappedStart, true) ∨
        ipv4MappedEnd < stop ∧ r = (ipv4MappedEnd + 1, stop, false))) := by
  rw [canonicalizeIpRange] at h
  split at h
  · next hwhole => exact .inl ⟨hwhole, mem_singleton.1 h⟩
  · next hcut =>
    simp only [not_or, Nat.not_lt, Bool.not_eq_true] at hcut
    refine .inr ⟨hcut.1, hcut.2.1, hcut.2.2, ?_⟩
    rw [mem_append, mem_append, mem_singleton, or_assoc] at h
    refine h.imp (fun h => ?_) (Or.imp_right fun h => ?_)
    · split at h
      · next hlt => exact ⟨hlt, mem_singleton.1 h⟩
      · cases h
    · split at h
      · next hlt => exact ⟨hlt, mem_singleton.1 h⟩
      · cases h

theorem fits_of_mem_canonicalize {r r'} (h : r.Fits) (hr' : r' ∈ canonicalizeIpRange r) : r'.Fits := by
  obtain ⟨start, stop, isV4⟩ := r
  rcases mem_canonicalizeIpRange hr' with ⟨-, rfl⟩ | ⟨-, hstop, hstart, ⟨hlt, rfl⟩ | rfl | ⟨hlt, rfl⟩⟩
  · exact h
  all_goals
    simp only [IpRange.Fits] at h ⊢
    omega

theorem networkBits_le_broadcastBits {w} (a : BitVec w) (len : Nat) :
    (networkBits a len).toNat ≤ (broadcastBits a len).toNat := by
  exact Nat.le_trans Nat.and_le_left Nat.left_le_or

theorem fits_netRange (net : IpNet) : (netRange net).Fits := by
  cases net with
  | v4 a n => exact ⟨networkBits_le_broadcastBits a n.val, Nat.lt_trans (broadcastBits a n.val).isLt (by decide)⟩
  | v6 a n => exact ⟨networkBits_le_broadcastBits a n.val, (broadcastBits a n.val).isLt⟩

theorem fits_addrRange (addr : IpAddr) : (addrRange addr).Fits := by
  cases addr with
  | v4 a => exact ⟨Nat.le_refl _, Nat.lt_trans a.isLt (by decide)⟩
  | v6 a => exact ⟨Nat.le_refl _, a.isLt⟩

def Item.cat : Item → Str
  | .category cat => cat
  | .range _ cat => cat
  | .exact _ cat => cat
  | .suffix _ cat => cat
  | .keyword _ cat => cat

/-- A builder's items are under registered categories, and its ranges fit. -/
structure BookBuilder.Sound (b : BookBuilder) : Prop where
  known : ∀ i, b.Has i → i.cat ∈ b.categories.elems
  fits : ∀ r cat, b.Has (.range r cat) → r.Fits

theorem cat_of_mem_ruleItems {cat rule i} (h : i ∈ ruleItems cat rule) : i.cat = cat := by
  have hranges : ∀ ranges : List IpRange, i ∈ ranges.map (.range · cat) → i.cat = cat := by
    intro ranges hi
    obtain ⟨r, -, rfl⟩ := mem_map.1 hi
    rfl
  cases rule with
  | full name => rw [mem_singleton.1 h]; rfl
  | keyword word => rw [mem_singleton.1 h]; rfl
  | suffix name => rw [mem_singleton.1 h]; rfl
  | _ => exact hranges _ h

theorem range_mem_ruleItems {cat cat' rule r} :
    .range r cat' ∈ ruleItems cat rule ↔ r ∈ ruleRanges rule ∧ cat' = cat := by
  have hmap : ∀ ranges : List IpRange, Item.range r cat' ∈ ranges.map (.range · cat) ↔ r ∈ ranges ∧ cat' = cat := by
    intro ranges
    rw [mem_map]
    refine ⟨fun h => ?_, fun h => ⟨r, h.1, by rw [h.2]⟩⟩
    obtain ⟨_, hr, heq⟩ := h
    cases heq
    exact ⟨hr, rfl⟩
  cases rule with
  | net net => exact hmap _
  | addr addr => exact hmap _
  | _ => simp [ruleItems, ruleRanges]

theorem fits_of_mem_ruleRanges {rule r} (h : r ∈ ruleRanges rule) : r.Fits := by
  cases rule with
  | net net => exact fits_of_mem_canonicalize (fits_netRange net) h
  | addr addr => exact fits_of_mem_canonicalize (fits_addrRange addr) h
  | _ => cases h

theorem category_of_line {parseIpNet epoch b lines}
    (h : (BookBuilder.new epoch).addRules parseIpNet lines = .ok b) {line} (hline : line ∈ lines) :
    normalizeCategory line.1 ∈ b.categories.elems := by
  refine (has_addRules h (.category _)).2 ⟨line, hline, mem_append_left _ (mem_map_of_mem ?_)⟩
  exact ((addRules_spec h).1 line hline).1.mem_pathsOf

theorem sound_addRules {parseIpNet epoch b lines}
    (h : (BookBuilder.new epoch).addRules parseIpNet lines = .ok b) : b.Sound := by
  refine ⟨fun i hi => ?_, fun r cat hi => ?_⟩
  · obtain ⟨line, hline, hmem⟩ := (has_addRules h i).1 hi
    rcases mem_append.1 hmem with hmem | hmem
    · obtain ⟨c, -, rfl⟩ := mem_map.1 hmem
      exact hi
    · rw [cat_of_mem_ruleItems hmem]
      exact category_of_line h hline
  · obtain ⟨line, -, hmem⟩ := (has_addRules h _).1 hi
    rcases mem_append.1 hmem with hmem | hmem
    · obtain ⟨c, -, hc⟩ := mem_map.1 hmem
      cases hc
    · exact fits_of_mem_ruleRanges (range_mem_ruleItems.1 hmem).1

/-! ## Ids -/

theorem catIdOf_get? {cats} (h : cats.Nodup) {name id} :
    (catIdOf cats).get? name = some id ↔ ∃ i, cats[i]? = some name ∧ BitVec.ofNat 32 i = id := by
  refine (HashMap.get?_foldl_zipIdx (f := fun name : Str => name) (by simpa using h)).trans ⟨fun h => ?_, fun h => ?_⟩
  · obtain ⟨i, _, hi, rfl, hid⟩ := h
    exact ⟨i, hi, hid⟩
  · obtain ⟨i, hi, hid⟩ := h
    exact ⟨i, name, hi, rfl, hid⟩

theorem exists_catId {cats : BTreeSet Str} {name : Str} (h : name ∈ cats.elems) :
    ∃ id, (catIdOf cats.elems).get? name = some id := by
  obtain ⟨i, hi⟩ := mem_iff_getElem?.1 h
  exact ⟨_, (catIdOf_get? cats.nodup_elems).2 ⟨i, hi, rfl⟩⟩

/-- A collected range with the id its category has. -/
def withCatId (catId : HashMap Str (BitVec 32)) (r : Nat × Nat × Str) : RawRange :=
  (r.1, r.2.1, ((catId.get? r.2.2).getD 0).toNat)

theorem withCatId_cat {catId r id}
    (h : catId.get? r.2.2 = some id) : (withCatId catId r).2.2 = id.toNat := by
  rw [withCatId, h]
  rfl

theorem mapM_rawRange {cats : BTreeSet Str} {ranges : List (Nat × Nat × Str)} (h : ∀ r ∈ ranges, r.2.2 ∈ cats.elems) :
    ranges.mapM (rawRange (catIdOf cats.elems)) = .ok (ranges.map (withCatId (catIdOf cats.elems))) := by
  refine Res.mapM_eq_map fun r hr => ?_
  obtain ⟨id, hid⟩ := exists_catId (h r hr)
  rw [rawRange, indexCatId, withCatId, hid]
  rfl

section
variable {b : BookBuilder} (h : b.Sound) (v4 : Bool)
include h

theorem BookBuilder.Sound.mapM_ranges : (b.ranges v4).mapM (rawRange (catIdOf b.categories.elems)) =
    .ok ((b.ranges v4).map (withCatId (catIdOf b.categories.elems))) :=
  mapM_rawRange fun r hr => h.known (.range (r.1, r.2.1, v4) r.2.2) hr

theorem BookBuilder.Sound.rangesFit (catId : HashMap Str (BitVec 32)) :
    RangesFit ((b.ranges v4).map (withCatId catId)) := by
  intro raw hraw
  obtain ⟨r, hr, rfl⟩ := mem_map.1 hraw
  exact h.fits (r.1, r.2.1, v4) r.2.2 hr

end

/-! ## The book is a function of the items -/

/-- Two builders with the same items build the same book, or fail alike. -/
theorem build_congr {b b' : BookBuilder} (hb : b.Sound) (hb' : b'.Sound) (hepoch : b.epoch = b'.epoch)
    (h : ∀ i, b.Has i ↔ b'.Has i) : b.build = b'.build := by
  have hcats : b.categories = b'.categories := BTreeSet.ext_elems fun c => h (.category c)
  have hexact : b.exact = b'.exact := BTreeMultimap.ext_holds fun k c => h (.exact k c)
  have hsuffix : b.suffix = b'.suffix := BTreeMultimap.ext_holds fun k c => h (.suffix k c)
  have hkeywords : b.keywords = b'.keywords := BTreeMultimap.ext_holds fun k c => h (.keyword k c)
  have hsweep : ∀ v4 words, sweep ((b.ranges v4).map (withCatId (catIdOf b.categories.elems))) words =
      sweep ((b'.ranges v4).map (withCatId (catIdOf b.categories.elems))) words := by
    intro v4 words
    refine sweep_congr (hb.rangesFit v4 _) (fun raw => ?_) words
    rw [mem_map, mem_map]
    exact exists_congr fun r => and_congr_left fun _ => h (.range (r.1, r.2.1, v4) r.2.2)
  have hmap := hb.mapM_ranges
  have hmap' := hb'.mapM_ranges
  rw [← hcats] at hmap'
  have h4 := hmap true
  have h4' := hmap' true
  have h6 := hmap false
  have h6' := hmap' false
  have hs4 := hsweep true
  have hs6 := hsweep false
  simp only [BookBuilder.ranges, if_true, Bool.false_eq_true, if_false] at h4 h4' h6 h6' hs4 hs6
  unfold BookBuilder.build
  simp only [← hcats, ← hexact, ← hsuffix, ← hkeywords, ← hepoch, h4, h4', h6, h6', hs4, hs6, Res.ok_bind]

/-- The bytes of a book are a function of the set of lines: in whatever order
and however often accepted lines are added, they are the same, or the same
failure. -/
theorem buildBytes_eq_of_same_lines (parseIpNet : Str → Option IpNet) (sha256 : Bytes → Digest) (epoch : BitVec 64)
    (lines lines' : List (Str × Str))
    (haccepted : ∀ line ∈ lines, ∃ b, (BookBuilder.new epoch).addRule parseIpNet line.1 line.2 = (b, .ok ()))
    (hsame : ∀ line, line ∈ lines' ↔ line ∈ lines) :
    ∃ b b', (BookBuilder.new epoch).addRules parseIpNet lines = .ok b ∧
      (BookBuilder.new epoch).addRules parseIpNet lines' = .ok b' ∧ b'.buildBytes sha256 = b.buildBytes sha256 := by
  have hacc : ∀ line ∈ lines, Accepted parseIpNet line := by
    intro line hline
    obtain ⟨b, hb⟩ := haccepted line hline
    exact (addRule_spec hb).1
  obtain ⟨b, hb⟩ := addRules_isOk (b := .new epoch) hacc
  obtain ⟨b', hb'⟩ := addRules_isOk (b := .new epoch) fun line hline => hacc line ((hsame line).1 hline)
  have hbuild : b'.build = b.build := by
    refine build_congr (sound_addRules hb') (sound_addRules hb) ?_ fun i => ?_
    · rw [(addRules_spec hb).2.1, (addRules_spec hb').2.1]
    · simp only [has_addRules hb, has_addRules hb', hsame]
  refine ⟨b, b', hb, hb', ?_⟩
  rw [BookBuilder.buildBytes, BookBuilder.buildBytes, hbuild]

/-- A reading of networks that knows one text. -/
def sampleNets (t : Str) : Option IpNet :=
  let net := Ipv4Net.ofLen (Ipv4Addr.new 10 0 0 0) 8
  if t = "10.0.0.0/8" then some (.v4 net.addr net.prefixLen) else none

def sampleLines : List (Str × Str) :=
  [("Google/Ads", "full:ads.example.com"), ("google", "*.google.com"),
    ("lan", "10.0.0.0/8"), ("lan", "keyword:corp")]

theorem accepted_sampleLines :
    ∀ line ∈ sampleLines, ((BookBuilder.new 1).addRule sampleNets line.1 line.2).2 = .ok () := by decide +kernel

theorem buildBytes_eq_of_same_lines_sampleLines :
    ∃ b b', (BookBuilder.new 1).addRules sampleNets sampleLines = .ok b ∧
      (BookBuilder.new 1).addRules sampleNets (sampleLines.reverse ++ sampleLines) = .ok b' ∧
        b'.buildBytes zeroDigest = b.buildBytes zeroDigest :=
  buildBytes_eq_of_same_lines sampleNets zeroDigest 1 sampleLines _
    (fun line hline => ⟨_, Prod.ext rfl (accepted_sampleLines line hline)⟩) fun line => by simp

end Rove.AddrBook
