/-
Decoding what was encoded. A file that `encode` wrote is refused by `decode`
only for the decoder's limits on counts and on memory (`WithinLimits`), and
otherwise gives the book back (`decode_of_encode`).

Each section has its own such statement; the table and the payloads then fit
together because offsets are where the payloads before them end.
-/
import Rove.AddrBook.Codec
import Rove.AddrBook.Valid

namespace Rove.AddrBook

open List Res

/-! ## Records -/

theorem readUInt_append {k n} (h : n < 256 ^ k) (rest : Bytes) :
    readUInt k (leBytes k n ++ rest) = .ok (n, rest) := readLe_append truncated h rest

theorem toNat_lt_256_pow {w k} (hw : w = 8 * k) (b : BitVec w) : b.toNat < 256 ^ k := by
  subst hw
  have h := b.isLt
  rw [Nat.pow_mul] at h
  exact h

theorem readHead_append {h} (hoff : h.off < 2 ^ 32) (hlen : h.len < 2 ^ 16) (rest : Bytes) :
    readHead (h.toBytes ++ rest) = .ok (h, rest) := by
  rw [readHead, Head.toBytes]
  simp only [append_assoc, readUInt_append (k := 4) hoff, readUInt_append (k := 2) hlen,
    readUInt_append (toNat_lt_256_pow (k := 4) rfl h.tag), ok_bind, BitVec.ofNat_toNat, BitVec.setWidth_eq]
  rfl

theorem readWord_append (word : BitVec 64) (rest : Bytes) :
    readWord (leBytes 8 word.toNat ++ rest) = .ok (word, rest) := by
  rw [readWord]
  simp only [readUInt_append (toNat_lt_256_pow (k := 8) rfl word), ok_bind, BitVec.ofNat_toNat, BitVec.setWidth_eq]
  rfl

theorem readRange_append {w k} (hw : w = 8 * k) (r : Range w) (rest : Bytes) :
    readRange w k (rangeBytes k r ++ rest) = .ok (r, rest) := by
  rw [readRange, rangeBytes]
  simp only [append_assoc, readUInt_append (toNat_lt_256_pow hw r.1), readUInt_append (toNat_lt_256_pow hw r.2.1),
    readUInt_append (toNat_lt_256_pow (k := 4) rfl r.2.2), ok_bind, BitVec.ofNat_toNat, BitVec.setWidth_eq]
  rfl

/-! ## Pooled sections -/

/-- The heads of entries whose texts start at `pos` in the pool. -/
def headsOf : (pos : Nat) → List Pooled → List Head
  | _, [] => []
  | pos, (text, tag) :: entries =>
    ⟨pos, (utf8Bytes text).length, tag⟩ :: headsOf (pos + (utf8Bytes text).length) entries

def poolOf (entries : List Pooled) : Bytes := entries.flatMap fun e => utf8Bytes e.1

def pooledBytes (entries : List Pooled) : Bytes :=
  leBytes 4 entries.length ++ (headsOf 0 entries).flatMap Head.toBytes ++
  leBytes 4 (poolOf entries).length ++ poolOf entries

/-- The counts, offsets and lengths of a pooled section fit their fields. -/
structure PooledFits (entries : List Pooled) : Prop where
  count : entries.length < 2 ^ 32
  heads : ∀ h ∈ headsOf 0 entries, h.off < 2 ^ 32 ∧ h.len < 2 ^ 16
  pool : (poolOf entries).length < 2 ^ 32

@[simp] theorem length_headsOf (pos : Nat) (entries : List Pooled) : (headsOf pos entries).length = entries.length := by
  induction entries generalizing pos with
  | nil => rfl
  | cons e entries ih => simp [headsOf, ih]

theorem length_toBytes (h : Head) : h.toBytes.length = 10 := by simp [Head.toBytes]

variable {α : Type} {entries : List Pooled} {what : String} {heap : Nat} {book : RawBook}
  {sections : List (Nat × Bytes)} {sha256 : Bytes → Digest}

theorem length_flatMap_records {f : α → Bytes} {k : Nat} (hf : ∀ a, (f a).length = k) (as : List α) :
    (as.flatMap f).length = as.length * k := by
  simp [length_flatMap, hf]

theorem length_pooledBytes (entries : List Pooled) :
    (pooledBytes entries).length = 8 + entries.length * 10 + (poolOf entries).length := by
  have hheads := length_flatMap_records length_toBytes (headsOf 0 entries)
  rw [length_headsOf] at hheads
  simp only [pooledBytes, length_append, length_leBytes, hheads]
  omega

theorem encodeHeads_eq_ok {offError lenError heads pool r} :
    encodeHeads offError lenError heads pool entries = .ok r ↔
      (∀ h ∈ headsOf pool.length entries, h.off < 2 ^ 32 ∧ h.len < 2 ^ 16) ∧
        r = (heads ++ (headsOf pool.length entries).flatMap Head.toBytes, pool ++ poolOf entries) := by
  induction entries generalizing heads pool with
  | nil => simp [encodeHeads, headsOf, poolOf, eq_comm (a := r)]
  | cons e entries ih =>
    obtain ⟨text, tag⟩ := e
    rw [encodeHeads]
    rw [ensure_bind_eq_ok, ensure_bind_eq_ok, ih, headsOf, forall_mem_cons, length_append]
    simp [poolOf, and_assoc]

theorem encodePooled_eq_ok {offError lenError payload} :
    encodePooled offError lenError entries = .ok payload ↔ PooledFits entries ∧ payload = pooledBytes entries := by
  rw [encodePooled, ensure_bind_eq_ok, bind_eq_ok]
  simp only [encodeHeads_eq_ok, ensure_bind_eq_ok, pure_eq_ok, length_nil, nil_append]
  refine ⟨fun h => ?_, fun h => ?_⟩
  · obtain ⟨hcount, ⟨heads, pool⟩, ⟨hheads, hr⟩, h⟩ := h
    cases hr
    exact ⟨⟨hcount, hheads, h.1⟩, h.2.symm⟩
  · obtain ⟨hfits, rfl⟩ := h
    exact ⟨hfits.count, _, ⟨hfits.heads, rfl⟩, hfits.pool, rfl⟩

theorem decodeEntries_headsOf (errors : PoolErrors) (before : Bytes) (entries : List Pooled) :
    decodeEntries errors (before ++ poolOf entries) before.length (headsOf before.length entries) = .ok entries := by
  induction entries generalizing before with
  | nil =>
    rw [headsOf, decodeEntries, ensure_bind_eq_ok]
    exact ⟨by simp [poolOf], rfl⟩
  | cons e entries ih =>
    obtain ⟨text, tag⟩ := e
    have hpool : before ++ poolOf ((text, tag) :: entries) = before ++ utf8Bytes text ++ poolOf entries := by
      simp [poolOf]
    have hslice : ((before ++ utf8Bytes text ++ poolOf entries).drop before.length).take (utf8Bytes text).length =
        utf8Bytes text := by
      rw [append_assoc, drop_left, take_left]
    have hrest := ih (before ++ utf8Bytes text)
    rw [length_append] at hrest
    rw [hpool, headsOf, decodeEntries, ensure_bind_eq_ok, ensure_bind_eq_ok]
    refine ⟨rfl, by simp, ?_⟩
    rw [hslice, fromUtf8_utf8Bytes]
    rw [hrest]
    rfl

def pooledHeap (entries : List Pooled) : Nat := entries.length * perEntryHeap + (pooledBytes entries).length

theorem chargeDecodedHeap_bind_eq_ok {total bytes : Nat} {f : Nat → Res α} {r : α} :
    (chargeDecodedHeap total bytes what >>= f) = .ok r ↔
      total + bytes ≤ maxDecodedHeapBytes ∧ f (total + bytes) = .ok r := by
  rw [chargeDecodedHeap, bind_eq_ok]
  simp only [ensure_bind_eq_ok, pure_eq_ok, and_assoc, exists_and_left, exists_eq_left']

theorem decodePooled_eq_ok {errors : PoolErrors} {limit : Nat} {r : List Pooled × Nat}
    (hfits : PooledFits entries) :
    decodePooled errors limit (pooledBytes entries) heap = .ok r ↔
      (entries.length ≤ limit ∧ heap + pooledHeap entries ≤ maxDecodedHeapBytes) ∧
        r = (entries, heap + pooledHeap entries) := by
  have hread : readUInt 4 (pooledBytes entries) = .ok (entries.length,
      (headsOf 0 entries).flatMap Head.toBytes ++ (leBytes 4 (poolOf entries).length ++ poolOf entries)) := by
    rw [pooledBytes, append_assoc, append_assoc]
    exact readUInt_append (k := 4) hfits.count _
  have hheads : readMany readHead (headsOf 0 entries).length _ = .ok (headsOf 0 entries, _) :=
    readMany_append (fun h hh => readHead_append (hfits.heads h hh).1 (hfits.heads h hh).2)
      (leBytes 4 (poolOf entries).length ++ poolOf entries)
  rw [length_headsOf] at hheads
  have hpool := readBytes_append truncated (poolOf entries) []
  rw [append_nil] at hpool
  have hentries := decodeEntries_headsOf errors [] entries
  rw [nil_append, length_nil] at hentries
  have hshort : 8 + entries.length * 10 ≤ (pooledBytes entries).length := by
    rw [length_pooledBytes]
    omega
  rw [decodePooled, hread, ok_bind]
  simp only [ensure_bind_eq_ok, chargeDecodedHeap_bind_eq_ok, hheads,
    ok_bind, readUInt_append (k := 4) hfits.pool, hpool, ensureDone, hentries, hshort, pure_eq_ok, true_and]
  rw [eq_comm (a := r), and_assoc]
  rfl

theorem decodePooled_map_eq_ok {toPooled ofPooled}
    (hback : ∀ a, ofPooled (toPooled a) = a) {errors limit entries r} (hfits : PooledFits (entries.map toPooled)) :
    (do
        let (pooled, heap) ← decodePooled errors limit (pooledBytes (entries.map toPooled)) heap
        pure (pooled.map ofPooled, heap) : Res (List α × Nat)) = .ok r ↔
      (entries.length ≤ limit ∧ heap + pooledHeap (entries.map toPooled) ≤ maxDecodedHeapBytes) ∧
        r = (entries, heap + pooledHeap (entries.map toPooled)) := by
  have hmap : (entries.map toPooled).map ofPooled = entries := by simp [Function.comp_def, hback]
  simp only [bind_eq_ok, decodePooled_eq_ok hfits, length_map, pure_eq_ok]
  refine ⟨fun h => ?_, fun h => ?_⟩
  · obtain ⟨_, ⟨hlimits, rfl⟩, rfl⟩ := h
    exact ⟨hlimits, by rw [hmap]⟩
  · obtain ⟨hlimits, rfl⟩ := h
    exact ⟨_, ⟨hlimits, rfl⟩, by rw [hmap]⟩

/-! ## Sets and ranges -/

/-- The payload of the section of category sets. -/
def catsetsBytes (words : BitVec 32) (catsets : List (BitVec 64)) : Bytes :=
  leBytes 4 words.toNat ++ leBytes 4 (catsets.length / words.toNat) ++ catsets.flatMap fun w => leBytes 8 w.toNat

/-- The payload of a section of ranges. -/
def rangesBytes {w : Nat} (k : Nat) (ranges : List (Range w)) : Bytes :=
  leBytes 4 ranges.length ++ ranges.flatMap (rangeBytes k)

theorem length_catsetsBytes (words : BitVec 32) (catsets : List (BitVec 64)) :
    (catsetsBytes words catsets).length = 8 + catsets.length * 8 := by
  have hwords := length_flatMap_records (f := fun w : BitVec 64 => leBytes 8 w.toNat)
    (fun _ => length_leBytes _ _) catsets
  simp only [catsetsBytes, length_append, length_leBytes, hwords]

theorem length_rangesBytes {w : Nat} (k : Nat) (ranges : List (Range w)) :
    (rangesBytes k ranges).length = 4 + ranges.length * (k + k + 4) := by
  have hrange : ∀ r : Range w, (rangeBytes k r).length = k + k + 4 := by
    intro r
    simp [rangeBytes, Nat.add_assoc]
  rw [rangesBytes, length_append, length_leBytes, length_flatMap_records hrange]

theorem decodeCatsets_eq_ok {words : BitVec 32} {catsets : List (BitVec 64)}
    {r : BitVec 32 × List (BitVec 64) × Nat} (hwhole : words.toNat * (catsets.length / words.toNat) = catsets.length)
    (hfits : catsets.length / words.toNat < 2 ^ 32) :
    decodeCatsets (catsetsBytes words catsets) heap = .ok r ↔
      (catsets.length ≤ maxEntries ∧ heap + catsets.length * 8 ≤ maxDecodedHeapBytes) ∧
        r = (words, catsets, heap + catsets.length * 8) := by
  have hread : readMany readWord catsets.length (catsets.flatMap (fun w => leBytes 8 w.toNat)) = .ok (catsets, []) := by
    have h := readMany_append (fun w (_ : w ∈ catsets) => readWord_append w) []
    rwa [append_nil] at h
  have hlen := length_catsetsBytes words catsets
  rw [decodeCatsets]
  generalize hbytes : catsetsBytes words catsets = bytes at hlen ⊢
  rw [catsetsBytes, append_assoc] at hbytes
  rw [← hbytes, readUInt_append (toNat_lt_256_pow (k := 4) rfl words), ok_bind]
  dsimp only
  rw [readUInt_append (k := 4) hfits, ok_bind, hbytes]
  simp only [hwhole, hlen, ensure_bind_eq_ok, chargeDecodedHeap_bind_eq_ok,
    hread, ok_bind, ensureDone, pure_eq_ok, true_and, BitVec.ofNat_toNat, BitVec.setWidth_eq]
  rw [eq_comm (a := r), and_assoc]

theorem decodeRanges_eq_ok {w k size : Nat} {ranges : List (Range w)} {r : List (Range w) × Nat}
    (hw : w = 8 * k) (hfits : ranges.length < 2 ^ 32) :
    decodeRanges w k size what (rangesBytes k ranges) heap = .ok r ↔
      (ranges.length ≤ maxEntries ∧ heap + ranges.length * size ≤ maxDecodedHeapBytes) ∧
        r = (ranges, heap + ranges.length * size) := by
  have hread : readMany (readRange w k) ranges.length (ranges.flatMap (rangeBytes k)) = .ok (ranges, []) := by
    have h := readMany_append (fun r (_ : r ∈ ranges) => readRange_append hw r) []
    rwa [append_nil] at h
  have hlen := length_rangesBytes k ranges
  rw [decodeRanges]
  generalize hbytes : rangesBytes k ranges = bytes at hlen ⊢
  rw [rangesBytes] at hbytes
  rw [← hbytes, readUInt_append (k := 4) hfits, ok_bind, hbytes]
  simp only [hlen, ensure_bind_eq_ok, chargeDecodedHeap_bind_eq_ok,
    hread, ok_bind, ensureDone, pure_eq_ok, true_and]
  rw [eq_comm (a := r), and_assoc]

/-! ## All sections -/

/-- Everything the encoder writes in a field of fixed width fits it. -/
structure SectionsFit (book : RawBook) : Prop where
  categories : PooledFits (book.categories.map (·.pooled))
  catsets : book.nSets < 2 ^ 32
  ip4 : book.ip4.length < 2 ^ 32
  ip6 : book.ip6.length < 2 ^ 32
  domainExact : PooledFits (book.domainExact.map (·.pooled))
  domainSuffix : PooledFits (book.domainSuffix.map (·.pooled))
  keywords : PooledFits (book.keywords.map (·.pooled))

/-- The sections of a book, as the encoder writes them. -/
def sectionsOf (book : RawBook) : List (Nat × Bytes) :=
  [(secCategories, pooledBytes (book.categories.map (·.pooled))),
    (secCatsets, catsetsBytes book.catsetWords book.catsets), (secIp4, rangesBytes 4 book.ip4),
    (secIp6, rangesBytes 16 book.ip6), (secDomainExact, pooledBytes (book.domainExact.map (·.pooled))),
    (secDomainSuffix, pooledBytes (book.domainSuffix.map (·.pooled))),
    (secKeyword, pooledBytes (book.keywords.map (·.pooled)))]

theorem encodeSections_eq_ok :
    encodeSections book = .ok sections ↔ SectionsFit book ∧ sections = sectionsOf book := by
  have hsets : ∀ {payload}, encodeCatsets book.catsetWords book.catsets = .ok payload ↔
      book.nSets < 2 ^ 32 ∧ payload = catsetsBytes book.catsetWords book.catsets := by
    intro payload
    rw [encodeCatsets, ensure_bind_eq_ok, pure_eq_ok, eq_comm (a := payload)]
    rfl
  have hranges : ∀ {w k : Nat} {ranges : List (Range w)} {payload}, encodeRanges k ranges = .ok payload ↔
      ranges.length < 2 ^ 32 ∧ payload = rangesBytes k ranges := by
    intro w k ranges payload
    rw [encodeRanges, ensure_bind_eq_ok, pure_eq_ok, eq_comm (a := payload)]
    rfl
  simp only [encodeSections, encodeCategories, encodeStrSection, bind_eq_ok, encodePooled_eq_ok, hsets, hranges,
    pure_eq_ok, and_assoc, exists_and_left, exists_eq_left]
  refine ⟨fun h => ?_, fun h => ?_⟩
  · obtain ⟨hc, hs, h4, h6, he, hd, hk, rfl⟩ := h
    exact ⟨⟨hc, hs, h4, h6, he, hd, hk⟩, rfl⟩
  · obtain ⟨h, rfl⟩ := h
    exact ⟨h.categories, h.catsets, h.ip4, h.ip6, h.domainExact, h.domainSuffix, h.keywords, rfl⟩

def decodedHeap (book : RawBook) : Nat :=
  pooledHeap (book.categories.map (·.pooled)) + book.catsets.length * 8 + book.ip4.length * sizeOfRange4 +
    book.ip6.length * sizeOfRange6 + pooledHeap (book.domainExact.map (·.pooled)) +
    pooledHeap (book.domainSuffix.map (·.pooled)) + pooledHeap (book.keywords.map (·.pooled))

/-- The limits of the decoder: entries in each table, and the heap in all. -/
structure WithinLimits (book : RawBook) : Prop where
  categories : book.categories.length ≤ maxCategories
  catsets : book.catsets.length ≤ maxEntries
  ip4 : book.ip4.length ≤ maxEntries
  ip6 : book.ip6.length ≤ maxEntries
  domainExact : book.domainExact.length ≤ maxEntries
  domainSuffix : book.domainSuffix.length ≤ maxEntries
  keywords : book.keywords.length ≤ maxEntries
  heap : decodedHeap book ≤ maxDecodedHeapBytes

/-- One round of the decoder's loop, over a section that is read as `a`. -/
theorem section_bind_eq_ok {new : Prop} [Decidable new] {e : String} {read : Res α} {a : α} {P : Prop}
    (hread : ∀ r, read = .ok r ↔ P ∧ r = a) {f : α → Decoding} {d : Decoding} :
    (do ensure new e; let r ← read; pure (f r) : Res Decoding) = .ok d ↔ new ∧ P ∧ d = f a := by
  rw [ensure_bind_eq_ok, bind_eq_ok]
  simp only [hread, pure_eq_ok, and_assoc, exists_and_left, exists_eq_left, eq_comm (b := d)]

theorem decodeSections_nil_eq_ok {d r} : decodeSections d [] = .ok r ↔ d = r := pure_eq_ok

theorem decodeSections_cons_eq_ok {d r kind payload} :
    decodeSections d ((kind, payload) :: sections) = .ok r ↔
      ∃ d', decodeSection d kind payload = .ok d' ∧ decodeSections d' sections = .ok r := bind_eq_ok

theorem decodeSections_eq_ok (hvalid : Valid book) (hfits : SectionsFit book) {d : Decoding} :
    decodeSections { book := { buildEpoch := book.buildEpoch } } (sectionsOf book) = .ok d ↔
      WithinLimits book ∧ d = ⟨book, decodedHeap book, (sectionsOf book).map (·.1)⟩ := by
  have hwhole : book.catsetWords.toNat * (book.catsets.length / book.catsetWords.toNat) = book.catsets.length :=
    hvalid.words_mul_nSets
  -- each round of the loop on its section, with what it checks and what it leaves
  have hcat : ∀ d d', decodeSection d secCategories (pooledBytes (book.categories.map (·.pooled))) = .ok d' ↔ _ :=
    fun d d' => section_bind_eq_ok fun _ => decodePooled_map_eq_ok (fun _ => rfl) hfits.categories
  have hsets : ∀ d d', decodeSection d secCatsets (catsetsBytes book.catsetWords book.catsets) = .ok d' ↔ _ :=
    fun d d' => section_bind_eq_ok fun _ => decodeCatsets_eq_ok hwhole hfits.catsets
  have h4 : ∀ d d', decodeSection d secIp4 (rangesBytes 4 book.ip4) = .ok d' ↔ _ :=
    fun d d' => section_bind_eq_ok fun _ => decodeRanges_eq_ok (k := 4) rfl hfits.ip4
  have h6 : ∀ d d', decodeSection d secIp6 (rangesBytes 16 book.ip6) = .ok d' ↔ _ :=
    fun d d' => section_bind_eq_ok fun _ => decodeRanges_eq_ok (k := 16) rfl hfits.ip6
  have hexact : ∀ d d', decodeSection d secDomainExact (pooledBytes (book.domainExact.map (·.pooled))) = .ok d' ↔ _ :=
    fun d d' => section_bind_eq_ok fun _ => decodePooled_map_eq_ok (fun _ => rfl) hfits.domainExact
  have hsuffix : ∀ d d',
      decodeSection d secDomainSuffix (pooledBytes (book.domainSuffix.map (·.pooled))) = .ok d' ↔ _ :=
    fun d d' => section_bind_eq_ok fun _ => decodePooled_map_eq_ok (fun _ => rfl) hfits.domainSuffix
  have hkeyword : ∀ d d', decodeSection d secKeyword (pooledBytes (book.keywords.map (·.pooled))) = .ok d' ↔ _ :=
    fun d d' => section_bind_eq_ok fun _ => decodePooled_map_eq_ok (fun _ => rfl) hfits.keywords
  simp only [sectionsOf, decodeSections_cons_eq_ok, hcat, hsets, h4, h6, hexact, hsuffix, hkeyword,
    decodeSections_nil_eq_ok, and_assoc, exists_and_left, exists_eq_left, nil_append, Nat.zero_add]
  refine ⟨fun h => ?_, fun h => ?_⟩
  · obtain ⟨-, hcat, -, -, hsets, -, -, h4, -, -, h6, -, -, hexact, -, -, hsuffix, -, -, hkeyword, hheap, rfl⟩ := h
    exact ⟨⟨hcat, hsets, h4, h6, hexact, hsuffix, hkeyword, hheap⟩, rfl⟩
  · obtain ⟨hlim, rfl⟩ := h
    have hheap := hlim.heap
    rw [decodedHeap] at hheap
    exact ⟨by decide, hlim.categories, by omega, by decide, hlim.catsets, by omega, by decide, hlim.ip4, by omega,
      by decide, hlim.ip6, by omega, by decide, hlim.domainExact, by omega, by decide, hlim.domainSuffix, by omega,
      by decide, hlim.keywords, hheap, rfl⟩

/-! ## The section table -/

/-- The entries of the section table, for payloads that start at `off`. -/
def tableOf : (off : Nat) → List (Nat × Bytes) → List SectionEntry
  | _, [] => []
  | off, (kind, payload) :: sections => ⟨kind, off, payload.length⟩ :: tableOf (off + payload.length) sections

def SectionEntry.toBytes (e : SectionEntry) : Bytes := leBytes 4 e.kind ++ leBytes 8 e.off ++ leBytes 8 e.len

theorem sectionTable_eq (off : Nat) (sections : List (Nat × Bytes)) :
    sectionTable off sections = (tableOf off sections).flatMap SectionEntry.toBytes := by
  induction sections generalizing off with
  | nil => rfl
  | cons s sections ih => rw [sectionTable, tableOf, flatMap_cons, ih, SectionEntry.toBytes]

@[simp] theorem length_tableOf (off : Nat) (sections : List (Nat × Bytes)) :
    (tableOf off sections).length = sections.length := by
  induction sections generalizing off with
  | nil => rfl
  | cons s sections ih => simp [tableOf, ih]

/-- All payloads, one after the other. -/
def payloadsOf (sections : List (Nat × Bytes)) : Bytes := sections.flatMap (·.2)

/-- A section's entry lies between the start of the payloads and their end. -/
theorem mem_tableOf {off e} (h : e ∈ tableOf off sections) :
    (∃ s ∈ sections, e.kind = s.1) ∧ off ≤ e.off ∧ e.off + e.len ≤ off + (payloadsOf sections).length := by
  induction sections generalizing off with
  | nil => cases h
  | cons s sections ih =>
    obtain ⟨kind, payload⟩ := s
    have hlen : (payloadsOf ((kind, payload) :: sections)).length = payload.length + (payloadsOf sections).length := by
      simp [payloadsOf]
    rcases mem_cons.1 h with rfl | h
    · exact ⟨⟨_, mem_cons_self, rfl⟩, Nat.le_refl _, by dsimp only; omega⟩
    · obtain ⟨⟨s, hs, hkind⟩, hoff, hend⟩ := ih h
      exact ⟨⟨s, mem_cons_of_mem _ hs, hkind⟩, by omega, by omega⟩

theorem pairwise_tableOf (off : Nat) (sections : List (Nat × Bytes)) :
    (tableOf off sections).Pairwise fun e e' => e.off ≤ e'.off := by
  induction sections generalizing off with
  | nil => exact List.Pairwise.nil
  | cons s sections ih =>
    refine pairwise_cons.2 ⟨fun e he => ?_, ih _⟩
    have := (mem_tableOf he).2.1
    dsimp only
    omega

theorem checkCoverage_tableOf (off : Nat) (sections : List (Nat × Bytes)) :
    checkCoverage (off + (payloadsOf sections).length) off (tableOf off sections) = .ok () := by
  induction sections generalizing off with
  | nil => exact ensure_eq_ok.2 (by simp [payloadsOf])
  | cons s sections ih =>
    have hrest := ih (off + s.2.length)
    have hlen : off + s.2.length + (payloadsOf sections).length = off + (payloadsOf (s :: sections)).length := by
      simp [payloadsOf]
      omega
    rw [hlen] at hrest
    exact ensure_bind_eq_ok.2 ⟨Nat.le_refl _, ensure_bind_eq_ok.2 ⟨Nat.le_refl _, hrest⟩⟩

/-- The sections the entries point to are those that were written. -/
theorem slices_tableOf (before : Bytes) (sections : List (Nat × Bytes)) :
    (tableOf before.length sections).map (fun e => (e.kind, ((before ++ payloadsOf sections).drop e.off).take e.len)) =
      sections := by
  induction sections generalizing before with
  | nil => rfl
  | cons s sections ih =>
    obtain ⟨kind, payload⟩ := s
    have hrest := ih (before ++ payload)
    have hbody : before ++ payloadsOf ((kind, payload) :: sections) = before ++ payload ++ payloadsOf sections := by
      simp [payloadsOf]
    rw [length_append] at hrest
    rw [tableOf, map_cons, hbody, hrest, append_assoc, drop_left, take_left]

theorem readSectionEntry_append {e} (hkind : e.kind < 2 ^ 32) (hoff : e.off < 2 ^ 64)
    (hlen : e.len < 2 ^ 64) (rest : Bytes) : readSectionEntry (e.toBytes ++ rest) = .ok (e, rest) := by
  rw [readSectionEntry, SectionEntry.toBytes]
  simp only [append_assoc, readUInt_append (k := 4) hkind, readUInt_append (k := 8) hoff,
    readUInt_append (k := 8) hlen, ok_bind]
  rfl

@[simp] theorem length_headerBytes (epoch : BitVec 64) (n : Nat) : (headerBytes epoch n).length = 20 := by
  simp [headerBytes, magic]

theorem SectionEntry.length_toBytes (e : SectionEntry) : e.toBytes.length = 20 := by simp [SectionEntry.toBytes]

theorem length_sectionTable (off : Nat) (sections : List (Nat × Bytes)) :
    (sectionTable off sections).length = sections.length * 20 := by
  rw [sectionTable_eq, length_flatMap_records SectionEntry.length_toBytes, length_tableOf]

theorem length_bodyBytes (epoch : BitVec 64) (sections : List (Nat × Bytes)) :
    (bodyBytes epoch sections).length = 20 + sections.length * 20 + (payloadsOf sections).length := by
  rw [bodyBytes, length_append, length_append, length_headerBytes, length_sectionTable]
  rfl

/-- The kinds of the sections, in the order the encoder writes them. -/
def encoderKinds : List Nat := [secCategories, secCatsets, secIp4, secIp6, secDomainExact, secDomainSuffix, secKeyword]

theorem readMany_tableOf {epoch} (hkinds : sections.map (·.1) = encoderKinds)
    (hsize : (bodyBytes epoch sections).length < 2 ^ 64) (rest : Bytes) :
    readMany readSectionEntry sectionCount
        ((tableOf (20 + sections.length * 20) sections).flatMap SectionEntry.toBytes ++ rest) =
      .ok (tableOf (20 + sections.length * 20) sections, rest) := by
  have hcount : (tableOf (20 + sections.length * 20) sections).length = sectionCount := by
    rw [length_tableOf, ← length_map (·.1), hkinds]
    rfl
  have hall : ∀ kind ∈ encoderKinds, kind < 2 ^ 32 := by decide
  rw [length_bodyBytes] at hsize
  rw [← hcount]
  refine readMany_append (fun e he => ?_) _
  obtain ⟨⟨s, hs, hkind⟩, -, hend⟩ := mem_tableOf he
  exact readSectionEntry_append (hkind ▸ hall s.1 (hkinds ▸ mem_map_of_mem hs)) (by omega) (by omega)

theorem decodeTable_bodyBytes {epoch} (hkinds : sections.map (·.1) = encoderKinds)
    (hsize : (bodyBytes epoch sections).length < 2 ^ 64) :
    decodeTable (bodyBytes epoch sections) = .ok (epoch, sections) := by
  have htable := readMany_tableOf hkinds hsize (payloadsOf sections)
  obtain ⟨start, hstart⟩ : ∃ start, start = 20 + sections.length * 20 := ⟨_, rfl⟩
  have hbody : bodyBytes epoch sections =
      headerBytes epoch sections.length ++ sectionTable start sections ++ payloadsOf sections := by
    rw [bodyBytes, length_headerBytes, ← hstart]
    rfl
  have hpre : (headerBytes epoch sections.length ++ sectionTable start sections).length = start := by
    rw [length_append, length_headerBytes, length_sectionTable, hstart]
  have hlen := length_bodyBytes epoch sections
  have hcount : sections.length = sectionCount := by
    rw [← length_map (·.1), hkinds]
    rfl
  rw [← hstart] at htable hlen
  have hmagic : readBytes truncated magic.length (bodyBytes epoch sections) = .ok (magic, leBytes 2 formatVersion ++
      (leBytes 2 0 ++ (leBytes 8 epoch.toNat ++ (leBytes 4 sectionCount ++
        ((tableOf start sections).flatMap SectionEntry.toBytes ++ payloadsOf sections))))) := by
    rw [hbody, headerBytes, sectionTable_eq, hcount]
    exact readBytes_append truncated magic _
  have hbounds : (tableOf start sections).forM (checkBounds (bodyBytes epoch sections).length start) = .ok () := by
    refine forM_eq_ok.2 fun e he => ?_
    obtain ⟨-, hoff, hend⟩ := mem_tableOf he
    exact ensure_bind_eq_ok.2 ⟨by omega, ensure_eq_ok.2 hoff⟩
  have hcover : checkCoverage (bodyBytes epoch sections).length start
      ((tableOf start sections).insertionSort fun e e' => e.off ≤ e'.off) = .ok () := by
    rw [(pairwise_tableOf start sections).insertionSort_eq, hlen]
    exact checkCoverage_tableOf start sections
  have hslices : (tableOf start sections).map
      (fun e => (e.kind, ((bodyBytes epoch sections).drop e.off).take e.len)) = sections := by
    have h := slices_tableOf (headerBytes epoch sections.length ++ sectionTable start sections) sections
    rwa [hpre, ← hbody] at h
  have hpos : (bodyBytes epoch sections).length - (payloadsOf sections).length = start := by omega
  rw [decodeTable, hmagic]
  simp only [ok_bind, readUInt_append (k := 2) (n := formatVersion) (by decide),
    readUInt_append (k := 2) (n := 0) (by decide), readUInt_append (toNat_lt_256_pow (k := 8) rfl epoch),
    readUInt_append (k := 4) (n := sectionCount) (by decide), htable, hpos, hbounds, hcover, hslices,
    ensure_bind_eq_ok, BitVec.ofNat_toNat, BitVec.setWidth_eq, true_and]
  rfl

/-! ## The file -/

def fileBytes (sha256 : Bytes → Digest) (book : RawBook) : Bytes :=
  let out := bodyBytes book.buildEpoch (sectionsOf book)
  out ++ (sha256 out).val

theorem encode_eq_ok {bytes} :
    encode sha256 book = .ok bytes ↔ Valid book ∧ SectionsFit book ∧ bytes = fileBytes sha256 book := by
  rw [encode, unit_bind_eq_ok, validate_eq_ok, bind_eq_ok]
  simp only [encodeSections_eq_ok, pure_eq_ok, and_assoc, exists_and_left, exists_eq_left]
  rw [eq_comm (b := bytes)]
  rfl

/-- What fits the fields of the format is far from the address space. -/
theorem length_bodyBytes_lt (hvalid : Valid book) (hfits : SectionsFit book) :
    (bodyBytes book.buildEpoch (sectionsOf book)).length < 2 ^ 64 := by
  have hsets : book.catsets.length ≤ 1563 * 2 ^ 32 := by
    have hwords := hvalid.words
    have hcount := hvalid.count
    rw [← hvalid.words_mul_nSets]
    refine Nat.mul_le_mul ?_ (Nat.le_of_lt hfits.catsets)
    rw [maxCategories] at hcount
    omega
  have hpooled : ∀ {entries : List Pooled}, PooledFits entries → (pooledBytes entries).length < 2 ^ 36 := by
    intro entries h
    have := h.count
    have := h.pool
    rw [length_pooledBytes]
    omega
  have hcat := hpooled hfits.categories
  have hexact := hpooled hfits.domainExact
  have hsuffix := hpooled hfits.domainSuffix
  have hkeyword := hpooled hfits.keywords
  have h4 := hfits.ip4
  have h6 := hfits.ip6
  simp only [length_bodyBytes, payloadsOf, sectionsOf, flatMap_cons, flatMap_nil, length_append,
    length_catsetsBytes, length_rangesBytes, length_cons, length_nil]
  omega

theorem decode_fileBytes {raw} (hvalid : Valid book) (hfits : SectionsFit book) :
    decode sha256 (fileBytes sha256 book) = .ok raw ↔ WithinLimits book ∧ raw = book := by
  have htable : decodeTable (bodyBytes book.buildEpoch (sectionsOf book)) = .ok (book.buildEpoch, sectionsOf book) :=
    decodeTable_bodyBytes rfl (length_bodyBytes_lt hvalid hfits)
  have hlong : 20 ≤ (bodyBytes book.buildEpoch (sectionsOf book)).length := by
    rw [length_bodyBytes]
    omega
  rw [decode, fileBytes]
  generalize bodyBytes book.buildEpoch (sectionsOf book) = out at htable hlong
  have hdigest : (sha256 out).val.length = checksumLen := (sha256 out).property
  have hlen : (out ++ (sha256 out).val).length - checksumLen = out.length := by
    rw [length_append, hdigest, Nat.add_sub_cancel]
  have hmin : 4 + 2 + 2 + 8 + 4 + checksumLen ≤ (out ++ (sha256 out).val).length := by
    omega
  rw [hlen, take_left, drop_left, ensure_bind_eq_ok, ensure_bind_eq_ok, htable, ok_bind,
    bind_eq_ok]
  simp only [decodeSections_eq_ok hvalid hfits, unit_bind_eq_ok, validate_eq_ok, pure_eq_ok]
  refine ⟨fun h => ?_, fun h => ?_⟩
  · obtain ⟨-, -, _, ⟨hlim, rfl⟩, -, rfl⟩ := h
    exact ⟨hlim, rfl⟩
  · obtain ⟨hlim, rfl⟩ := h
    exact ⟨hmin, trivial, _, ⟨hlim, rfl⟩, hvalid, rfl⟩

/-- The decoder refuses an encoded book only for its limits, and otherwise
gives it back. -/
theorem decode_of_encode {raw bytes}
    (h : encode sha256 book = .ok bytes) : decode sha256 bytes = .ok raw ↔ WithinLimits book ∧ raw = book := by
  obtain ⟨hvalid, hfits, rfl⟩ := encode_eq_ok.1 h
  exact decode_fileBytes hvalid hfits

/-! ## Books that can be encoded -/

theorem mem_headsOf {pos h} (hh : h ∈ headsOf pos entries) :
    h.off ≤ pos + (poolOf entries).length ∧ ∃ e ∈ entries, h.len = (utf8Bytes e.1).length := by
  induction entries generalizing pos with
  | nil => cases hh
  | cons e entries ih =>
    obtain ⟨text, tag⟩ := e
    have hlen : (poolOf ((text, tag) :: entries)).length = (utf8Bytes text).length + (poolOf entries).length := by
      simp [poolOf]
    rcases mem_cons.1 hh with rfl | hh
    · exact ⟨by dsimp only; omega, _, mem_cons_self, rfl⟩
    · obtain ⟨hoff, e, he, hlen'⟩ := ih hh
      exact ⟨by omega, e, mem_cons_of_mem _ he, hlen'⟩

/-- Entries with short texts that are charged no more than the budget fit. -/
theorem pooledFits_of_heap (hheap : pooledHeap entries ≤ maxDecodedHeapBytes)
    (htexts : ∀ e ∈ entries, (utf8Bytes e.1).length ≤ 65535) : PooledFits entries := by
  rw [pooledHeap, perEntryHeap, length_pooledBytes, maxDecodedHeapBytes, perStringAllocationOverhead] at hheap
  refine ⟨by omega, fun h hh => ?_, by omega⟩
  obtain ⟨hoff, e, he, hlen⟩ := mem_headsOf hh
  have := htexts e he
  exact ⟨by omega, by omega⟩

def RawBook.texts (book : RawBook) : List Str :=
  book.categories.map (·.name) ++ book.domainExact.map (·.text) ++ book.domainSuffix.map (·.text) ++
    book.keywords.map (·.text)

theorem sectionsFit_of_withinLimits (hlim : WithinLimits book)
    (htexts : ∀ t ∈ book.texts, (utf8Bytes t).length ≤ 65535) : SectionsFit book := by
  have hheap := hlim.heap
  rw [decodedHeap] at hheap
  have hshort : ∀ {α : Type} {l : List α} {toPooled : α → Pooled}, (∀ a ∈ l, (toPooled a).1 ∈ book.texts) →
      pooledHeap (l.map toPooled) ≤ maxDecodedHeapBytes → PooledFits (l.map toPooled) := by
    intro α l toPooled hmem hle
    refine pooledFits_of_heap hle fun e he => ?_
    obtain ⟨a, ha, rfl⟩ := mem_map.1 he
    exact htexts _ (hmem a ha)
  have hmem : ∀ t, t ∈ book.texts ↔ t ∈ book.categories.map (·.name) ∨ t ∈ book.domainExact.map (·.text) ∨
      t ∈ book.domainSuffix.map (·.text) ∨ t ∈ book.keywords.map (·.text) := by
    intro t
    simp only [RawBook.texts, mem_append, or_assoc]
  have hcount : maxEntries < 2 ^ 32 := by decide
  refine ⟨?_, ?_, ?_, ?_, ?_, ?_, ?_⟩
  · exact hshort (fun c hc => (hmem _).2 (.inl (mem_map_of_mem hc))) (by omega)
  · exact Nat.lt_of_le_of_lt (Nat.div_le_self _ _) (Nat.lt_of_le_of_lt hlim.catsets hcount)
  · exact Nat.lt_of_le_of_lt hlim.ip4 hcount
  · exact Nat.lt_of_le_of_lt hlim.ip6 hcount
  · exact hshort (fun e he => (hmem _).2 (.inr (.inl (mem_map_of_mem he)))) (by omega)
  · exact hshort (fun e he => (hmem _).2 (.inr (.inr (.inl (mem_map_of_mem he))))) (by omega)
  · exact hshort (fun e he => (hmem _).2 (.inr (.inr (.inr (mem_map_of_mem he))))) (by omega)

/-- A valid book with texts of at most 65535 bytes that is within the
decoder's limits is encoded, and decoding the file gives the same book. -/
theorem decode_encode (sha256 : Bytes → Digest) (book : RawBook) (hvalid : validate book = .ok ())
    (htexts : ∀ t ∈ book.texts, (utf8Bytes t).length ≤ 65535) (hlim : WithinLimits book) :
    ∃ bytes, encode sha256 book = .ok bytes ∧ decode sha256 bytes = .ok book := by
  have hencode : encode sha256 book = .ok (fileBytes sha256 book) :=
    encode_eq_ok.2 ⟨validate_eq_ok.1 hvalid, sectionsFit_of_withinLimits hlim htexts, rfl⟩
  exact ⟨_, hencode, (decode_of_encode hencode).2 ⟨hlim, rfl⟩⟩

/-- A small book with an entry in every table. -/
def sampleBook : RawBook where
  buildEpoch := 7
  categories := [⟨"google", u32Max⟩, ⟨"google/ads", 0⟩]
  catsetWords := 1
  catsets := [1, 2]
  ip4 := [(0x08080800, 0x080808ff, 0)]
  ip6 := [(0x20014860000000000000000000000000, 0x20014860ffffffffffffffffffffffff, 0)]
  domainExact := [⟨"ads.g.example", 1⟩]
  domainSuffix := [⟨"com.google", 0⟩, ⟨"net.doubleclick", 1⟩]
  keywords := [⟨"googlevideo", 0⟩]

theorem validate_sampleBook : validate sampleBook = .ok () := by decide +kernel

theorem withinLimits_sampleBook : WithinLimits sampleBook := by
  refine ⟨?_, ?_, ?_, ?_, ?_, ?_, ?_, ?_⟩
  all_goals decide +kernel

theorem texts_sampleBook : ∀ t ∈ sampleBook.texts, (utf8Bytes t).length ≤ 65535 := by decide +kernel

def zeroDigest (_ : Bytes) : Digest := ⟨replicate 32 0, rfl⟩

theorem decode_encode_sampleBook : validate sampleBook = .ok () ∧
    ∃ bytes, encode zeroDigest sampleBook = .ok bytes ∧ decode zeroDigest bytes = .ok sampleBook :=
  ⟨validate_sampleBook, decode_encode zeroDigest sampleBook validate_sampleBook
      texts_sampleBook withinLimits_sampleBook⟩

theorem decode_fileBytes_sampleBook : decode zeroDigest (fileBytes zeroDigest sampleBook) = .ok sampleBook :=
  (decode_fileBytes (validate_eq_ok.1 validate_sampleBook)
    (sectionsFit_of_withinLimits withinLimits_sampleBook texts_sampleBook)).2 ⟨withinLimits_sampleBook, rfl⟩

end Rove.AddrBook
