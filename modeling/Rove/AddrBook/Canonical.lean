/-
Encoding what was decoded. The decoder leaves no slack in a file whose
sections stand in the encoder's order: every field it reads is the one the
encoder writes, so the book is written back byte for byte (`encode_decode`).
There is one exception. A book with no categories has sets of no words, and the
decoder takes any count of them (`empty_book_has_two_files`).
-/
import Rove.AddrBook.RoundTrip

namespace Rove.AddrBook

open List Res

/-! ## Records -/

theorem toNat_ofNat_of_lt {w k n : Nat} (hw : w = 8 * k) (h : n < 256 ^ k) : (BitVec.ofNat w n).toNat = n := by
  rw [BitVec.toNat_ofNat, hw, Nat.pow_mul]
  exact Nat.mod_eq_of_lt h

theorem readHead_sound {bs h rest} (hread : readHead bs = .ok (h, rest)) :
    bs = h.toBytes ++ rest ∧ h.off < 2 ^ 32 ∧ h.len < 2 ^ 16 := by
  obtain ⟨off, cur, rfl, hoff, hread⟩ := readLe_bind_eq_ok hread
  obtain ⟨len, cur, rfl, hlen, hread⟩ := readLe_bind_eq_ok hread
  obtain ⟨tag, cur, rfl, htag, hread⟩ := readLe_bind_eq_ok hread
  cases hread
  refine ⟨?_, hoff, hlen⟩
  rw [Head.toBytes, toNat_ofNat_of_lt (k := 4) rfl htag, append_assoc, append_assoc]

theorem readWord_sound {bs word rest} (hread : readWord bs = .ok (word, rest)) :
    bs = leBytes 8 word.toNat ++ rest := by
  obtain ⟨n, cur, rfl, hn, hread⟩ := readLe_bind_eq_ok hread
  cases hread
  rw [toNat_ofNat_of_lt (k := 8) rfl hn]

theorem readRange_sound {w k : Nat} (hw : w = 8 * k) {bs r rest} (hread : readRange w k bs = .ok (r, rest)) :
    bs = rangeBytes k r ++ rest := by
  obtain ⟨s, cur, rfl, hs, hread⟩ := readLe_bind_eq_ok hread
  obtain ⟨e, cur, rfl, he, hread⟩ := readLe_bind_eq_ok hread
  obtain ⟨c, cur, rfl, hc, hread⟩ := readLe_bind_eq_ok hread
  cases hread
  rw [rangeBytes, toNat_ofNat_of_lt hw hs, toNat_ofNat_of_lt hw he,
    toNat_ofNat_of_lt (k := 4) rfl hc, append_assoc, append_assoc]

theorem readSectionEntry_sound {bs e rest} (hread : readSectionEntry bs = .ok (e, rest)) :
    bs = e.toBytes ++ rest ∧ e.kind < 2 ^ 32 ∧ e.off < 2 ^ 64 ∧ e.len < 2 ^ 64 := by
  obtain ⟨kind, cur, rfl, hkind, hread⟩ := readLe_bind_eq_ok hread
  obtain ⟨off, cur, rfl, hoff, hread⟩ := readLe_bind_eq_ok hread
  obtain ⟨len, cur, rfl, hlen, hread⟩ := readLe_bind_eq_ok hread
  cases hread
  exact ⟨by rw [SectionEntry.toBytes, append_assoc, append_assoc], hkind, hoff, hlen⟩

/-! ## Payloads -/

/-- The heads name the texts of the pool, one after the other. -/
theorem decodeEntries_sound {errors : PoolErrors} {pool : Bytes} {next heads entries}
    (h : decodeEntries errors pool next heads = .ok entries) :
    heads = headsOf next entries ∧ pool.drop next = poolOf entries := by
  induction heads generalizing next entries with
  | nil =>
    obtain ⟨hnext, h⟩ := ensure_bind_eq_ok.1 h
    cases h
    exact ⟨rfl, by rw [hnext, drop_length]; rfl⟩
  | cons head heads ih =>
    obtain ⟨hoff, h⟩ := ensure_bind_eq_ok.1 h
    obtain ⟨hend, h⟩ := ensure_bind_eq_ok.1 h
    cases htext : fromUtf8 ((pool.drop head.off).take head.len) with
    | none =>
      rw [htext] at h
      cases h
    | some text =>
      rw [htext] at h
      obtain ⟨rest, hrest, h⟩ := bind_eq_ok.1 h
      cases h
      obtain ⟨rfl, hdrop⟩ := ih hrest
      have hslice := fromUtf8_eq_some_iff.1 htext
      have hlen : (utf8Bytes text).length = head.len := by
        rw [← hslice, length_take, length_drop]
        omega
      obtain ⟨off, len, tag⟩ := head
      dsimp only at hoff hlen hslice hdrop
      subst hoff hlen
      refine ⟨rfl, ?_⟩
      rw [poolOf, flatMap_cons, ← poolOf, ← hdrop, ← hslice, length_take, length_drop]
      rw [Nat.min_eq_left (by dsimp only at hend; omega), ← drop_drop, take_append_drop]

theorem decodePooled_sound {errors : PoolErrors} {limit : Nat} {payload heap entries heap'}
    (h : decodePooled errors limit payload heap = .ok (entries, heap')) :
    payload = pooledBytes entries ∧ PooledFits entries := by
  obtain ⟨n, cur, rfl, hn, h⟩ := readLe_bind_eq_ok h
  obtain ⟨-, h⟩ := ensure_bind_eq_ok.1 h
  obtain ⟨-, h⟩ := ensure_bind_eq_ok.1 h
  obtain ⟨-, h⟩ := chargeDecodedHeap_bind_eq_ok.1 h
  obtain ⟨⟨heads, cur⟩, hheads, h⟩ := bind_eq_ok.1 h
  obtain ⟨poolLen, cur, rfl, hpoolLen, h⟩ := readLe_bind_eq_ok h
  obtain ⟨⟨pool, cur⟩, hpool, h⟩ := bind_eq_ok.1 h
  obtain ⟨hdone, h⟩ := ensure_bind_eq_ok.1 h
  obtain ⟨entries', hentries, h⟩ := bind_eq_ok.1 h
  cases h
  obtain ⟨rfl, rfl, hfit⟩ := readMany_sound readHead_sound hheads
  obtain ⟨rfl, rfl⟩ := readBytes_sound hpool
  obtain ⟨rfl, hdrop⟩ := decodeEntries_sound hentries
  subst hdrop
  rw [length_headsOf] at hn ⊢
  rw [pooledBytes, hdone, append_nil, append_assoc, append_assoc]
  exact ⟨rfl, hn, hfit, hpoolLen⟩

theorem decodeCatsets_sound {payload heap words catsets heap'}
    (h : decodeCatsets payload heap = .ok (words, catsets, heap')) (hwords : words.toNat ≠ 0) :
    payload = catsetsBytes words catsets ∧ catsets.length / words.toNat < 2 ^ 32 := by
  obtain ⟨w, cur, rfl, hw, h⟩ := readLe_bind_eq_ok h
  obtain ⟨n, cur, rfl, hn, h⟩ := readLe_bind_eq_ok h
  obtain ⟨-, h⟩ := ensure_bind_eq_ok.1 h
  obtain ⟨-, h⟩ := ensure_bind_eq_ok.1 h
  obtain ⟨-, h⟩ := chargeDecodedHeap_bind_eq_ok.1 h
  obtain ⟨⟨sets, cur⟩, hsets, h⟩ := bind_eq_ok.1 h
  obtain ⟨hdone, h⟩ := ensure_bind_eq_ok.1 h
  cases h
  obtain ⟨rfl, hlen, -⟩ := readMany_sound (P := fun _ => True) (fun h => ⟨readWord_sound h, trivial⟩) hsets
  have htoNat : (BitVec.ofNat 32 w).toNat = w := toNat_ofNat_of_lt (k := 4) rfl hw
  rw [htoNat] at hwords
  have hdiv : catsets.length / w = n := by rw [hlen, Nat.mul_div_cancel_left n (Nat.pos_of_ne_zero hwords)]
  rw [catsetsBytes, htoNat, hdiv, hdone, append_nil, append_assoc]
  exact ⟨rfl, hn⟩

theorem decodeRanges_sound {w k size : Nat} {what : String} {payload heap ranges heap'} (hw : w = 8 * k)
    (h : decodeRanges w k size what payload heap = .ok (ranges, heap')) :
    payload = rangesBytes k ranges ∧ ranges.length < 2 ^ 32 := by
  obtain ⟨n, cur, rfl, hn, h⟩ := readLe_bind_eq_ok h
  obtain ⟨-, h⟩ := ensure_bind_eq_ok.1 h
  obtain ⟨-, h⟩ := ensure_bind_eq_ok.1 h
  obtain ⟨-, h⟩ := chargeDecodedHeap_bind_eq_ok.1 h
  obtain ⟨⟨ranges', cur⟩, hranges, h⟩ := bind_eq_ok.1 h
  obtain ⟨hdone, h⟩ := ensure_bind_eq_ok.1 h
  cases h
  obtain ⟨rfl, rfl, -⟩ := readMany_sound (P := fun _ => True) (fun h => ⟨readRange_sound hw h, trivial⟩) hranges
  exact ⟨by rw [rangesBytes, hdone, append_nil], hn⟩

/-! ## Sections -/

theorem decodePooled_map_sound {α : Type} {f : α → Pooled} {g : Pooled → α}
    (hback : ∀ e, f (g e) = e) {errors : PoolErrors} {limit : Nat} {payload heap entries heap'}
    (h : (do
        let (pooled, heap) ← decodePooled errors limit payload heap
        pure (pooled.map g, heap) : Res (List α × Nat)) = .ok (entries, heap')) :
    payload = pooledBytes (entries.map f) ∧ PooledFits (entries.map f) := by
  obtain ⟨⟨pooled, _⟩, hpooled, h⟩ := bind_eq_ok.1 h
  cases h
  have hmap : (pooled.map g).map f = pooled := by simp [Function.comp_def, hback]
  rw [hmap]
  exact decodePooled_sound hpooled

theorem section_sound {α : Type} {new : Prop} [Decidable new] {e : String} {read : Res α}
    {f : α → Decoding} {d : Decoding} (h : (do ensure new e; let r ← read; pure (f r) : Res Decoding) = .ok d) :
    ∃ r, read = .ok r ∧ d.book = (f r).book := by
  obtain ⟨-, h⟩ := ensure_bind_eq_ok.1 h
  obtain ⟨r, hr, h⟩ := bind_eq_ok.1 h
  exact ⟨r, hr, by rw [pure_eq_ok.1 h]⟩

/-- Sections in the encoder's order are those the encoder writes for the book read from them. -/
theorem decodeSections_sound {epoch : BitVec 64} {sections : List (Nat × Bytes)} {d : Decoding}
    (hkinds : sections.map (·.1) = encoderKinds)
    (h : decodeSections { book := { buildEpoch := epoch } } sections = .ok d) (hwords : d.book.catsetWords.toNat ≠ 0) :
    sections = sectionsOf d.book ∧ SectionsFit d.book ∧ d.book.buildEpoch = epoch := by
  obtain ⟨p₁, p₂, p₃, p₄, p₅, p₆, p₇, rfl⟩ : ∃ p₁ p₂ p₃ p₄ p₅ p₆ p₇, sections = [(secCategories, p₁), (secCatsets, p₂),
      (secIp4, p₃), (secIp6, p₄), (secDomainExact, p₅), (secDomainSuffix, p₆), (secKeyword, p₇)] := by
    simp only [encoderKinds, map_eq_cons_iff, map_eq_nil_iff, Prod.exists] at hkinds
    grind
  simp only [decodeSections_cons_eq_ok, decodeSections_nil_eq_ok] at h
  obtain ⟨d₁, h₁, d₂, h₂, d₃, h₃, d₄, h₄, d₅, h₅, d₆, h₆, d₇, h₇, rfl⟩ := h
  obtain ⟨⟨categories, _⟩, hcategories, hb₁⟩ := section_sound h₁
  obtain ⟨⟨words, catsets, _⟩, hcatsets, hb₂⟩ := section_sound h₂
  obtain ⟨⟨ip4, _⟩, hip4, hb₃⟩ := section_sound h₃
  obtain ⟨⟨ip6, _⟩, hip6, hb₄⟩ := section_sound h₄
  obtain ⟨⟨domainExact, _⟩, hexact, hb₅⟩ := section_sound h₅
  obtain ⟨⟨domainSuffix, _⟩, hsuffix, hb₆⟩ := section_sound h₆
  obtain ⟨⟨keywords, _⟩, hkeywords, hb₇⟩ := section_sound h₇
  have hbook : d₇.book =
      { buildEpoch := epoch, categories, catsetWords := words, catsets, ip4, ip6, domainExact,
        domainSuffix, keywords } := by
    rw [hb₇, hb₆, hb₅, hb₄, hb₃, hb₂, hb₁]
    rfl
  rw [hbook] at hwords ⊢
  obtain ⟨rfl, hfit₁⟩ := decodePooled_map_sound (f := Category.pooled) (fun _ => rfl) hcategories
  obtain ⟨rfl, hfit₂⟩ := decodeCatsets_sound hcatsets hwords
  obtain ⟨rfl, hfit₃⟩ := decodeRanges_sound rfl hip4
  obtain ⟨rfl, hfit₄⟩ := decodeRanges_sound rfl hip6
  obtain ⟨rfl, hfit₅⟩ := decodePooled_map_sound (f := StrEntry.pooled) (fun _ => rfl) hexact
  obtain ⟨rfl, hfit₆⟩ := decodePooled_map_sound (f := StrEntry.pooled) (fun _ => rfl) hsuffix
  obtain ⟨rfl, hfit₇⟩ := decodePooled_map_sound (f := StrEntry.pooled) (fun _ => rfl) hkeywords
  exact ⟨rfl, ⟨hfit₁, hfit₂, hfit₃, hfit₄, hfit₅, hfit₆, hfit₇⟩, rfl⟩

/-! ## The section table -/

/-- The section of the body that an entry points to. -/
def sectionAt (body : Bytes) (e : SectionEntry) : Nat × Bytes := (e.kind, (body.drop e.off).take e.len)

/-- Sections that cover the body in the order of the table stand one after the other. -/
theorem checkCoverage_sound {body : Bytes} {next table} (h : checkCoverage body.length next table = .ok ())
    (hbounds : ∀ e ∈ table, e.off + e.len ≤ body.length) :
    tableOf next (table.map (sectionAt body)) = table ∧ payloadsOf (table.map (sectionAt body)) = body.drop next := by
  induction table generalizing next with
  | nil =>
    rw [ensure_eq_ok.1 h, drop_length]
    exact ⟨rfl, rfl⟩
  | cons e table ih =>
    obtain ⟨hle, h⟩ := ensure_bind_eq_ok.1 h
    obtain ⟨hge, h⟩ := ensure_bind_eq_ok.1 h
    obtain ⟨hend, hbounds⟩ := forall_mem_cons.1 hbounds
    obtain ⟨htable, hpayloads⟩ := ih h hbounds
    obtain rfl : e.off = next := by omega
    have hlen : ((body.drop e.off).take e.len).length = e.len := by
      rw [length_take, length_drop]
      omega
    rw [map_cons, sectionAt, tableOf, hlen, htable, payloadsOf, flatMap_cons, ← payloadsOf, hpayloads,
      ← drop_drop, take_append_drop]
    exact ⟨rfl, rfl⟩

/-- The entries of the section table, as they stand in a file. -/
def sectionEntries (bytes : Bytes) : Res (List SectionEntry × Bytes) :=
  readMany readSectionEntry sectionCount (bytes.drop 20)

/-- The seven sections are listed, and stand, in the order of the encoder. -/
def InEncoderOrder (bytes : Bytes) : Prop :=
  ∃ table rest, sectionEntries bytes = .ok (table, rest) ∧ table.map (·.kind) = encoderKinds ∧
    table.Pairwise fun e e' => e.off ≤ e'.off

theorem map_kind_tableOf (off : Nat) (sections : List (Nat × Bytes)) :
    (tableOf off sections).map (·.kind) = sections.map (·.1) := by
  induction sections generalizing off with
  | nil => rfl
  | cons s sections ih => rw [tableOf, map_cons, map_cons, ih]

/-- What the encoder writes is in its order. -/
theorem inEncoderOrder_bodyBytes {epoch : BitVec 64} {sections : List (Nat × Bytes)} {digest : Bytes}
    (hkinds : sections.map (·.1) = encoderKinds) (hsize : (bodyBytes epoch sections).length < 2 ^ 64) :
    InEncoderOrder (bodyBytes epoch sections ++ digest) := by
  refine ⟨tableOf (20 + sections.length * 20) sections, payloadsOf sections ++ digest, ?_,
    by rw [map_kind_tableOf, hkinds], pairwise_tableOf _ _⟩
  rw [sectionEntries, bodyBytes, length_headerBytes, append_assoc, append_assoc,
    ← length_headerBytes epoch sections.length, drop_left, length_headerBytes, sectionTable_eq]
  exact readMany_tableOf hkinds hsize _

theorem decodeTable_sound {body digest epoch sections} (h : decodeTable body = .ok (epoch, sections))
    (horder : InEncoderOrder (body ++ digest)) :
    body = bodyBytes epoch sections ∧ sections.map (·.1) = encoderKinds := by
  obtain ⟨⟨found, cur⟩, hmagic, h⟩ := bind_eq_ok.1 h
  obtain ⟨hfound, h⟩ := ensure_bind_eq_ok.1 h
  obtain ⟨version, cur, hbody₂, -, h⟩ := readLe_bind_eq_ok h
  obtain ⟨hv, h⟩ := ensure_bind_eq_ok.1 h
  obtain ⟨reserved, cur, hbody₃, -, h⟩ := readLe_bind_eq_ok h
  obtain ⟨hr, h⟩ := ensure_bind_eq_ok.1 h
  obtain ⟨e, cur, hbody₄, hlt, h⟩ := readLe_bind_eq_ok h
  obtain ⟨n, cur, hbody₅, -, h⟩ := readLe_bind_eq_ok h
  obtain ⟨hcount, h⟩ := ensure_bind_eq_ok.1 h
  obtain ⟨⟨table, rest⟩, htable, h⟩ := bind_eq_ok.1 h
  obtain ⟨hbounds, h⟩ := unit_bind_eq_ok.1 h
  obtain ⟨hcover, h⟩ := unit_bind_eq_ok.1 h
  obtain ⟨hepoch', hsections⟩ := Prod.mk.inj (pure_eq_ok.1 h)
  subst hfound hv hr hcount
  obtain ⟨hbody₁, -⟩ := readBytes_sound hmagic
  obtain ⟨hbody₆, hlen, hall⟩ := readMany_sound readSectionEntry_sound htable
  have hheader : body = headerBytes epoch sectionCount ++ (table.flatMap SectionEntry.toBytes ++ rest) := by
    rw [hbody₁, hbody₂, hbody₃, hbody₄, hbody₅, hbody₆, headerBytes, ← hepoch', toNat_ofNat_of_lt (k := 8) rfl hlt]
    simp only [append_assoc]
  -- the file's table is the one that was read
  obtain ⟨table', rest', hread, hkinds, hoffs⟩ := horder
  have hdrop : (body ++ digest).drop 20 = table.flatMap SectionEntry.toBytes ++ (rest ++ digest) := by
    rw [hheader, append_assoc, ← length_headerBytes epoch sectionCount, drop_left, append_assoc]
  have hback := readMany_append
    (fun e he rest => readSectionEntry_append (hall e he).1 (hall e he).2.1 (hall e he).2.2 rest) (rest ++ digest)
  rw [sectionEntries, hdrop, ← hlen, hback] at hread
  cases hread
  have hstart : body.length - rest.length = 20 + table.length * 20 := by
    have := length_flatMap_records SectionEntry.length_toBytes table
    rw [hheader, length_append, length_append, length_headerBytes]
    omega
  rw [hoffs.insertionSort_eq] at hcover
  have hends : ∀ e ∈ table, e.off + e.len ≤ body.length :=
    fun e he => (ensure_bind_eq_ok.1 (forM_eq_ok.1 hbounds e he)).1
  obtain ⟨htable', hpayloads⟩ := checkCoverage_sound hcover hends
  rw [show table.map (sectionAt body) = sections from hsections] at htable' hpayloads
  have hsame : sections.length = table.length := by rw [← hsections, length_map]
  refine ⟨?_, by rw [← hsections, map_map]; exact hkinds⟩
  have hrest : body.drop (body.length - rest.length) = rest := by
    rw [hheader, ← append_assoc, length_append, Nat.add_sub_cancel, drop_left]
  rw [bodyBytes, length_headerBytes, sectionTable_eq, hsame, ← hstart, htable', ← payloadsOf, hpayloads, hrest, hlen,
    append_assoc]
  exact hheader

/-! ## The file -/

theorem fileBytes_of_decode {sha256 bytes book} (h : decode sha256 bytes = .ok book) (horder : InEncoderOrder bytes)
    (hne : book.categories ≠ []) : Valid book ∧ SectionsFit book ∧ bytes = fileBytes sha256 book := by
  obtain ⟨-, h⟩ := ensure_bind_eq_ok.1 h
  obtain ⟨hdigest, h⟩ := ensure_bind_eq_ok.1 h
  obtain ⟨⟨epoch, sections⟩, htable, h⟩ := bind_eq_ok.1 h
  obtain ⟨d, hsections, h⟩ := bind_eq_ok.1 h
  obtain ⟨hvalid, h⟩ := unit_bind_eq_ok.1 h
  cases h
  have hvalid := validate_eq_ok.1 hvalid
  have hwords : d.book.catsetWords.toNat ≠ 0 := by
    have := length_pos_of_ne_nil hne
    rw [hvalid.words]
    omega
  generalize hbody : bytes.take (bytes.length - checksumLen) = body at htable hdigest
  have hbytes : bytes = body ++ (sha256 body).val := by rw [hdigest, ← hbody, take_append_drop]
  rw [hbytes] at horder
  obtain ⟨hbody', hkinds⟩ := decodeTable_sound htable horder
  obtain ⟨rfl, hfits, rfl⟩ := decodeSections_sound hkinds hsections hwords
  exact ⟨hvalid, hfits, by rw [hbytes, hbody']; rfl⟩

/-- A file that the decoder takes, with its sections in the encoder's order and
a category in its book, is the one the encoder writes, and the only one. -/
theorem encode_decode (sha256 : Bytes → Digest) (bytes : Bytes) (book : RawBook) (h : decode sha256 bytes = .ok book)
    (horder : InEncoderOrder bytes) (hne : book.categories ≠ []) :
    encode sha256 book = .ok bytes ∧
      ∀ bytes', decode sha256 bytes' = .ok book → InEncoderOrder bytes' → bytes' = bytes := by
  obtain ⟨hvalid, hfits, rfl⟩ := fileBytes_of_decode h horder hne
  refine ⟨encode_eq_ok.2 ⟨hvalid, hfits, rfl⟩, fun bytes' h' horder' => ?_⟩
  exact (fileBytes_of_decode h' horder' hne).2.2

theorem inEncoderOrder_sampleBook : InEncoderOrder (fileBytes zeroDigest sampleBook) :=
  inEncoderOrder_bodyBytes rfl (by decide +kernel)

theorem encode_decode_sampleBook : ∃ bytes, decode zeroDigest bytes = .ok sampleBook ∧ InEncoderOrder bytes ∧
    sampleBook.categories ≠ [] ∧ encode zeroDigest sampleBook = .ok bytes :=
  ⟨_, decode_fileBytes_sampleBook, inEncoderOrder_sampleBook, by decide,
    (encode_decode zeroDigest _ _ decode_fileBytes_sampleBook inEncoderOrder_sampleBook (by decide)).1⟩

/-- The file of the empty book, but for the count of its sets. -/
def looseSections : List (Nat × Bytes) := (sectionsOf {}).set 1 (secCatsets, leBytes 4 0 ++ leBytes 4 1)

def looseBytes : Bytes := bodyBytes 0 looseSections ++ (zeroDigest []).val

/-- Sets of no words are none, however many there are said to be. -/
theorem empty_book_has_two_files : decode zeroDigest looseBytes = .ok {} ∧ InEncoderOrder looseBytes ∧
    encode zeroDigest {} = .ok (fileBytes zeroDigest {}) ∧ fileBytes zeroDigest {} ≠ looseBytes := by
  refine ⟨by decide +kernel, inEncoderOrder_bodyBytes rfl (by decide +kernel), by decide +kernel, by decide +kernel⟩

end Rove.AddrBook
