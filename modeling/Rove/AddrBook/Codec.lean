/-
The `.rab` binary format (`encode` and `decode` of `addrbook/format.rs`).

A file is a header, a table of seven sections, the section payloads, and a
SHA-256 digest of everything before it. Categories and the three text tables
have one shape on the wire: record heads that point into a pool of UTF-8
text, in order and without gaps. Sizes are those of a 64-bit target; no
count passes its limit, so none of the source's checked sums overflows.
-/
import Rove.AddrBook.Book
import Rove.Base.Reader
import Mathlib.Data.List.Sort

namespace Rove.AddrBook

def magic : Bytes := [0x52, 0x41, 0x42, 0x31]
def formatVersion : Nat := 1
def checksumLen : Nat := 32

def secCategories : Nat := 1
def secCatsets : Nat := 2
def secIp4 : Nat := 3
def secIp6 : Nat := 4
def secDomainExact : Nat := 5
def secDomainSuffix : Nat := 6
def secKeyword : Nat := 7
def sectionCount : Nat := 7

/-- A text of a pool, with the parent or the category set that stands beside it. -/
abbrev Pooled := Str × BitVec 32

def Category.pooled (c : Category) : Pooled := (c.name, c.parent)
def StrEntry.pooled (e : StrEntry) : Pooled := (e.text, e.catset)

/-- The head of a record: where its text starts in the pool, how long it is,
and what stands beside it. -/
structure Head where
  off : Nat
  len : Nat
  tag : BitVec 32

/-! ## Encoding -/

def Head.toBytes (h : Head) : Bytes := leBytes 4 h.off ++ leBytes 2 h.len ++ leBytes 4 h.tag.toNat

/-- A range of addresses of `k` bytes. -/
def rangeBytes {w : Nat} (k : Nat) (r : Range w) : Bytes :=
  leBytes k r.1.toNat ++ leBytes k r.2.1.toNat ++ leBytes 4 r.2.2.toNat

/-- The loop over the entries of a pooled section: the heads written so far
and the pool so far. -/
def encodeHeads (offError lenError : String) : (heads pool : Bytes) → List Pooled → Res (Bytes × Bytes)
  | heads, pool, [] => pure (heads, pool)
  | heads, pool, (text, tag) :: entries => do
    let bytes := utf8Bytes text
    ensure (pool.length < 2 ^ 32) offError
    ensure (bytes.length < 2 ^ 16) lenError
    let head : Head := ⟨pool.length, bytes.length, tag⟩
    encodeHeads offError lenError (heads ++ head.toBytes) (pool ++ bytes) entries

/-- The payload of a pooled section: the count, the heads, the pool. -/
def encodePooled (offError lenError : String) (entries : List Pooled) : Res Bytes := do
  ensure (entries.length < 2 ^ 32) tryFromIntError
  let (heads, pool) ← encodeHeads offError lenError [] [] entries
  ensure (pool.length < 2 ^ 32) tryFromIntError
  pure (leBytes 4 entries.length ++ heads ++ leBytes 4 pool.length ++ pool)

def encodeStrSection (entries : List StrEntry) : Res Bytes :=
  encodePooled "string pool exceeds u32" "string entry exceeds u16 length" (entries.map (·.pooled))

/-- The payload of the category section. -/
def encodeCategories (cats : List Category) : Res Bytes :=
  encodePooled tryFromIntError "category name exceeds u16 length" (cats.map (·.pooled))

/-- The payload of the section of category sets. -/
def encodeCatsets (words : BitVec 32) (catsets : List (BitVec 64)) : Res Bytes := do
  let n := catsets.length / words.toNat
  ensure (n < 2 ^ 32) tryFromIntError
  pure (leBytes 4 words.toNat ++ leBytes 4 n ++ catsets.flatMap fun w => leBytes 8 w.toNat)

/-- The payload of a section of ranges. -/
def encodeRanges {w : Nat} (k : Nat) (ranges : List (Range w)) : Res Bytes := do
  ensure (ranges.length < 2 ^ 32) tryFromIntError
  pure (leBytes 4 ranges.length ++ ranges.flatMap (rangeBytes k))

/-- The sections of a book: each kind with its payload. -/
def encodeSections (book : RawBook) : Res (List (Nat × Bytes)) := do
  let categories ← encodeCategories book.categories
  let catsets ← encodeCatsets book.catsetWords book.catsets
  let ip4 ← encodeRanges 4 book.ip4
  let ip6 ← encodeRanges 16 book.ip6
  let domainExact ← encodeStrSection book.domainExact
  let domainSuffix ← encodeStrSection book.domainSuffix
  let keywords ← encodeStrSection book.keywords
  pure [(secCategories, categories), (secCatsets, catsets), (secIp4, ip4), (secIp6, ip6),
    (secDomainExact, domainExact), (secDomainSuffix, domainSuffix), (secKeyword, keywords)]

/-- The section table, for payloads that start at `off`. -/
def sectionTable : (off : Nat) → List (Nat × Bytes) → Bytes
  | _, [] => []
  | off, (kind, payload) :: sections =>
    leBytes 4 kind ++ leBytes 8 off ++ leBytes 8 payload.length ++ sectionTable (off + payload.length) sections

/-- The header: magic, version, the reserved field, the epoch, the section count. -/
def headerBytes (epoch : BitVec 64) (nSections : Nat) : Bytes :=
  magic ++ leBytes 2 formatVersion ++ leBytes 2 0 ++ leBytes 8 epoch.toNat ++ leBytes 4 nSections

def bodyBytes (epoch : BitVec 64) (sections : List (Nat × Bytes)) : Bytes :=
  let header := headerBytes epoch sections.length
  header ++ sectionTable (header.length + sections.length * 20) sections ++ sections.flatMap (·.2)

def encode (sha256 : Bytes → Digest) (book : RawBook) : Res Bytes := do
  validate book
  let sections ← encodeSections book
  let out := bodyBytes book.buildEpoch sections
  pure (out ++ (sha256 out).val)

/-! ## Decoding -/

/-- What a cursor says of a read past its end. -/
def truncated : String := "truncated section"

/-- `Cursor::u16`, `u32`, `u64` and `u128`, by the number of bytes. -/
def readUInt (k : Nat) : Reader String Nat := readLe truncated k

/-- `Cursor::done`. -/
def ensureDone (cur : Bytes) : Res Unit := ensure (cur = []) "trailing bytes in section"

/-- `charge_decoded_heap`: the running total. -/
def chargeDecodedHeap (total bytes : Nat) (what : String) : Res Nat := do
  let total := total + bytes
  ensure (total ≤ maxDecodedHeapBytes)
    s!"{what}: decoded heap budget exceeded: {total} > {maxDecodedHeapBytes} bytes"
  pure total

def readHead : Reader String Head := fun cur => do
  let (off, cur) ← readUInt 4 cur
  let (len, cur) ← readUInt 2 cur
  let (tag, cur) ← readUInt 4 cur
  pure (⟨off, len, BitVec.ofNat 32 tag⟩, cur)

structure PoolErrors where
  what : String
  count : Nat → String
  short : String
  reference : String
  bounds : String
  utf8 : String
  unreferenced : String

/-- The entries of the pool the heads point to, which they have to cover
without gaps. -/
def decodeEntries (errors : PoolErrors) (pool : Bytes) : (nextPoolOffset : Nat) → List Head → Res (List Pooled)
  | next, [] => do
    ensure (next = pool.length) errors.unreferenced
    pure []
  | next, h :: heads => do
    ensure (h.off = next) errors.reference
    ensure (h.off + h.len ≤ pool.length) errors.bounds
    match fromUtf8 ((pool.drop h.off).take h.len) with
    | none => throw errors.utf8
    | some text =>
      let entries ← decodeEntries errors pool (h.off + h.len) heads
      pure ((text, h.tag) :: entries)

/-- The heap one entry of a pooled section is charged: its decoded head, the
entry, and the allocation of its text. -/
def perEntryHeap : Nat := 24 + 32 + perStringAllocationOverhead

/-- A pooled section of at most `limit` entries, with the heap charged so far. -/
def decodePooled (errors : PoolErrors) (limit : Nat) (payload : Bytes) (heap : Nat) : Res (List Pooled × Nat) := do
  let (n, cur) ← readUInt 4 payload
  ensure (n ≤ limit) (errors.count n)
  ensure (8 + n * 10 ≤ payload.length) errors.short
  let heap ← chargeDecodedHeap heap (n * perEntryHeap + payload.length) errors.what
  let (heads, cur) ← readMany readHead n cur
  let (poolLen, cur) ← readUInt 4 cur
  let (pool, cur) ← readBytes truncated poolLen cur
  ensureDone cur
  let entries ← decodeEntries errors pool 0 heads
  pure (entries, heap)

def categoryErrors : PoolErrors where
  what := "categories"
  count n := s!"category count {n} exceeds limit"
  short := "declared category count exceeds section length"
  reference := "noncanonical or overlapping category name pool reference"
  bounds := "category name out of pool bounds"
  utf8 := "category name invalid utf-8"
  unreferenced := "unreferenced bytes in category name pool"

def strErrors (what : String) : PoolErrors where
  what
  count n := s!"{what}: entry count {n} exceeds limit"
  short := s!"{what}: declared entry count exceeds section length"
  reference := s!"{what}: noncanonical or overlapping string pool reference"
  bounds := s!"{what}: string entry out of pool bounds"
  utf8 := s!"{what}: invalid utf-8"
  unreferenced := s!"{what}: unreferenced bytes in string pool"

def decodeCategories (payload : Bytes) (heap : Nat) : Res (List Category × Nat) := do
  let (entries, heap) ← decodePooled categoryErrors maxCategories payload heap
  pure (entries.map fun e => ⟨e.1, e.2⟩, heap)

def decodeStrSection (payload : Bytes) (what : String) (heap : Nat) : Res (List StrEntry × Nat) := do
  let (entries, heap) ← decodePooled (strErrors what) maxEntries payload heap
  pure (entries.map fun e => ⟨e.1, e.2⟩, heap)

def readWord : Reader String (BitVec 64) := fun cur => do
  let (word, cur) ← readUInt 8 cur
  pure (BitVec.ofNat 64 word, cur)

/-- The section of category sets: the words of a set, and all words. -/
def decodeCatsets (payload : Bytes) (heap : Nat) : Res (BitVec 32 × List (BitVec 64) × Nat) := do
  let (words, cur) ← readUInt 4 payload
  let (n, cur) ← readUInt 4 cur
  let total := words * n
  ensure (total ≤ maxEntries) "catset table too large"
  ensure (payload.length = 8 + total * 8) "declared catset count inconsistent with section length"
  let heap ← chargeDecodedHeap heap (total * 8) "catsets"
  let (catsets, cur) ← readMany readWord total cur
  ensureDone cur
  pure (BitVec.ofNat 32 words, catsets, heap)

/-- A range of addresses of `k` bytes. -/
def readRange (w k : Nat) : Reader String (Range w) := fun cur => do
  let (s, cur) ← readUInt k cur
  let (e, cur) ← readUInt k cur
  let (c, cur) ← readUInt 4 cur
  pure ((BitVec.ofNat w s, BitVec.ofNat w e, BitVec.ofNat 32 c), cur)

/-- A section of ranges, each `size` bytes in memory. -/
def decodeRanges (w k size : Nat) (what : String) (payload : Bytes) (heap : Nat) : Res (List (Range w) × Nat) := do
  let (n, cur) ← readUInt 4 payload
  ensure (n ≤ maxEntries) s!"{what} count exceeds limit"
  ensure (payload.length = 4 + n * (k + k + 4)) s!"declared {what} count inconsistent with section length"
  let heap ← chargeDecodedHeap heap (n * size) what
  let (ranges, cur) ← readMany (readRange w k) n cur
  ensureDone cur
  pure (ranges, heap)

/-- `size_of::<(u32, u32, u32)>()`. -/
def sizeOfRange4 : Nat := 12

/-- `size_of::<(u128, u128, u32)>()`. -/
def sizeOfRange6 : Nat := 48

/-- What the loop over the sections carries. -/
structure Decoding where
  book : RawBook
  heap : Nat := 0
  seen : List Nat := []

/-- One round of the loop over the sections. -/
def decodeSection (d : Decoding) (kind : Nat) (payload : Bytes) : Res Decoding := do
  ensure (kind ∉ d.seen) s!"duplicate section kind {kind}"
  let seen := d.seen ++ [kind]
  let book := d.book
  if kind = secCategories then
    let (categories, heap) ← decodeCategories payload d.heap
    pure { book := { book with categories := book.categories ++ categories }, heap, seen }
  else if kind = secCatsets then
    let (catsetWords, catsets, heap) ← decodeCatsets payload d.heap
    pure { book := { book with catsetWords, catsets := book.catsets ++ catsets }, heap, seen }
  else if kind = secIp4 then
    let (ip4, heap) ← decodeRanges 32 4 sizeOfRange4 "ip4" payload d.heap
    pure { book := { book with ip4 := book.ip4 ++ ip4 }, heap, seen }
  else if kind = secIp6 then
    let (ip6, heap) ← decodeRanges 128 16 sizeOfRange6 "ip6" payload d.heap
    pure { book := { book with ip6 := book.ip6 ++ ip6 }, heap, seen }
  else if kind = secDomainExact then
    let (domainExact, heap) ← decodeStrSection payload "domain_exact" d.heap
    pure { book := { book with domainExact }, heap, seen }
  else if kind = secDomainSuffix then
    let (domainSuffix, heap) ← decodeStrSection payload "domain_suffix" d.heap
    pure { book := { book with domainSuffix }, heap, seen }
  else if kind = secKeyword then
    let (keywords, heap) ← decodeStrSection payload "keyword" d.heap
    pure { book := { book with keywords }, heap, seen }
  else throw s!"unknown section kind {kind}"

def decodeSections : Decoding → List (Nat × Bytes) → Res Decoding
  | d, [] => pure d
  | d, (kind, payload) :: sections => do
    let d ← decodeSection d kind payload
    decodeSections d sections

structure SectionEntry where
  kind : Nat
  off : Nat
  len : Nat

def readSectionEntry : Reader String SectionEntry := fun cur => do
  let (kind, cur) ← readUInt 4 cur
  let (off, cur) ← readUInt 8 cur
  let (len, cur) ← readUInt 8 cur
  pure (⟨kind, off, len⟩, cur)

/-- Does the section lie in the file, after the table? -/
def checkBounds (bodyLen payloadStart : Nat) (e : SectionEntry) : Res Unit := do
  ensure (e.off + e.len ≤ bodyLen) s!"section {e.kind} out of file bounds"
  ensure (payloadStart ≤ e.off) s!"section {e.kind} overlaps the header or section table"

/-- Do the sections, in the order of their offsets, cover the file from `next` on? -/
def checkCoverage (bodyLen : Nat) : (next : Nat) → List SectionEntry → Res Unit
  | next, [] => ensure (next = bodyLen) "unreferenced trailing bytes after final section"
  | next, e :: entries => do
    ensure (next ≤ e.off) s!"section {e.kind} overlaps another section"
    ensure (e.off ≤ next) s!"unreferenced bytes before section {e.kind}"
    checkCoverage bodyLen (e.off + e.len) entries

/-- The header and the section table: the epoch and the sections. -/
def decodeTable (body : Bytes) : Res (BitVec 64 × List (Nat × Bytes)) := do
  let (found, cur) ← readBytes truncated magic.length body
  ensure (found = magic) "bad magic: not a .rab artifact"
  let (version, cur) ← readUInt 2 cur
  ensure (version = formatVersion)
    s!"unsupported .rab format version {version} (this build supports {formatVersion})"
  let (reserved, cur) ← readUInt 2 cur
  ensure (reserved = 0) "reserved header field must be zero"
  let (epoch, cur) ← readUInt 8 cur
  let (nSections, cur) ← readUInt 4 cur
  ensure (nSections = sectionCount) s!"v1 requires exactly {sectionCount} sections, found {nSections}"
  let (table, cur) ← readMany readSectionEntry nSections cur
  let payloadStart := body.length - cur.length
  table.forM (checkBounds body.length payloadStart)
  -- sections that start together: only one of them is not empty, and an empty section is refused later
  checkCoverage body.length payloadStart (table.insertionSort fun e e' => e.off ≤ e'.off)
  pure (BitVec.ofNat 64 epoch, table.map fun e => (e.kind, (body.drop e.off).take e.len))

def decode (sha256 : Bytes → Digest) (bytes : Bytes) : Res RawBook := do
  ensure (4 + 2 + 2 + 8 + 4 + checksumLen ≤ bytes.length) "file too small to be a .rab artifact"
  let body := bytes.take (bytes.length - checksumLen)
  let checksum := bytes.drop (bytes.length - checksumLen)
  ensure ((sha256 body).val = checksum) "checksum mismatch: artifact is corrupt or truncated"
  let (buildEpoch, sections) ← decodeTable body
  let d ← decodeSections { book := { buildEpoch } } sections
  validate d.book
  pure d.book

def Book.fromBytes (sha256 : Bytes → Digest) (bytes : Bytes) : Res Book := do
  let raw ← decode sha256 bytes
  pure (Book.fromRaw raw (sha256 bytes))

end Rove.AddrBook
