/-
The query layer over a decoded artifact (`addrbook/book.rs`): resolving
category patterns to a selector, and matching a host against one.

A book shares selector bitmaps between rule sets through a cache. The cache
is state beside the book here: what it holds is always what `resolveNames`
computes (`SelectorCache.sound`), so it decides only which allocation a
selector shares, never which categories it selects.
-/
import Rove.AddrBook.Format
import Rove.Base.HashMap
import Rove.Base.Search
import Rove.Base.IpAddr
import Rove.Base.Utf8

namespace Rove.AddrBook

abbrev Digest := { b : Bytes // b.length = 32 }

def normalizeDomain (s : Str) : Str := Str.toAsciiLowercase (Str.trimMatches '.' (Str.trim s))

def reverseLabels (domain : Str) : Str := Str.join ['.'] (domain.splitOn '.').reverse

def normalizeCategory (s : Str) : Str := Str.toAsciiLowercase (Str.trimMatches '/' (Str.trim s))

/-- `Selector`: a bitmask over the book's category ids. `alloc` is the
address of the shared allocation. -/
structure Selector where
  mask : List (BitVec 64)
  alloc : Nat

/-- `Selector::allocation`: the address and the size in bytes. -/
def Selector.allocation (s : Selector) : Nat × Nat := (s.alloc, 8 * s.mask.length)

/-- `AddrBook`, less its selector cache. -/
structure Book where
  raw : RawBook
  nameIndex : HashMap Str Nat
  checksum : Digest

/-- `name_index`: each category's name, with its id. -/
def nameIndexOf (cats : List Category) : HashMap Str Nat :=
  cats.zipIdx.foldl (fun m (c, i) => m.insert c.name i) ∅

def Book.fromRaw (raw : RawBook) (checksum : Digest) : Book :=
  { raw, nameIndex := nameIndexOf raw.categories, checksum }

/-! ## Bits -/

def setBit (mask : List (BitVec 64)) (id : Nat) : List (BitVec 64) :=
  mask.modify (id / 64) (· ||| (1#64 <<< (id % 64)))

def getBit (mask : List (BitVec 64)) (id : Nat) : Bool := (mask[id / 64]?.getD 0).getLsbD (id % 64)

/-! ## `resolve` -/

/-- The ids one normalised name selects: its own, and those of the names that
extend it by `/`, which form a range of the sorted table. -/
def Book.idsOf (b : Book) (name : Str) : List Nat :=
  let cats := b.raw.categories
  let lo := name ++ ['/']
  let hi := name ++ ['0']
  let start := partitionPoint cats fun c => decide (c.name < lo)
  let stop := partitionPoint cats fun c => decide (c.name < hi)
  (b.nameIndex.get? name).toList ++ List.range' start (stop - start)

/-- The loop over the names: the mask with the bits of every name set. -/
def Book.resolveNames (b : Book) : List Str → List (BitVec 64) → Res (List (BitVec 64))
  | [], mask => pure mask
  | name :: names, mask => do
    ensure (b.idsOf name ≠ []) s!"unknown addrbook category {Str.debug name}"
    b.resolveNames names ((b.idsOf name).foldl setBit mask)

def Book.zeroMask (b : Book) : List (BitVec 64) := List.replicate b.raw.catsetWords.toNat 0

def normalizePatterns : List Str → Res (List Str)
  | [] => pure []
  | p :: ps => do
    ensure (normalizeCategory p ≠ []) "empty addrbook category pattern"
    let names ← normalizePatterns ps
    pure (normalizeCategory p :: names)

/-- `sort` then `dedup`. -/
def sortDedup (names : List Str) : List Str := (names.mergeSort (· ≤ ·)).destutter (· ≠ ·)

/-- One entry of the cache: a combination of names and the mask it shares,
which is `live` as long as some rule set still holds it. -/
structure CacheEntry where
  names : List Str
  selector : Selector
  live : Bool

/-- The selector cache of a book, with the next address an allocation gets. -/
structure SelectorCache (b : Book) where
  entries : List CacheEntry
  nextAlloc : Nat
  sound : ∀ e ∈ entries, b.resolveNames e.names b.zeroMask = .ok e.selector.mask

/-- A book that nothing was resolved against. -/
def SelectorCache.empty (b : Book) : SelectorCache b := ⟨[], 0, by simp⟩

def maxSelectorCacheEntries : Nat := 20000

/-- The live selector cached for these names. -/
def SelectorCache.get? {b : Book} (cache : SelectorCache b) (names : List Str) : Option Selector :=
  (cache.entries.find? fun e => e.names = names && e.live).map (·.selector)

theorem SelectorCache.get?_sound {b} (cache : SelectorCache b) {names sel}
    (h : cache.get? names = some sel) : b.resolveNames names b.zeroMask = .ok sel.mask := by
  obtain ⟨e, he, rfl⟩ := Option.map_eq_some_iff.1 h
  have hnames := List.find?_some he
  simp only [Bool.and_eq_true, decide_eq_true_eq] at hnames
  rw [← hnames.1]
  exact cache.sound e (List.mem_of_find?_eq_some he)

/-- `cache.insert`, when there is room. -/
def SelectorCache.insert {b : Book} (cache : SelectorCache b) (names : List Str) (sel : Selector)
    (h : b.resolveNames names b.zeroMask = .ok sel.mask) : SelectorCache b where
  entries :=
    if cache.entries.length < maxSelectorCacheEntries then
      cache.entries.filter (fun e => e.names ≠ names) ++ [⟨names, sel, true⟩]
    else cache.entries
  nextAlloc := cache.nextAlloc + 1
  sound := by
    intro e he
    split at he
    · rcases List.mem_append.1 he with he | he
      · exact cache.sound e (List.mem_filter.1 he).1
      · rw [List.mem_singleton] at he
        subst he
        exact h
    · exact cache.sound e he

/-- `prune_selector_cache`. -/
def SelectorCache.prune {b : Book} (cache : SelectorCache b) : SelectorCache b :=
  { cache with
    entries := cache.entries.filter (·.live)
    sound := fun e he => cache.sound e (List.mem_filter.1 he).1 }

def Book.resolve (b : Book) (cache : SelectorCache b) (patterns : List Str) :
    Res (Selector × SelectorCache b) := do
  let names ← normalizePatterns patterns
  let names := sortDedup names
  if names = [] then
    return (⟨[], cache.nextAlloc⟩, { cache with nextAlloc := cache.nextAlloc + 1 })
  match cache.get? names with
  | some sel => return (sel, cache)
  | none =>
    match h : b.resolveNames names b.zeroMask with
    | .error e => throw e
    | .ok mask =>
      let sel : Selector := ⟨mask, cache.nextAlloc⟩
      return (sel, cache.insert names sel h)

/-! ## `matches` -/

/-- `lookup_range4` and `lookup_range6`: the set of the range that holds the key. -/
def lookupRange {w : Nat} (ranges : List (Range w)) (key : BitVec w) : Option (BitVec 32) :=
  let idx := partitionPoint ranges fun r => decide (r.1 ≤ key)
  if idx = 0 then none
  else (ranges[idx - 1]?).bind fun (_, e, c) => if key ≤ e then some c else none

def Book.catset (b : Book) (cs : BitVec 32) : List (BitVec 64) :=
  let w := b.raw.catsetWords.toNat
  (b.raw.catsets.drop (cs.toNat * w)).take w

def Book.catsetIntersects (b : Book) (cs : BitVec 32) (sel : Selector) : Bool :=
  if b.raw.catsetWords.toNat = 0 then false
  else ((b.catset cs).zip sel.mask).any fun (x, y) => x &&& y != 0

/-- The set of an address; an IPv4-mapped address is looked up as IPv4. -/
def Book.lookupIp (b : Book) : IpAddr → Option (BitVec 32)
  | .v4 a => lookupRange b.raw.ip4 a
  | .v6 a =>
    match a.toIpv4Mapped with
    | some v4 => lookupRange b.raw.ip4 v4
    | none => lookupRange b.raw.ip6 a

def Book.matchesIp (b : Book) (ip : IpAddr) (sel : Selector) : Bool :=
  match b.lookupIp ip with
  | some cs => b.catsetIntersects cs sel
  | none => false

/-- `binary_search_by` on the texts of a sorted table: the entry found. -/
def findText (entries : List StrEntry) (text : Str) : Option StrEntry :=
  match binarySearchBy entries fun e => compare e.text text with
  | .ok i => entries[i]?
  | .error _ => none

/-- Is the text in the table, with a set that meets the selector? -/
def Book.textSelected (b : Book) (entries : List StrEntry) (sel : Selector) (text : Str) : Bool :=
  match findText entries text with
  | some e => b.catsetIntersects e.catset sel
  | none => false

/-- The loop over the label-boundary prefixes of a reversed name, the next one
starting its last label at `boundary`. -/
def labelPrefixAny (test : Str → Bool) (rev : Str) : (fuel boundary : Nat) → Bool
  | 0, _ => false
  | fuel + 1, boundary =>
    let stop := boundary + ((rev.drop boundary).takeWhile (· ≠ '.')).length
    if test (rev.take stop) then true
    else if stop = rev.length then false
    else labelPrefixAny test rev fuel (stop + 1)

def Book.matchesDomain (b : Book) (host : Str) (sel : Selector) : Bool :=
  let name := normalizeDomain host
  if name = [] then false
  else if b.textSelected b.raw.domainExact sel name then true
  else
    let rev := reverseLabels name
    if labelPrefixAny (b.textSelected b.raw.domainSuffix sel) rev (rev.length + 1) 0 then true
    else b.raw.keywords.any fun k => Str.contains name k.text && b.catsetIntersects k.catset sel

/-- `AddrBook::matches`. -/
def Book.matchesHost (b : Book) (host : Str) (sel : Selector) : Bool :=
  match parseIpAddr host with
  | some ip => b.matchesIp ip sel
  | none => b.matchesDomain host sel

end Rove.AddrBook
