/-
The decoded `.rab` payload and its structural invariants
(`addrbook/format.rs`): `RawBook` and `validate`, which both the builder and
the decoder run last.
-/
import Rove.Base.Result
import Rove.Base.Str

namespace Rove.AddrBook

/-! ## The tables -/

/-- `u32::MAX`, the parent of a root category. -/
def u32Max : BitVec 32 := BitVec.allOnes 32

/-- `0xffff << 32`. -/
def ipv4MappedStart : Nat := 0xffff * 2 ^ 32

/-- `IPV4_MAPPED_START | u32::MAX`. -/
def ipv4MappedEnd : Nat := ipv4MappedStart + (2 ^ 32 - 1)

def maxCategories : Nat := 100000
def maxEntries : Nat := 8000000
def maxDecodedHeapBytes : Nat := 256 * 1024 * 1024
def perStringAllocationOverhead : Nat := 16

/-- A category: its full path, and its parent's index or `u32::MAX`. -/
structure Category where
  name : Str
  parent : BitVec 32
  deriving DecidableEq

/-- A domain or keyword with the id of its category set. -/
structure StrEntry where
  text : Str
  catset : BitVec 32
  deriving DecidableEq

/-- An inclusive address range with the id of its category set. -/
abbrev Range (w : Nat) := BitVec w × BitVec w × BitVec 32

structure RawBook where
  buildEpoch : BitVec 64 := 0
  categories : List Category := []
  catsetWords : BitVec 32 := 0
  catsets : List (BitVec 64) := []
  ip4 : List (Range 32) := []
  ip6 : List (Range 128) := []
  domainExact : List StrEntry := []
  domainSuffix : List StrEntry := []
  keywords : List StrEntry := []
  deriving DecidableEq

/-! ## `validate` -/

/-- A character a category path segment may hold. -/
def isSegmentChar (c : Char) : Bool :=
  (97 ≤ c.toNat && c.toNat ≤ 122) || (48 ≤ c.toNat && c.toNat ≤ 57) ||
  c == '-' || c == '_' || c == '.' || c == '@' || c == '!'

/-- A nonempty segment of allowed characters. -/
def isSegment (seg : Str) : Bool := !seg.isEmpty && seg.all isSegmentChar

def isAsciiUppercase (c : Char) : Bool := 65 ≤ c.toNat && c.toNat ≤ 90

def isNormalizedMatchText (text : Str) : Bool :=
  text == Str.trimMatches '.' (Str.trim text) && !text.any isAsciiUppercase

/-- Every two neighbours in ascending order: the `windows(2)` checks. -/
def ascending {α : Type} [LT α] [DecidableLT α] : List α → Bool
  | a :: b :: rest => decide (a < b) && ascending (b :: rest)
  | _ => true

def checkCategory (cats : List Category) (c : Category) : Res Unit := do
  ensure (c.name ≠ []) "empty category name"
  ensure ((c.name.splitOn '/').all isSegment = true)
    s!"category {Str.display c.name} has invalid path syntax"
  match Str.rsplitOnce '/' c.name with
  | some (expectedParent, _) =>
    ensure (c.parent ≠ u32Max) s!"category {Str.display c.name} is missing its parent"
    match cats[c.parent.toNat]? with
    | none => throw s!"category {Str.display c.name} has dangling parent"
    | some p =>
      ensure (p.name = expectedParent)
        s!"category {Str.display c.name} parent mismatch: expected {Str.display expectedParent}, found {Str.display p.name}"
  | none =>
    ensure (c.parent = u32Max) s!"root category {Str.display c.name} must not have a parent"

def checkCatset (nSets : Nat) (cs : BitVec 32) (what : String) : Res Unit :=
  ensure (cs.toNat < nSets) s!"{what}: dangling catset id {cs.toNat}"

/-- The loop over one range table; `extra` is what is checked of IPv6 ranges only. -/
def checkRanges {w : Nat} (what : String) (nSets : Nat) (extra : Range w → Res Unit) :
    (prevEnd : Option (BitVec w)) → List (Range w) → Res Unit
  | _, [] => pure ()
  | prevEnd, (s, e, c) :: rest => do
    ensure (s ≤ e) s!"{what} range start > end"
    extra (s, e, c)
    ensure (prevEnd.all (fun pe => decide (pe < s)) = true) s!"{what} ranges unsorted or overlapping"
    checkCatset nSets c what
    checkRanges what nSets extra (some e) rest

/-- An IPv6 range stays clear of the IPv4-mapped block. -/
def checkMapped (r : Range 128) : Res Unit :=
  ensure (¬ (r.1.toNat ≤ ipv4MappedEnd ∧ ipv4MappedStart ≤ r.2.1.toNat))
    "ip6 range overlaps the IPv4-mapped region"

def checkTexts (what : String) (nSets : Nat) (entries : List StrEntry) : Res Unit := do
  ensure (ascending (entries.map (·.text)) = true) s!"{what} not sorted/unique"
  entries.forM fun e => do
    ensure (e.text ≠ []) s!"{what}: empty entry"
    ensure (isNormalizedMatchText e.text = true) s!"{what}: noncanonical entry {Str.debug e.text}"
    checkCatset nSets e.catset what

/-- The bits of the last word of a set that name a category. -/
def validLastWord (remainder : Nat) : BitVec 64 := BitVec.ofNat 64 (2 ^ remainder - 1)

def validate (book : RawBook) : Res Unit := do
  let nCats := book.categories.length
  ensure (nCats ≤ maxCategories) s!"category count {nCats} exceeds limit"
  let words := book.catsetWords.toNat
  ensure (words = (nCats + 63) / 64) s!"catset_words {words} inconsistent with {nCats} categories"
  if words = 0 then
    ensure (book.catsets = []) "catset data present with zero word count"
  else
    ensure (book.catsets.length % words = 0) "catset table length not a multiple of word count"
  let nSets := book.catsets.length / words
  ensure (ascending (book.categories.map (·.name)) = true) "categories not sorted/unique"
  book.categories.forM (checkCategory book.categories)
  (List.range nSets).forM fun i =>
    ensure (nCats % 64 = 0 ∨
        (book.catsets[i * words + (words - 1)]?.getD 0) &&& ~~~ validLastWord (nCats % 64) = 0)
      s!"catset {i} has bits outside the category table"
  checkRanges "ip4" nSets (fun _ => pure ()) none book.ip4
  checkRanges "ip6" nSets checkMapped none book.ip6
  checkTexts "domain_exact" nSets book.domainExact
  checkTexts "domain_suffix" nSets book.domainSuffix
  checkTexts "keyword" nSets book.keywords

end Rove.AddrBook
