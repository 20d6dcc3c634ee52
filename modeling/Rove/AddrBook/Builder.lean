/-
The `.rab` builder (`addrbook/builder.rs`): rule lines are collected by
category, and `build` turns what was collected into a validated book.

A call that fails can leave its category registered, so the calls return the
builder beside their result. Where the source would panic, on a category
without an id or on too many category sets, `build` stops with that message.
-/
import Rove.AddrBook.Sweep
import Rove.AddrBook.Codec
import Rove.Base.IpNet

namespace Rove.AddrBook

structure BookBuilder where
  epoch : BitVec 64
  categories : BTreeSet Str := .empty
  ip4 : List (Nat × Nat × Str) := []
  ip6 : List (Nat × Nat × Str) := []
  exact : BTreeMultimap Str Str := .empty
  suffix : BTreeMultimap Str Str := .empty
  keywords : BTreeMultimap Str Str := .empty

def BookBuilder.new (epoch : BitVec 64) : BookBuilder := { epoch }

/-! ## Adding rules -/

def checkSegment (path seg : Str) : Res Unit := do
  ensure (seg ≠ []) s!"category path {Str.debug path} has an empty segment"
  ensure (seg.all isSegmentChar = true)
    s!"category path {Str.debug path} has invalid characters (allowed: a-z 0-9 - _ . @ ! /)"

/-- The paths `acc` runs through: one for each segment. -/
def pathsOf : (acc : Str) → List Str → List Str
  | _, [] => []
  | acc, seg :: segs =>
    let acc := (if acc = [] then acc else acc ++ ['/']) ++ seg
    acc :: pathsOf acc segs

/-- `add_category`: the normalised path, and the builder with it and its
ancestors registered. -/
def BookBuilder.addCategory (b : BookBuilder) (path : Str) : Res (Str × BookBuilder) := do
  let norm := normalizeCategory path
  ensure (norm ≠ []) "empty category path"
  (norm.splitOn '/').forM (checkSegment path)
  pure (norm, { b with categories := (pathsOf [] (norm.splitOn '/')).foldl BTreeSet.insert b.categories })

/-- What `add_domain_suffix`, `add_domain_exact` and `add_keyword` do: the
normalised text is put under the category, unless it is empty. -/
def BookBuilder.addText (b : BookBuilder) (category : Str) (what : String) (text : Str)
    (put : BookBuilder → Str → BookBuilder) : BookBuilder × Res Unit :=
  match b.addCategory category with
  | .error e => (b, .error e)
  | .ok (cat, b) =>
    if text = [] then (b, .error s!"empty {what} in category {Str.debug category}") else (put b cat, .ok ())

def BookBuilder.addDomainSuffix (b : BookBuilder) (category host : Str) : BookBuilder × Res Unit :=
  let name := normalizeDomain host
  let name := (Str.stripPrefix "*." name).getD name
  b.addText category "domain" name fun b cat => { b with suffix := b.suffix.insert (reverseLabels name) cat }

def BookBuilder.addDomainExact (b : BookBuilder) (category host : Str) : BookBuilder × Res Unit :=
  let name := normalizeDomain host
  b.addText category "domain" name fun b cat => { b with exact := b.exact.insert name cat }

def BookBuilder.addKeyword (b : BookBuilder) (category fragment : Str) : BookBuilder × Res Unit :=
  let frag := normalizeDomain fragment
  b.addText category "keyword" frag fun b cat => { b with keywords := b.keywords.insert frag cat }

/-- An inclusive range, and whether it is one of IPv4 addresses. -/
abbrev IpRange := Nat × Nat × Bool

def canonicalizeIpRange : IpRange → List IpRange
  | (start, stop, isV4) =>
    if isV4 ∨ stop < ipv4MappedStart ∨ ipv4MappedEnd < start then [(start, stop, isV4)]
    else
      (if start < ipv4MappedStart then [(start, ipv4MappedStart - 1, false)] else []) ++
      [(max start ipv4MappedStart - ipv4MappedStart, min stop ipv4MappedEnd - ipv4MappedStart, true)] ++
      (if ipv4MappedEnd < stop then [(ipv4MappedEnd + 1, stop, false)] else [])

def netRange : IpNet → IpRange
  | .v4 a n => ((networkBits a n.val).toNat, (broadcastBits a n.val).toNat, true)
  | .v6 a n => ((networkBits a n.val).toNat, (broadcastBits a n.val).toNat, false)

def addrRange : IpAddr → IpRange
  | .v4 a => (a.toNat, a.toNat, true)
  | .v6 a => (a.toNat, a.toNat, false)

def parseIpEntries (parseIpNet : Str → Option IpNet) (s : Str) : Option (List IpRange) :=
  let t := Str.trim s
  match parseIpNet t with
  | some net => some (canonicalizeIpRange (netRange net))
  | none => (parseIpAddr t).map fun addr => canonicalizeIpRange (addrRange addr)

/-- The ranges of one entry, each into the table of its family. -/
def BookBuilder.pushRange (cat : Str) (b : BookBuilder) : IpRange → BookBuilder
  | (start, stop, true) => { b with ip4 := b.ip4 ++ [(start, stop, cat)] }
  | (start, stop, false) => { b with ip6 := b.ip6 ++ [(start, stop, cat)] }

/-- What the rules start with that say their type. -/
def fullTag : Str := "full:"
def keywordTag : Str := "keyword:"
def domainTag : Str := "domain:"

def BookBuilder.addRule (parseIpNet : Str → Option IpNet) (b : BookBuilder) (category rule : Str) :
    BookBuilder × Res Unit :=
  match b.addCategory category with
  | .error e => (b, .error e)
  | .ok (cat, b) =>
    let r := Str.trim rule
    if r = [] then (b, .error "empty rule")
    else
      match Str.stripPrefix fullTag r with
      | some host => b.addDomainExact cat host
      | none =>
        match Str.stripPrefix keywordTag r with
        | some frag => b.addKeyword cat frag
        | none =>
          match Str.stripPrefix domainTag r with
          | some host => b.addDomainSuffix cat host
          | none =>
            match parseIpEntries parseIpNet r with
            | some ranges => (ranges.foldl (BookBuilder.pushRange cat) b, .ok ())
            | none =>
              -- an unknown `type:pattern` is a suffix rule for the pattern
              b.addDomainSuffix cat (((Str.splitOnce ':' r).map (·.2)).getD r)

/-- The builder after calls of `add_rule` that all succeed. -/
def BookBuilder.addRules (parseIpNet : Str → Option IpNet) (b : BookBuilder) : List (Str × Str) → Res BookBuilder
  | [] => pure b
  | (category, rule) :: lines =>
    match b.addRule parseIpNet category rule with
    | (b, .ok ()) => b.addRules parseIpNet lines
    | (_, .error e) => throw e

/-! ## `build` -/

/-- `cat_id`: each category's position in the sorted list. -/
def catIdOf (cats : List Str) : HashMap Str (BitVec 32) :=
  cats.zipIdx.foldl (fun m (name, i) => m.insert name (BitVec.ofNat 32 i)) ∅

/-- `cat_id[name]`. -/
def indexCatId (catId : HashMap Str (BitVec 32)) (name : Str) : Res (BitVec 32) :=
  match catId.get? name with
  | some id => pure id
  | none => throw "no entry found for key"

/-- `catset_words` for so many categories. -/
def wordsFor (n : Nat) : Nat := max ((n + 63) / 64) (if n = 0 then 0 else 1)

def categoryEntry (catId : HashMap Str (BitVec 32)) (name : Str) : Res Category :=
  match Str.rsplitOnce '/' name with
  | some (up, _) => do
    let parent ← indexCatId catId up
    pure ⟨name, parent⟩
  | none => pure ⟨name, u32Max⟩

/-- A collected range, with the category's id. -/
def rawRange (catId : HashMap Str (BitVec 32)) (r : Nat × Nat × Str) : Res RawRange := do
  let id ← indexCatId catId r.2.2
  pure (r.1, r.2.1, id.toNat)

def maskOf (catId : HashMap Str (BitVec 32)) (words : Nat) (cats : BTreeSet Str) : Res Mask := do
  let ids ← cats.elems.mapM (indexCatId catId)
  pure (maskOfIds words (ids.map (·.toNat)))

/-- The category sets so far, and the id of each. -/
structure Interner where
  ids : HashMap Mask (BitVec 32) := ∅
  catsets : List (BitVec 64) := []

def Interner.intern (st : Interner) (mask : Mask) : Res (BitVec 32 × Interner) :=
  match st.ids.get? mask with
  | some id => pure (id, st)
  | none => do
    ensure (st.ids.len < 2 ^ 32) "catset count fits u32: TryFromIntError(())"
    let id := BitVec.ofNat 32 st.ids.len
    pure (id, ⟨st.ids.insert mask id, st.catsets ++ mask⟩)

/-- A loop that fills one table: `entry` says which set an item has and what
its entry is for the id of that set. -/
def internEach {α β : Type} (entry : α → Res (Mask × (BitVec 32 → β))) : Interner → List α → Res (Interner × List β)
  | st, [] => pure (st, [])
  | st, a :: as => do
    let (mask, mk) ← entry a
    let (id, st) ← st.intern mask
    let (st, bs) ← internEach entry st as
    pure (st, mk id :: bs)

/-- `u32::try_from(..).context("ip4 sweep out of range")`, of both ends. -/
def ip4Entry (r : Run Mask) : Res (Mask × (BitVec 32 → Range 32)) := do
  ensure (r.lo < 2 ^ 32) "ip4 sweep out of range"
  ensure (r.hi < 2 ^ 32) "ip4 sweep out of range"
  pure (r.value, fun id => (BitVec.ofNat 32 r.lo, BitVec.ofNat 32 r.hi, id))

def ip6Entry (r : Run Mask) : Res (Mask × (BitVec 32 → Range 128)) :=
  pure (r.value, fun id => (BitVec.ofNat 128 r.lo, BitVec.ofNat 128 r.hi, id))

def textEntry (catId : HashMap Str (BitVec 32)) (words : Nat) (e : Str × BTreeSet Str) :
    Res (Mask × (BitVec 32 → StrEntry)) := do
  let mask ← maskOf catId words e.2
  pure (mask, fun id => ⟨e.1, id⟩)

def BookBuilder.build (b : BookBuilder) : Res RawBook := do
  let catList := b.categories.elems
  let catId := catIdOf catList
  let words := wordsFor catList.length
  let categories ← catList.mapM (categoryEntry catId)
  let ranges4 ← b.ip4.mapM (rawRange catId)
  let (st, ip4) ← internEach ip4Entry {} (sweep ranges4 words)
  let ranges6 ← b.ip6.mapM (rawRange catId)
  let (st, ip6) ← internEach ip6Entry st (sweep ranges6 words)
  let (st, domainExact) ← internEach (textEntry catId words) st b.exact.sets.entries
  let (st, domainSuffix) ← internEach (textEntry catId words) st b.suffix.sets.entries
  let (st, keywords) ← internEach (textEntry catId words) st b.keywords.sets.entries
  ensure (words < 2 ^ 32) tryFromIntError
  let book : RawBook :=
    { buildEpoch := b.epoch, categories, catsetWords := BitVec.ofNat 32 words, catsets := st.catsets, ip4, ip6,
      domainExact, domainSuffix, keywords }
  validate book
  pure book

def BookBuilder.buildBytes (sha256 : Bytes → Digest) (b : BookBuilder) : Res Bytes := do
  let book ← b.build
  encode sha256 book

end Rove.AddrBook
