/-
The export of a book for control planes (`addrbook/export.rs`): one expansion
for each category, with the names and the CIDR blocks of the entries tagged
with it. A control plane that takes the expansions of a category and of those
below it selects the hosts that a node selects (`catalog_selects_as_node`).
-/
import Rove.AddrBook.Cidr
import Rove.AddrBook.Compiled

namespace Rove.AddrBook

open List
open Policy (IsLabelSuffix)

structure DomainExpansion where
  exact : List Str
  suffix : List Str
  keyword : List Str

structure CategoryExpansion where
  domains : DomainExpansion
  cidrs : List Str

structure ControlPlaneCatalog where
  schemaVersion : BitVec 32
  addrbookEpoch : BitVec 64
  categories : List Str
  expansions : BTreeMap Str CategoryExpansion

def sideCarSchemaVersion : BitVec 32 := 1

def catsetHas (raw : RawBook) (catset : BitVec 32) (categoryId : Nat) : Bool :=
  let words := raw.catsetWords.toNat
  if words = 0 then false
  else
    let place := catset.toNat * words + categoryId / 64
    if raw.catsets.length ≤ place then false else (raw.catsets[place]?.getD 0).getLsbD (categoryId % 64)

def categoriesForCatset (raw : RawBook) (catset : BitVec 32) : List Nat :=
  (List.range raw.categories.length).filter (catsetHas raw catset)

/-- The loop over one table: the texts of every entry go to the sets of its categories. -/
def tagEntries {α : Type} (raw : RawBook) (catset : α → BitVec 32) (texts : α → List Str) (entries : List α)
    (sets : List (BTreeSet Str)) : List (BTreeSet Str) :=
  entries.foldl (fun sets e =>
    (categoriesForCatset raw (catset e)).foldl (fun sets id => sets.modify id ((texts e).foldl BTreeSet.insert)) sets)
    sets

/-- The elements of the set of a category. -/
def taggedAt (sets : List (BTreeSet Str)) (id : Nat) : List Str := (sets[id]?.getD .empty).elems

def expansionOf (raw : RawBook) (id : Nat) : CategoryExpansion :=
  let empty := replicate raw.categories.length .empty
  let exact := tagEntries raw (·.catset) (fun e => [e.text]) raw.domainExact empty
  -- stored with the labels reversed
  let suffix := tagEntries raw (·.catset) (fun e => [reverseLabels e.text]) raw.domainSuffix empty
  let keyword := tagEntries raw (·.catset) (fun e => [e.text]) raw.keywords empty
  let cidrs := tagEntries raw (·.2.2) (fun r => ipv4RangeToCidrs r.1 r.2.1) raw.ip4 empty
  let cidrs := tagEntries raw (·.2.2) (fun r => ipv6RangeToCidrs r.1 r.2.1) raw.ip6 cidrs
  { domains := { exact := taggedAt exact id, suffix := taggedAt suffix id, keyword := taggedAt keyword id }
    cidrs := taggedAt cidrs id }

def expansionsOf (raw : RawBook) : BTreeMap Str CategoryExpansion :=
  raw.categories.zipIdx.foldl (fun m e => m.alter e.1.name fun _ => expansionOf raw e.2) .empty

def controlPlaneCatalog (raw : RawBook) : Res ControlPlaneCatalog := do
  ensure (raw.categories ≠ []) "addrbook has no categories"
  pure {
    schemaVersion := sideCarSchemaVersion
    addrbookEpoch := raw.buildEpoch
    categories := raw.categories.map (·.name)
    expansions := expansionsOf raw }

/-! ## What a control plane selects -/

/-- The address and the length that a CIDR text names. -/
def readCidr (text : Str) : Option (IpAddr × Nat) := do
  let (addr, len) ← Str.splitOnce '/' text
  let ip ← parseIpAddr addr
  let len ← parseUnsigned 8 10 len
  pure (ip, len)

def cidrHolds (text : Str) (ip : IpAddr) : Bool :=
  match readCidr text, ip with
  | some (.v4 base, len), .v4 a => decide (Cidr.Holds ⟨base.toNat, 32 - len⟩ a.toNat)
  | some (.v6 base, len), .v6 a => decide (Cidr.Holds ⟨base.toNat, 128 - len⟩ a.toNat)
  | _, _ => false

/-- An IPv4-mapped address is the IPv4 address. -/
def unmapIp : IpAddr → IpAddr
  | .v4 a => .v4 a
  | .v6 a => (a.toIpv4Mapped.map .v4).getD (.v6 a)

def CategoryExpansion.lists (e : CategoryExpansion) (host : Str) : Bool :=
  match parseIpAddr host with
  | some ip => e.cidrs.any (cidrHolds · (unmapIp ip))
  | none =>
    let name := normalizeDomain host
    e.domains.exact.any (fun t => decide (t = name)) || e.domains.suffix.any (fun s => decide (IsLabelSuffix s name)) ||
      e.domains.keyword.any (Str.contains name)

/-- Do the expansions of the category, or of one below it, list the host? -/
def ControlPlaneCatalog.Selects (catalog : ControlPlaneCatalog) (category host : Str) : Prop :=
  ∃ below ∈ catalog.categories, Under category below ∧
    ∃ e, catalog.expansions.get? below = some e ∧ e.lists host = true

/-! ## The sets of the categories -/

section
variable {raw : RawBook} {id : Nat}

theorem mem_taggedAt_modify {ids : List Nat} {texts : List Str} {sets : List (BTreeSet Str)}
    (hid : id < sets.length) {t} :
    t ∈ taggedAt (ids.foldl (fun sets id => sets.modify id (texts.foldl BTreeSet.insert)) sets) id ↔
      t ∈ taggedAt sets id ∨ id ∈ ids ∧ t ∈ texts := by
  induction ids generalizing sets with
  | nil => simp
  | cons i ids ih =>
    have hstep : t ∈ taggedAt (sets.modify i (texts.foldl BTreeSet.insert)) id ↔
        t ∈ taggedAt sets id ∨ id = i ∧ t ∈ texts := by
      rw [taggedAt, taggedAt, getElem?_modify, getElem?_eq_getElem hid]
      by_cases hi : i = id
      · simp [hi, BTreeSet.mem_foldl_insert, or_comm]
      · simp [hi, Ne.symm hi]
    rw [foldl_cons, ih (by rwa [length_modify]), hstep, mem_cons]
    tauto

theorem length_tagEntries {α : Type} {catset : α → BitVec 32} {texts : α → List Str} {entries : List α}
    {sets : List (BTreeSet Str)} : (tagEntries raw catset texts entries sets).length = sets.length := by
  have hone : ∀ (ids : List Nat) (f : BTreeSet Str → BTreeSet Str) (sets : List (BTreeSet Str)),
      (ids.foldl (fun sets id => sets.modify id f) sets).length = sets.length := by
    intro ids f
    induction ids with
    | nil => exact fun _ => rfl
    | cons i ids ih => exact fun sets => by rw [foldl_cons, ih, length_modify]
  induction entries generalizing sets with
  | nil => rfl
  | cons e entries ih => exact (ih).trans (hone _ _ _)

theorem mem_taggedAt_tagEntries {α : Type} {catset : α → BitVec 32} {texts : α → List Str} {entries : List α}
    {sets : List (BTreeSet Str)} (hid : id < raw.categories.length) (hlen : sets.length = raw.categories.length) {t} :
    t ∈ taggedAt (tagEntries raw catset texts entries sets) id ↔
      t ∈ taggedAt sets id ∨ ∃ e ∈ entries, catsetHas raw (catset e) id = true ∧ t ∈ texts e := by
  induction entries generalizing sets with
  | nil => simp [tagEntries]
  | cons e entries ih =>
    have hone : (tagEntries raw catset texts [e] sets).length = sets.length := length_tagEntries
    rw [show tagEntries raw catset texts (e :: entries) sets =
        tagEntries raw catset texts entries (tagEntries raw catset texts [e] sets) from rfl, ih (hone.trans hlen),
      tagEntries, foldl_cons, foldl_nil, mem_taggedAt_modify (by omega)]
    simp only [categoriesForCatset, mem_filter, mem_range, hid, true_and, exists_mem_cons_iff, or_assoc]

theorem exists_taggedAt_tagEntries {α : Type} {catset : α → BitVec 32} {texts : α → List Str} {entries : List α}
    {sets : List (BTreeSet Str)} (hid : id < raw.categories.length) (hlen : sets.length = raw.categories.length)
    {P : Str → Prop} :
    (∃ t ∈ taggedAt (tagEntries raw catset texts entries sets) id, P t) ↔
      (∃ t ∈ taggedAt sets id, P t) ∨ ∃ e ∈ entries, catsetHas raw (catset e) id = true ∧ ∃ t ∈ texts e, P t := by
  simp only [mem_taggedAt_tagEntries hid hlen, or_and_right, exists_or]
  refine or_congr_right ⟨fun h => ?_, fun h => ?_⟩
  · obtain ⟨t, ⟨e, he, hc, ht⟩, hp⟩ := h
    exact ⟨e, he, hc, t, ht, hp⟩
  · obtain ⟨e, he, hc, t, ht, hp⟩ := h
    exact ⟨t, ⟨e, he, hc, ht⟩, hp⟩

theorem taggedAt_empty {n : Nat} {t} : t ∉ taggedAt (replicate n .empty) id := by
  rw [taggedAt, getElem?_replicate]
  split <;> simp [BTreeSet.mem_elems_iff]

/-- The bit the export reads is the bit of the category set. -/
theorem catsetHas_eq_getBit (h : Valid raw) (checksum : Digest) {cs : BitVec 32} (hcs : cs.toNat < raw.nSets)
    (hid : id < raw.categories.length) :
    catsetHas raw cs id = getBit ((Book.fromRaw raw checksum).catset cs) id := by
  have hwords := div_lt_words h hid
  have hslice := h.slice_le hcs
  have hplace : ((Book.fromRaw raw checksum).catset cs)[id / 64]? =
    raw.catsets[cs.toNat * raw.catsetWords.toNat + id / 64]? :=
    (getElem?_take_of_lt hwords).trans getElem?_drop
  rw [catsetHas, if_neg (by omega), if_neg (by omega), getBit, hplace]

theorem get?_expansions {cats : List Category} {expansion : Nat → CategoryExpansion} {start i : Nat} {c : Category}
    {m : BTreeMap Str CategoryExpansion} (hnodup : (cats.map (·.name)).Nodup) (hc : cats[i]? = some c) :
    ((cats.zipIdx start).foldl (fun m e => m.alter e.1.name fun _ => expansion e.2) m).get? c.name =
      some (expansion (start + i)) := by
  have hskip : ∀ (l : List Category) (start : Nat) (m : BTreeMap Str CategoryExpansion), c.name ∉ l.map (·.name) →
      ((l.zipIdx start).foldl (fun m e => m.alter e.1.name fun _ => expansion e.2) m).get? c.name = m.get? c.name := by
    intro l
    induction l with
    | nil => exact fun _ _ _ => rfl
    | cons d l ih =>
      intro start m hnot
      rw [map_cons, mem_cons, not_or] at hnot
      rw [zipIdx_cons, foldl_cons, ih _ _ hnot.2, BTreeMap.get?_alter, if_neg hnot.1]
  induction cats generalizing start i m with
  | nil => simp at hc
  | cons d cats ih =>
    obtain ⟨hnot, hrest⟩ := nodup_cons.1 hnodup
    rw [zipIdx_cons, foldl_cons]
    cases i with
    | zero =>
      obtain rfl : d = c := by simpa using hc
      rw [hskip _ _ _ hnot, BTreeMap.get?_alter, if_pos rfl]
      rfl
    | succ i =>
      rw [ih hrest (by simpa using hc), Nat.add_right_comm]
      rfl

end

/-! ## The texts of the blocks -/

theorem readCidr_toText (ip : IpAddr) {len : Nat} (hlen : len < 256) :
    readCidr (ip.toText ++ '/' :: showNat len) = some (ip, len) := by
  have hslash : '/' ∉ ip.toText := by
    intro h
    have : isAddrChar '/' = true := by
      cases ip with
      | v4 a => exact Ipv4Addr.isAddrChar_of_mem_toText h
      | v6 a => exact Ipv6Addr.isAddrChar_of_mem_toText h
    cases this
  rw [readCidr, Str.splitOnce_append _ hslash]
  simp only [Option.bind_eq_bind, Option.bind_some, ip.parse_toText,
    show parseUnsigned 8 10 (showNat len) = _ from parseUnsigned_showNat hlen]
  rfl

theorem cidrHolds_toTextV4 {c : Cidr} (hc : c.hostBits ≤ 32) (hbase : c.base < 2 ^ 32) {ip : IpAddr} :
    cidrHolds c.toTextV4 ip = true ↔ ∃ a, ip = .v4 a ∧ c.Holds a.toNat := by
  have htoNat : (BitVec.ofNat 32 c.base).toNat = c.base := Nat.mod_eq_of_lt hbase
  have hread := readCidr_toText (.v4 (BitVec.ofNat 32 c.base)) (show 32 - c.hostBits < 256 by omega)
  unfold cidrHolds
  rw [show readCidr c.toTextV4 = _ from hread]
  cases ip with
  | v4 a => simp only [htoNat, Nat.sub_sub_self hc, decide_eq_true_eq, IpAddr.v4.injEq, exists_eq_left']
  | v6 a => simp

theorem cidrHolds_toTextV6 {c : Cidr} (hc : c.hostBits ≤ 128) (hbase : c.base < 2 ^ 128) {ip : IpAddr} :
    cidrHolds c.toTextV6 ip = true ↔ ∃ a, ip = .v6 a ∧ c.Holds a.toNat := by
  have htoNat : (BitVec.ofNat 128 c.base).toNat = c.base := Nat.mod_eq_of_lt hbase
  have hread := readCidr_toText (.v6 (BitVec.ofNat 128 c.base)) (show 128 - c.hostBits < 256 by omega)
  unfold cidrHolds
  rw [show readCidr c.toTextV6 = _ from hread]
  cases ip with
  | v4 a => simp
  | v6 a => simp only [htoNat, Nat.sub_sub_self hc, decide_eq_true_eq, IpAddr.v6.injEq, exists_eq_left']

theorem Covers.base_lt {w start stop blocks} (h : Covers w start stop blocks)
    (hstop : stop < 2 ^ w) {c} (hc : c ∈ blocks) :
    c.base < 2 ^ w := by
  have := (h.exact c.base).1 ⟨c, hc, Nat.le_refl _, Nat.lt_add_of_pos_right (Nat.two_pow_pos _)⟩
  omega

theorem any_ipv4RangeToCidrs {start stop : BitVec 32} {ip : IpAddr} :
    (∃ t ∈ ipv4RangeToCidrs start stop, cidrHolds t ip = true) ↔ ∃ a, ip = .v4 a ∧ start ≤ a ∧ a ≤ stop := by
  have hcovers : Covers 32 start.toNat stop.toNat (ipv4Cidrs start stop) := cidrLoop_covers lastOk_ipv4 stop.isLt _
  have htext : ∀ c ∈ ipv4Cidrs start stop, (cidrHolds c.toTextV4 ip = true ↔ ∃ a, ip = .v4 a ∧ c.Holds a.toNat) :=
    fun c hc => cidrHolds_toTextV4 (hcovers.aligned c hc).le (hcovers.base_lt stop.isLt hc)
  simp only [ipv4RangeToCidrs, mem_map, exists_exists_and_eq_and, BitVec.le_def, ← hcovers.exact]
  grind

theorem any_ipv6RangeToCidrs {start stop : BitVec 128} {ip : IpAddr} :
    (∃ t ∈ ipv6RangeToCidrs start stop, cidrHolds t ip = true) ↔ ∃ a, ip = .v6 a ∧ start ≤ a ∧ a ≤ stop := by
  have hcovers : Covers 128 start.toNat stop.toNat (ipv6Cidrs start stop) := cidrLoop_covers lastOk_ipv6 stop.isLt _
  have htext : ∀ c ∈ ipv6Cidrs start stop, (cidrHolds c.toTextV6 ip = true ↔ ∃ a, ip = .v6 a ∧ c.Holds a.toNat) :=
    fun c hc => cidrHolds_toTextV6 (hcovers.aligned c hc).le (hcovers.base_lt stop.isLt hc)
  simp only [ipv6RangeToCidrs, mem_map, exists_exists_and_eq_and, BitVec.le_def, ← hcovers.exact]
  grind

/-! ## The same hosts -/

section
variable {raw : RawBook} (h : Valid raw) {id : Nat} (hid : id < raw.categories.length)
include h hid

theorem lists_expansionOf_addr {host ip} (hip : parseIpAddr host = some ip) (checksum : Digest) :
    (expansionOf raw id).lists host = true ↔ (Book.fromRaw raw checksum).inCategory host id = true := by
  have hempty := length_replicate (n := raw.categories.length) (a := (.empty : BTreeSet Str))
  have hlookup : (Book.fromRaw raw checksum).inCategory host id = true ↔
      ∃ cs, (Book.fromRaw raw checksum).lookupIp ip = some cs ∧
      getBit ((Book.fromRaw raw checksum).catset cs) id = true := by
    simp [Book.inCategory, Book.setsOf, hip]
  have hlists : (expansionOf raw id).lists host = true ↔
      (∃ r ∈ raw.ip4, catsetHas raw r.2.2 id = true ∧ ∃ a, unmapIp ip = .v4 a ∧ r.Holds a) ∨
        ∃ r ∈ raw.ip6, catsetHas raw r.2.2 id = true ∧ ∃ a, unmapIp ip = .v6 a ∧ r.Holds a := by
    simp only [CategoryExpansion.lists, hip, any_eq_true, expansionOf,
      exists_taggedAt_tagEntries hid (length_tagEntries.trans hempty), exists_taggedAt_tagEntries hid hempty,
      taggedAt_empty, false_and, exists_false, false_or, Range.Holds, any_ipv4RangeToCidrs, any_ipv6RangeToCidrs]
  have hbit4 : ∀ r ∈ raw.ip4, catsetHas raw r.2.2 id = getBit ((Book.fromRaw raw checksum).catset r.2.2) id :=
    fun r hr => catsetHas_eq_getBit h checksum (h.ip4.sets r hr) hid
  have hbit6 : ∀ r ∈ raw.ip6, catsetHas raw r.2.2 id = getBit ((Book.fromRaw raw checksum).catset r.2.2) id :=
    fun r hr => catsetHas_eq_getBit h checksum (h.ip6.sets r hr) hid
  have h4 := fun a => exists_lookupRange_iff h.ip4 (k := a)
    (P := fun cs => getBit ((Book.fromRaw raw checksum).catset cs) id = true)
  have h6 := fun a => exists_lookupRange_iff h.ip6 (k := a)
    (P := fun cs => getBit ((Book.fromRaw raw checksum).catset cs) id = true)
  rw [hlists, hlookup]
  cases ip with
  | v4 a =>
    refine Iff.trans ?_ (h4 a).symm
    simp only [unmapIp, IpAddr.v4.injEq, reduceCtorEq]
    grind
  | v6 a =>
    simp only [Book.lookupIp, unmapIp]
    cases a.toIpv4Mapped with
    | some v4 =>
      refine Iff.trans ?_ (h4 v4).symm
      simp only [Option.map_some, Option.getD_some, IpAddr.v4.injEq, reduceCtorEq]
      grind
    | none =>
      refine Iff.trans ?_ (h6 a).symm
      simp only [Option.map_none, Option.getD_none, IpAddr.v6.injEq, reduceCtorEq]
      grind

theorem lists_expansionOf_name {host} (hip : parseIpAddr host = none) (checksum : Digest) :
    (expansionOf raw id).lists host = true ↔ (Book.fromRaw raw checksum).inCategory host id = true := by
  have hempty := length_replicate (n := raw.categories.length) (a := (.empty : BTreeSet Str))
  have hbit : ∀ {entries : List StrEntry}, TextsOk raw.nSets entries → ∀ e ∈ entries,
      (catsetHas raw e.catset id = true ↔ getBit ((Book.fromRaw raw checksum).catset e.catset) id = true) := by
    intro entries hok e he
    rw [catsetHas_eq_getBit h checksum (hok.sets e he) hid]
  have hlists : (expansionOf raw id).lists host = true ↔
      (∃ e ∈ raw.domainExact, catsetHas raw e.catset id = true ∧ e.text = normalizeDomain host) ∨
      (∃ e ∈ raw.domainSuffix, catsetHas raw e.catset id = true ∧
        IsLabelSuffix (reverseLabels e.text) (normalizeDomain host)) ∨
      ∃ e ∈ raw.keywords, catsetHas raw e.catset id = true ∧ Str.contains (normalizeDomain host) e.text = true := by
    simp only [CategoryExpansion.lists, hip, expansionOf, Bool.or_eq_true, any_eq_true,
      decide_eq_true_eq, exists_taggedAt_tagEntries hid hempty, taggedAt_empty,
      false_and, exists_false, false_or, mem_singleton, exists_eq_left, or_assoc]
  rw [hlists]
  by_cases hn : normalizeDomain host = []
  · -- no text of the book is empty, so none is in the empty name
    have hin : (Book.fromRaw raw checksum).inCategory host id = false := by simp [Book.inCategory, Book.setsOf, hip, hn]
    rw [hin, hn]
    refine iff_of_false ?_ (by simp)
    rintro (⟨e, he, -, ht⟩ | ⟨e, he, -, ht⟩ | ⟨e, he, -, ht⟩)
    · exact h.domainExact.nonempty e he ht
    · refine h.domainSuffix.nonempty e he ?_
      have hmem := reverseLabels_mem_labelPrefixes.2 ht
      rw [reverseLabels_reverseLabels] at hmem
      simpa [labelPrefixes, reverseLabels, Str.join] using hmem
    · exact h.keywords.nonempty e he (infix_nil.1 (by simpa [Str.contains] using ht))
  · simp only [Book.inCategory, any_eq_true, mem_setsOf_name hip hn]
    have hexact := exists_findText_iff h.domainExact.sorted (t := normalizeDomain host)
      (P := fun e => getBit ((Book.fromRaw raw checksum).catset e.catset) id = true)
    have hsuffix := fun p => exists_findText_iff h.domainSuffix.sorted (t := p)
      (P := fun e => getBit ((Book.fromRaw raw checksum).catset e.catset) id = true)
    have hlabel : ∀ text, IsLabelSuffix (reverseLabels text) (normalizeDomain host) ↔
        text ∈ labelPrefixes (reverseLabels (normalizeDomain host)) := by
      intro text
      rw [← reverseLabels_mem_labelPrefixes, reverseLabels_reverseLabels]
    have hb₁ := hbit h.domainExact
    have hb₂ := hbit h.domainSuffix
    have hb₃ := hbit h.keywords
    constructor
    · rintro (⟨e, he, hc, ht⟩ | ⟨e, he, hc, ht⟩ | ⟨e, he, hc, ht⟩)
      · obtain ⟨e', hf, hg⟩ := hexact.2 ⟨e, he, ht, (hb₁ e he).1 hc⟩
        exact ⟨_, .inl ⟨e', hf, rfl⟩, hg⟩
      · obtain ⟨e', hf, hg⟩ := (hsuffix e.text).2 ⟨e, he, rfl, (hb₂ e he).1 hc⟩
        exact ⟨_, .inr (.inl ⟨e.text, (hlabel _).1 ht, e', hf, rfl⟩), hg⟩
      · exact ⟨_, .inr (.inr ⟨e, he, ht, rfl⟩), (hb₃ e he).1 hc⟩
    · rintro ⟨cs, ⟨e, hf, rfl⟩ | ⟨p, hp, e, hf, rfl⟩ | ⟨e, he, ht, rfl⟩, hg⟩
      · obtain ⟨e', he', ht, hg⟩ := hexact.1 ⟨e, hf, hg⟩
        exact .inl ⟨e', he', (hb₁ e' he').2 hg, ht⟩
      · obtain ⟨e', he', rfl, hg⟩ := (hsuffix p).1 ⟨e, hf, hg⟩
        exact .inr (.inl ⟨e', he', (hb₂ e' he').2 hg, (hlabel _).2 hp⟩)
      · exact .inr (.inr ⟨e, he, (hb₃ e he).2 hg, ht⟩)

end

/-- A category of a valid book is written as patterns are. -/
theorem Valid.normalizeCategory_name {raw} (h : Valid raw) {c} (hc : c ∈ raw.categories) :
    normalizeCategory c.name = c.name := by
  have hok := h.category c hc
  have hsegs : ∀ seg ∈ c.name.splitOn '/', seg ≠ [] ∧ seg.all isSegmentChar = true := by
    simpa [isSegment] using hok.segments
  have hchars : ∀ x ∈ c.name, x = '/' ∨ isSegmentChar x = true := by
    intro x hx
    by_cases hs : x = '/'
    · exact .inl hs
    · obtain ⟨seg, hseg, hxs⟩ := Str.exists_mem_splitOn hs hx
      exact .inr (all_eq_true.1 (hsegs seg hseg).2 x hxs)
  -- a slash at an end would leave an empty segment
  have hslash : Str.trimMatches '/' c.name = c.name := by
    refine Str.trimBy_eq_self (fun x hx => ?_) fun x hx => ?_
    · by_contra hslash
      obtain rfl : x = '/' := by simpa using hslash
      obtain ⟨rest, hrest⟩ := head?_eq_some_iff.1 hx
      refine (hsegs [] ?_).1 rfl
      rw [hrest, show '/' :: rest = [] ++ '/' :: rest from rfl, splitOn_append_cons_self_of_not_mem not_mem_nil]
      exact mem_cons_self
    · by_contra hslash
      obtain rfl : x = '/' := by simpa using hslash
      obtain ⟨init, hinit⟩ := getLast?_eq_some_iff.1 hx
      refine (hsegs [] ?_).1 rfl
      rw [hinit, splitOn_append_cons_self]
      simp
  exact normalizeCategory_eq_self hchars hslash

/-- The exported expansions of a category and of those below it list the hosts
that a node matches against the category. -/
theorem catalog_selects_as_node (raw : RawBook) (hvalid : validate raw = .ok ()) (hne : raw.categories ≠ []) :
    ∃ catalog, controlPlaneCatalog raw = .ok catalog ∧
      ∀ (checksum : Digest) (cache : SelectorCache (Book.fromRaw raw checksum)), ∀ c ∈ raw.categories,
        ∃ sel cache', (Book.fromRaw raw checksum).resolve cache [c.name] = .ok (sel, cache') ∧
          ∀ host, catalog.Selects c.name host ↔ (Book.fromRaw raw checksum).matchesHost host sel = true := by
  have h := validate_eq_ok.1 hvalid
  refine ⟨_, Res.ensure_bind_eq_ok.2 ⟨hne, rfl⟩, fun checksum cache c hc => ?_⟩
  have hself : Under (normalizeCategory c.name) c.name := .inl (h.normalizeCategory_name hc).symm
  obtain ⟨⟨sel, cache'⟩, hres⟩ := resolve_of_under h cache hc hself
  refine ⟨sel, cache', hres, fun host => ?_⟩
  have hlists : ∀ {id}, id < raw.categories.length →
      ((expansionOf raw id).lists host = true ↔ (Book.fromRaw raw checksum).inCategory host id = true) := by
    intro id hid
    cases hip : parseIpAddr host with
    | some ip => exact lists_expansionOf_addr h hid hip checksum
    | none => exact lists_expansionOf_name h hid hip checksum
  have hget : ∀ {id d}, raw.categories[id]? = some d →
      (expansionsOf raw).get? d.name = some (expansionOf raw id) := by
    intro id d hd
    rw [expansionsOf, get?_expansions (h.sorted.imp ne_of_lt) hd, Nat.zero_add]
  rw [resolve_matchesHost hres]
  simp only [mem_singleton, exists_eq_left, selects_iff h, h.normalizeCategory_name hc]
  constructor
  · rintro ⟨_, hbelow, hunder, e, he, hlist⟩
    obtain ⟨d, hd, rfl⟩ := mem_map.1 hbelow
    obtain ⟨id, hid⟩ := mem_iff_getElem?.1 hd
    obtain rfl := Option.some.inj ((hget hid).symm.trans he)
    exact ⟨id, d, hid, hunder, (hlists (List.getElem?_eq_some_iff.1 hid).1).1 hlist⟩
  · rintro ⟨id, d, hid, hunder, hin⟩
    exact ⟨d.name, mem_map_of_mem (mem_of_getElem? hid), hunder, _, hget hid,
      (hlists (List.getElem?_eq_some_iff.1 hid).1).2 hin⟩

theorem catalog_selects_as_node_sampleBook : validate sampleBook = .ok () ∧ sampleBook.categories ≠ [] ∧
    ∃ catalog, controlPlaneCatalog sampleBook = .ok catalog ∧
      ∀ c ∈ sampleBook.categories, ∃ sel cache',
        (Book.fromRaw sampleBook (zeroDigest [])).resolve (.empty _) [c.name] = .ok (sel, cache') ∧
          ∀ host, catalog.Selects c.name host ↔
            (Book.fromRaw sampleBook (zeroDigest [])).matchesHost host sel = true := by
  have hne : sampleBook.categories ≠ [] := by decide
  obtain ⟨catalog, hcatalog, hall⟩ := catalog_selects_as_node sampleBook validate_sampleBook hne
  exact ⟨validate_sampleBook, hne, catalog, hcatalog, hall (zeroDigest []) (.empty _)⟩

end Rove.AddrBook
