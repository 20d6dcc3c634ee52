/-
The queries of a book with every index and slice of the source checked:
`none` is a panic. `lookup_categories` is here too, beside `matches`; the two
walk the same tables with different code.

On a valid book nothing panics, and both answer what a scan of the tables
gives (`matches?_eq_some`, `lookupCategories?_eq_some`). A label boundary is a
`.`, which is one byte, so offsets are counted in characters.
-/
import Rove.AddrBook.Scan

namespace Rove.AddrBook

/-- `&xs[a..b]`. -/
def slice? {α : Type} (xs : List α) (a b : Nat) : Option (List α) :=
  if a ≤ b ∧ b ≤ xs.length then some ((xs.drop a).take (b - a)) else none

/-! ## `matches` -/

/-- The words of a category set: `&catsets[base..base + w]`. -/
def Book.catset? (b : Book) (cs : BitVec 32) : Option (List (BitVec 64)) :=
  let w := b.raw.catsetWords.toNat
  slice? b.raw.catsets (cs.toNat * w) (cs.toNat * w + w)

/-- `catset_intersects`. -/
def Book.catsetIntersects? (b : Book) (cs : BitVec 32) (sel : Selector) : Option Bool :=
  if b.raw.catsetWords.toNat = 0 then some false
  else do
    let set ← b.catset? cs
    return (set.zip sel.mask).any fun (x, y) => x &&& y != 0

/-- `lookup_range4` and `lookup_range6`. -/
def lookupRange? {w : Nat} (ranges : List (Range w)) (key : BitVec w) : Option (Option (BitVec 32)) :=
  let idx := partitionPoint ranges fun r => decide (r.1 ≤ key)
  if idx = 0 then some none
  else do
    let (_, e, c) ← ranges[idx - 1]?
    return if key ≤ e then some c else none

def Book.lookupIp? (b : Book) : IpAddr → Option (Option (BitVec 32))
  | .v4 a => lookupRange? b.raw.ip4 a
  | .v6 a =>
    match a.toIpv4Mapped with
    | some v4 => lookupRange? b.raw.ip4 v4
    | none => lookupRange? b.raw.ip6 a

/-- `binary_search_by` and the entry at the index it found. -/
def findText? (entries : List StrEntry) (text : Str) : Option (Option StrEntry) :=
  match binarySearchBy entries fun e => compare e.text text with
  | .ok i => do
    let e ← entries[i]?
    return some e
  | .error _ => some none

/-- A set that may not have been found, tested. -/
def Book.setSelected? (b : Book) (cs : Option (BitVec 32)) (sel : Selector) : Option Bool :=
  match cs with
  | some cs => b.catsetIntersects? cs sel
  | none => some false

/-- `matches_ip`. -/
def Book.matchesIp? (b : Book) (ip : IpAddr) (sel : Selector) : Option Bool := do
  let cs ← b.lookupIp? ip
  b.setSelected? cs sel

/-- Is the text in the table, with a set that meets the selector? -/
def Book.textSelected? (b : Book) (entries : List StrEntry) (sel : Selector) (text : Str) : Option Bool := do
  let found ← findText? entries text
  b.setSelected? (found.map (·.catset)) sel

/-- The loop over the label-boundary prefixes of a reversed name. -/
def labelPrefixAny? (test : Str → Option Bool) (rev : Str) : (fuel boundary : Nat) → Option Bool
  | 0, _ => none
  | fuel + 1, boundary => do
    let rest ← slice? rev boundary rev.length
    let stop := boundary + (rest.takeWhile (· ≠ '.')).length
    let candidate ← slice? rev 0 stop
    if ← test candidate then return true
    else if stop = rev.length then return false
    else labelPrefixAny? test rev fuel (stop + 1)

/-- `matches_domain`. -/
def Book.matchesDomain? (b : Book) (host : Str) (sel : Selector) : Option Bool := do
  let name := normalizeDomain host
  if name = [] then return false
  if ← b.textSelected? b.raw.domainExact sel name then return true
  let rev := reverseLabels name
  if ← labelPrefixAny? (b.textSelected? b.raw.domainSuffix sel) rev (rev.length + 1) 0 then return true
  b.raw.keywords.anyM fun k => if Str.contains name k.text then b.catsetIntersects? k.catset sel else some false

/-- `AddrBook::matches`. -/
def Book.matches? (b : Book) (host : Str) (sel : Selector) : Option Bool :=
  match parseIpAddr host with
  | some ip => b.matchesIp? ip sel
  | none => b.matchesDomain? host sel

/-! ## `lookup_categories` -/

/-- The words of a set put into the accumulator, from its first word on. -/
def orWords? : (acc set : List (BitVec 64)) → Option (List (BitVec 64))
  | acc, [] => some acc
  | [], _ :: _ => none
  | a :: acc, x :: set => do
    let acc ← orWords? acc set
    return (a ||| x) :: acc

/-- `add_set`. -/
def Book.addSet? (b : Book) (acc : List (BitVec 64)) (cs : BitVec 32) : Option (List (BitVec 64)) := do
  let set ← b.catset? cs
  orWords? acc set

/-- `add_set` of a set that may not have been found. -/
def Book.addFound? (b : Book) (acc : List (BitVec 64)) : Option (BitVec 32) → Option (List (BitVec 64))
  | some cs => b.addSet? acc cs
  | none => some acc

/-- A text looked up in a table, and its set added. -/
def Book.addText? (b : Book) (entries : List StrEntry) (acc : List (BitVec 64)) (text : Str) :
    Option (List (BitVec 64)) := do
  let found ← findText? entries text
  b.addFound? acc (found.map (·.catset))

/-- The loop over the label-boundary prefixes: the sets of those in the table
are added. -/
def Book.addSuffixSets? (b : Book) (rev : Str) : (fuel boundary : Nat) → List (BitVec 64) → Option (List (BitVec 64))
  | 0, _, _ => none
  | fuel + 1, boundary, acc => do
    let rest ← slice? rev boundary rev.length
    let stop := boundary + (rest.takeWhile (· ≠ '.')).length
    let candidate ← slice? rev 0 stop
    let acc ← b.addText? b.raw.domainSuffix acc candidate
    if stop = rev.length then return acc
    else b.addSuffixSets? rev fuel (stop + 1) acc

/-- The names of the categories whose bit is set. -/
def Book.namesOf (b : Book) (acc : List (BitVec 64)) : List Str :=
  (b.raw.categories.zipIdx.filter fun (_, id) => getBit acc id).map fun (c, _) => c.name

/-- `AddrBook::lookup_categories`. -/
def Book.lookupCategories? (b : Book) (host : Str) : Option (List Str) := do
  let acc := List.replicate (max b.raw.catsetWords.toNat 1) 0
  match parseIpAddr host with
  | some ip =>
    let acc ← b.addFound? acc (← b.lookupIp? ip)
    return b.namesOf acc
  | none =>
    let name := normalizeDomain host
    if name = [] then return []
    let acc ← b.addText? b.raw.domainExact acc name
    let rev := reverseLabels name
    let acc ← b.addSuffixSets? rev (rev.length + 1) 0 acc
    let acc ← b.raw.keywords.foldlM
      (fun acc k => if Str.contains name k.text then b.addSet? acc k.catset else some acc) acc
    return b.namesOf acc

/-! ## Nothing panics -/

theorem slice?_eq_some {α : Type} {xs : List α} {a b : Nat} (hab : a ≤ b) (hb : b ≤ xs.length) :
    slice? xs a b = some ((xs.drop a).take (b - a)) := if_pos ⟨hab, hb⟩

theorem lookupRange?_eq_some {w nSets ranges} (h : RangesOk nSets ranges) (key : BitVec w) :
    lookupRange? ranges key = some (lookupRange ranges key) := by
  have hidx := (partitionPoint_spec (h.partitioned key)).1
  unfold lookupRange? lookupRange
  generalize partitionPoint ranges (fun r => decide (r.1 ≤ key)) = idx at hidx
  dsimp only
  split
  · rfl
  · next hne =>
    rw [List.getElem?_eq_getElem (by omega)]
    rfl

theorem findText?_eq_some {entries} (h : (entries.map (·.text)).Pairwise (· < ·)) (text : Str) :
    findText? entries text = some (findText entries text) := by
  have hs := binarySearchBy_spec (orderedFor_text h text)
  unfold findText? findText
  cases hr : binarySearchBy entries fun e => compare e.text text with
  | error i => rfl
  | ok i =>
    rw [hr] at hs
    obtain ⟨e, hi, -⟩ := hs
    simp only [hi]
    rfl

section
variable {b : Book} (h : Valid b.raw)
include h

theorem catset?_eq_some {cs : BitVec 32} (hcs : cs.toNat < b.raw.nSets) : b.catset? cs = some (b.catset cs) := by
  rw [Book.catset?, slice?_eq_some (Nat.le_add_right _ _) (h.slice_le hcs), Nat.add_sub_cancel_left]
  rfl

theorem catsetIntersects?_eq_some {cs} (hcs : cs.toNat < b.raw.nSets) (sel : Selector) :
    b.catsetIntersects? cs sel = some (b.catsetIntersects cs sel) := by
  rw [Book.catsetIntersects?, Book.catsetIntersects, catset?_eq_some h hcs]
  split <;> rfl

theorem lookupIp?_eq_some (ip : IpAddr) : b.lookupIp? ip = some (b.lookupIp ip) := by
  cases ip with
  | v4 a => exact lookupRange?_eq_some h.ip4 a
  | v6 a =>
    rw [Book.lookupIp?, Book.lookupIp]
    cases a.toIpv4Mapped with
    | some v4 => exact lookupRange?_eq_some h.ip4 v4
    | none => exact lookupRange?_eq_some h.ip6 a

theorem matchesIp?_eq_some (ip : IpAddr) (sel : Selector) : b.matchesIp? ip sel = some (b.matchesIp ip sel) := by
  rw [Book.matchesIp?, Book.matchesIp, lookupIp?_eq_some h, Option.bind_eq_bind, Option.bind_some]
  cases hcs : b.lookupIp ip with
  | none => rfl
  | some cs => exact catsetIntersects?_eq_some h (lt_nSets_of_lookupIp h hcs) sel

theorem textSelected?_eq_some {entries} (he : TextsOk b.raw.nSets entries) (sel : Selector) (text : Str) :
    b.textSelected? entries sel text = some (b.textSelected entries sel text) := by
  rw [Book.textSelected?, Book.textSelected, findText?_eq_some he.sorted, Option.bind_eq_bind, Option.bind_some]
  cases hf : findText entries text with
  | none => rfl
  | some e => exact catsetIntersects?_eq_some h (lt_nSets_of_findText he hf) sel

end

theorem label_slices {rev : Str} {boundary : Nat} (hb : boundary ≤ rev.length) :
    slice? rev boundary rev.length = some (rev.drop boundary) ∧
      boundary + ((rev.drop boundary).takeWhile (· ≠ '.')).length ≤ rev.length := by
  refine ⟨?_, ?_⟩
  · rw [slice?_eq_some hb (Nat.le_refl _), ← List.length_drop, List.take_length]
  · have := (List.takeWhile_prefix (· ≠ '.') (l := rev.drop boundary)).length_le
    rw [List.length_drop] at this
    omega

theorem labelPrefixAny?_eq_some {test? : Str → Option Bool} {test : Str → Bool} (ht : ∀ t, test? t = some (test t))
    (rev : Str) (fuel boundary : Nat) (hb : boundary ≤ rev.length) (hfuel : rev.length < fuel + boundary) :
    labelPrefixAny? test? rev fuel boundary = some (labelPrefixAny test rev fuel boundary) := by
  induction fuel generalizing boundary with
  | zero => omega
  | succ fuel ih =>
    obtain ⟨hrest, hstop⟩ := label_slices hb
    rw [labelPrefixAny?, labelPrefixAny, hrest, Option.bind_eq_bind, Option.bind_some]
    dsimp only
    have hge : boundary ≤ boundary + ((rev.drop boundary).takeWhile (· ≠ '.')).length := Nat.le_add_right _ _
    generalize boundary + ((rev.drop boundary).takeWhile (· ≠ '.')).length = stop at hstop hge
    rw [slice?_eq_some (Nat.zero_le _) hstop, Option.bind_eq_bind, Option.bind_some, List.drop_zero, Nat.sub_zero, ht,
      Option.bind_some]
    cases test (rev.take stop) with
    | true => rfl
    | false =>
      rw [if_neg Bool.false_ne_true, if_neg Bool.false_ne_true]
      split
      · rfl
      · exact ih (stop + 1) (by omega) (by omega)

theorem anyM_eq_some {α : Type} {f : α → Option Bool} {g : α → Bool} {l : List α} (hf : ∀ a ∈ l, f a = some (g a)) :
    l.anyM f = some (l.any g) := by
  induction l with
  | nil => rfl
  | cons a l ih =>
    obtain ⟨ha, hl⟩ := List.forall_mem_cons.1 hf
    rw [List.anyM, ha, Option.bind_eq_bind, Option.bind_some, List.any_cons]
    cases g a with
    | true => rfl
    | false => exact ih hl

theorem matches?_eq_some {b : Book} (h : Valid b.raw) (host : Str) (sel : Selector) :
    b.matches? host sel = some (b.matchesHost host sel) := by
  unfold Book.matches? Book.matchesHost
  cases parseIpAddr host with
  | some ip => exact matchesIp?_eq_some h ip sel
  | none =>
    have hlabels := labelPrefixAny?_eq_some (textSelected?_eq_some h h.domainSuffix sel)
      (reverseLabels (normalizeDomain host)) ((reverseLabels (normalizeDomain host)).length + 1) 0 (by omega) (by omega)
    have hkeyword : ∀ k ∈ b.raw.keywords,
        (if Str.contains (normalizeDomain host) k.text then b.catsetIntersects? k.catset sel else some false) =
          some (Str.contains (normalizeDomain host) k.text && b.catsetIntersects k.catset sel) := by
      intro k hk
      rw [catsetIntersects?_eq_some h (h.keywords.sets k hk)]
      cases Str.contains (normalizeDomain host) k.text <;> rfl
    simp only [Book.matchesDomain?, Book.matchesDomain, textSelected?_eq_some h h.domainExact, hlabels,
      anyM_eq_some hkeyword, Option.bind_eq_bind, Option.bind_some]
    split
    · rfl
    · split
      · rfl
      · split <;> rfl

theorem matchesHost_eq_scan {b : Book} (h : Valid b.raw) (host : Str) (sel : Selector) :
    b.matchesHost host sel = (b.scanSets host).any fun cs => b.catsetIntersects cs sel := by
  rw [Bool.eq_iff_iff, matchesHost_iff_setsOf, setsOf_eq_scanSets h, List.any_eq_true]

/-! ## What `lookup_categories` collects -/

theorem orWords?_spec {acc set} (hlen : set.length ≤ acc.length) :
    ∃ acc', orWords? acc set = some acc' ∧ acc'.length = acc.length ∧
      ∀ i : Nat, acc'[i]?.getD 0 = acc[i]?.getD 0 ||| set[i]?.getD 0 := by
  induction set generalizing acc with
  | nil => exact ⟨acc, by cases acc <;> rfl, rfl, by simp⟩
  | cons x set ih =>
    cases acc with
    | nil => simp at hlen
    | cons a acc =>
      obtain ⟨acc', hacc, hlen', hwords⟩ := ih (Nat.le_of_succ_le_succ hlen)
      refine ⟨(a ||| x) :: acc', by rw [orWords?, hacc]; rfl, by simp [hlen'], fun i => ?_⟩
      cases i with
      | zero => rfl
      | succ i => simpa using hwords i

/-- `acc'` is the accumulator after the sets that `P` holds of were added. -/
structure Collected (b : Book) (acc : List (BitVec 64)) (P : BitVec 32 → Prop) (acc' : List (BitVec 64)) : Prop where
  length : acc'.length = acc.length
  bits : ∀ id, getBit acc' id = true ↔ getBit acc id = true ∨ ∃ cs, P cs ∧ getBit (b.catset cs) id = true

theorem Collected.refl (b : Book) (acc : List (BitVec 64)) : Collected b acc (fun _ => False) acc := ⟨rfl, by simp⟩

theorem Collected.trans {b acc acc₁ acc₂ P Q R}
    (h₁ : Collected b acc P acc₁) (h₂ : Collected b acc₁ Q acc₂) (hR : ∀ cs, R cs ↔ P cs ∨ Q cs) :
    Collected b acc R acc₂ := by
  refine ⟨h₂.length.trans h₁.length, fun id => ?_⟩
  rw [h₂.bits, h₁.bits, or_assoc]
  simp only [hR, or_and_right, exists_or]

theorem Collected.congr {b acc acc' P Q} (h : Collected b acc P acc')
    (hQ : ∀ cs, Q cs ↔ P cs) : Collected b acc Q acc' := by
  rwa [show Q = P from funext fun cs => propext (hQ cs)]

section
variable {b : Book} (h : Valid b.raw)
include h

theorem addSet?_spec {acc cs} (hacc : b.raw.catsetWords.toNat ≤ acc.length)
    (hcs : cs.toNat < b.raw.nSets) : ∃ acc', b.addSet? acc cs = some acc' ∧ Collected b acc (· = cs) acc' := by
  have hset : (b.catset cs).length ≤ acc.length := (List.length_take_le _ _).trans hacc
  obtain ⟨acc', horw, hlen, hwords⟩ := orWords?_spec hset
  refine ⟨acc', by rw [Book.addSet?, catset?_eq_some h hcs]; exact horw, hlen, fun id => ?_⟩
  simp only [getBit, hwords, BitVec.getLsbD_or, Bool.or_eq_true, exists_eq_left]

theorem addFound?_spec {acc found} (hacc : b.raw.catsetWords.toNat ≤ acc.length)
    (hfound : ∀ cs, found = some cs → cs.toNat < b.raw.nSets) :
    ∃ acc', b.addFound? acc found = some acc' ∧ Collected b acc (fun cs => found = some cs) acc' := by
  cases found with
  | none => exact ⟨acc, rfl, (Collected.refl b acc).congr (by simp)⟩
  | some cs =>
    obtain ⟨acc', hadd, hc⟩ := addSet?_spec h hacc (hfound cs rfl)
    exact ⟨acc', hadd, hc.congr fun cs' => by rw [Option.some.injEq, eq_comm]⟩

theorem addText?_spec {acc entries} (he : TextsOk b.raw.nSets entries)
    (hacc : b.raw.catsetWords.toNat ≤ acc.length) (text : Str) :
    ∃ acc', b.addText? entries acc text = some acc' ∧
      Collected b acc (fun cs => (findText entries text).map (·.catset) = some cs) acc' := by
  rw [Book.addText?, findText?_eq_some he.sorted, Option.bind_eq_bind, Option.bind_some]
  refine addFound?_spec h hacc fun cs hcs => ?_
  obtain ⟨e, hf, rfl⟩ := Option.map_eq_some_iff.1 hcs
  exact lt_nSets_of_findText he hf

theorem addSuffixSets?_spec (rev : Str) (fuel boundary : Nat) (acc : List (BitVec 64))
    (hacc : b.raw.catsetWords.toNat ≤ acc.length) (hb : boundary ≤ rev.length) (hfuel : rev.length < fuel + boundary) :
    ∃ acc', b.addSuffixSets? rev fuel boundary acc = some acc' ∧ Collected b acc (fun cs =>
      labelPrefixAny (fun t => (findText b.raw.domainSuffix t).map (·.catset) = some cs)
        rev fuel boundary = true) acc' := by
  induction fuel generalizing boundary acc with
  | zero => omega
  | succ fuel ih =>
    obtain ⟨hrest, hstop⟩ := label_slices hb
    have hge : boundary ≤ boundary + ((rev.drop boundary).takeWhile (· ≠ '.')).length := Nat.le_add_right _ _
    simp only [Book.addSuffixSets?, labelPrefixAny, hrest, Option.bind_eq_bind, Option.bind_some]
    generalize boundary + ((rev.drop boundary).takeWhile (· ≠ '.')).length = stop at hstop hge
    obtain ⟨acc₁, hadd, hc⟩ := addText?_spec h h.domainSuffix hacc (rev.take stop)
    rw [slice?_eq_some (Nat.zero_le _) hstop, Option.bind_some, List.drop_zero, Nat.sub_zero, hadd, Option.bind_some]
    by_cases hend : stop = rev.length
    · refine ⟨acc₁, if_pos hend, hc.congr fun cs => ?_⟩
      simp [hend]
    · obtain ⟨acc₂, hrec, hc₂⟩ := ih (stop + 1) acc₁ (by rw [hc.length]; exact hacc) (by omega) (by omega)
      refine ⟨acc₂, by rw [if_neg hend]; exact hrec, hc.trans hc₂ fun cs => ?_⟩
      simp only [hend, if_false, Bool.if_true_left, Bool.or_eq_true, decide_eq_true_eq]

theorem addKeywords?_spec (name : Str) {ks : List StrEntry} (hks : ∀ k ∈ ks, k.catset.toNat < b.raw.nSets)
    (acc : List (BitVec 64)) (hacc : b.raw.catsetWords.toNat ≤ acc.length) :
    ∃ acc', ks.foldlM
      (fun acc k => if Str.contains name k.text then b.addSet? acc k.catset else some acc) acc = some acc' ∧
      Collected b acc (fun cs => ∃ k ∈ ks, Str.contains name k.text = true ∧ k.catset = cs) acc' := by
  induction ks generalizing acc with
  | nil => exact ⟨acc, rfl, (Collected.refl b acc).congr (by simp)⟩
  | cons k ks ih =>
    obtain ⟨hk, hks⟩ := List.forall_mem_cons.1 hks
    rw [List.foldlM_cons]
    cases hcon : Str.contains name k.text with
    | false =>
      obtain ⟨acc', hrec, hc⟩ := ih hks acc hacc
      exact ⟨acc', hrec, hc.congr fun cs => by simp [hcon]⟩
    | true =>
      obtain ⟨acc₁, hadd, hc⟩ := addSet?_spec h hacc hk
      obtain ⟨acc₂, hrec, hc₂⟩ := ih hks acc₁ (by rw [hc.length]; exact hacc)
      rw [if_pos rfl, hadd, Option.bind_eq_bind, Option.bind_some]
      refine ⟨acc₂, hrec, hc.trans hc₂ fun cs => ?_⟩
      simp only [List.mem_cons, exists_eq_or_imp, hcon, true_and, eq_comm (a := cs)]

/-- `lookup_categories` never panics on a valid book, and gives the names of
the categories that one of the host's sets holds. -/
theorem lookupCategories?_eq_some (host : Str) :
    b.lookupCategories? host =
      some ((b.raw.categories.zipIdx.filter fun (_, id) => b.inCategory host id).map fun (c, _) => c.name) := by
  -- every branch collects the sets of the host
  have hnames : ∀ {acc : List (BitVec 64)} {P : BitVec 32 → Prop},
      Collected b (List.replicate (max b.raw.catsetWords.toNat 1) 0) P acc → (∀ cs, P cs ↔ cs ∈ b.setsOf host) →
      b.namesOf acc = (b.raw.categories.zipIdx.filter fun (_, id) => b.inCategory host id).map
        fun (c, _) => c.name := by
    intro acc P hc hP
    have hbit : ∀ id, getBit acc id = b.inCategory host id := by
      intro id
      rw [Bool.eq_iff_iff, hc.bits, getBit_replicate_zero, Book.inCategory, List.any_eq_true]
      simp [hP]
    rw [Book.namesOf]
    simp only [hbit]
  have hzero : b.raw.catsetWords.toNat ≤ (List.replicate (max b.raw.catsetWords.toNat 1) (0 : BitVec 64)).length := by
    rw [List.length_replicate]
    exact le_max_left _ _
  unfold Book.lookupCategories?
  cases hip : parseIpAddr host with
  | some ip =>
    obtain ⟨acc, hadd, hc⟩ :=
      addFound?_spec h hzero fun cs (hcs : b.lookupIp ip = some cs) => lt_nSets_of_lookupIp h hcs
    simp only [lookupIp?_eq_some h, hadd, Option.bind_eq_bind, Option.bind_some]
    refine congrArg some (hnames hc fun cs => ?_)
    simp [Book.setsOf, hip, eq_comm]
  | none =>
    by_cases hn : normalizeDomain host = []
    · have hnone : b.setsOf host = [] := by simp [Book.setsOf, hip, hn]
      simp [hn, Book.inCategory, hnone]
    · obtain ⟨acc₁, hadd₁, hc₁⟩ := addText?_spec h h.domainExact hzero (normalizeDomain host)
      obtain ⟨acc₂, hadd₂, hc₂⟩ := addSuffixSets?_spec h (reverseLabels (normalizeDomain host))
        ((reverseLabels (normalizeDomain host)).length + 1) 0 acc₁
        (by rw [hc₁.length]; exact hzero) (by omega) (by omega)
      obtain ⟨acc₃, hadd₃, hc₃⟩ := addKeywords?_spec h (normalizeDomain host) h.keywords.sets acc₂
        (by rw [hc₂.length, hc₁.length]; exact hzero)
      simp only [hn, if_false, hadd₁, hadd₂, hadd₃, Option.bind_eq_bind, Option.bind_some]
      refine congrArg some (hnames ((hc₁.trans hc₂ fun _ => Iff.rfl).trans hc₃ fun _ => Iff.rfl) fun cs => ?_)
      rw [mem_setsOf_name hip hn, labelPrefixAny_eq_true, or_assoc]
      simp only [decide_eq_true_eq, Option.map_eq_some_iff]

end

end Rove.AddrBook
