/-
What a builder holds after a sequence of `add_rule` calls. A line, that is a
category and a rule, stands for some items (`lineItems`); whatever the order
of the calls, the builder has exactly the items of its lines (`has_addRules`).
-/
import Rove.AddrBook.Builder
import Rove.Policy.Rule

namespace Rove.AddrBook

open List Res
open Policy (Rule suffixOf)

/-! ## Category paths -/

/-- A path `add_category` accepts. -/
def IsCategoryPath (path : Str) : Prop :=
  normalizeCategory path ≠ [] ∧ ∀ seg ∈ (normalizeCategory path).splitOn '/', seg ≠ [] ∧ seg.all isSegmentChar = true

/-- The builder with a category and its ancestors registered. -/
def BookBuilder.register (b : BookBuilder) (cat : Str) : BookBuilder :=
  { b with categories := (pathsOf [] (cat.splitOn '/')).foldl BTreeSet.insert b.categories }

variable {cat : Str} {parseIpNet : Str → Option IpNet} {lines : List (Str × Str)}

theorem addCategory_eq_ok {b b' : BookBuilder} {path : Str} :
    b.addCategory path = .ok (cat, b') ↔ IsCategoryPath path ∧ cat = normalizeCategory path ∧ b' = b.register cat := by
  unfold BookBuilder.addCategory
  rw [ensure_bind_eq_ok, unit_bind_eq_ok, forM_eq_ok, pure_eq_ok]
  simp only [checkSegment, ensure_bind_eq_ok, ensure_eq_ok, Prod.mk.injEq, IsCategoryPath, and_assoc]
  refine and_congr_right fun _ => and_congr_right fun _ => ⟨fun h => ?_, fun h => ?_⟩
  · obtain ⟨rfl, rfl⟩ := h
    exact ⟨rfl, rfl⟩
  · obtain ⟨rfl, rfl⟩ := h
    exact ⟨rfl, rfl⟩

theorem isSegmentChar_iff (c : Char) : isSegmentChar c = true ↔
    (97 ≤ c.toNat ∧ c.toNat ≤ 122) ∨ (48 ≤ c.toNat ∧ c.toNat ≤ 57) ∨ c = '-' ∨ c = '_' ∨
    c = '.' ∨ c = '@' ∨ c = '!' := by
  simp [isSegmentChar, or_assoc]

theorem IsCategoryPath.mem {path} (h : IsCategoryPath path) {c} (hc : c ∈ normalizeCategory path) :
    c = '/' ∨ isSegmentChar c = true := by
  by_cases hs : c = '/'
  · exact .inl hs
  · obtain ⟨seg, hseg, hcs⟩ := Str.exists_mem_splitOn hs hc
    exact .inr (all_eq_true.1 (h.2 seg hseg).2 c hcs)

theorem toNat_of_segmentChar {c} (h : c = '/' ∨ isSegmentChar c = true) :
    (33 ≤ c.toNat ∧ c.toNat ≤ 64) ∨ (95 ≤ c.toNat ∧ c.toNat ≤ 122) := by
  rw [isSegmentChar_iff] at h
  rcases h with rfl | h | h | rfl | rfl | rfl | rfl | rfl
  · decide
  · omega
  · omega
  all_goals decide

theorem normalizeCategory_eq_self {path} (h : ∀ c ∈ path, c = '/' ∨ isSegmentChar c = true)
    (hslash : Str.trimMatches '/' path = path) : normalizeCategory path = path := by
  have hspace : ∀ c ∈ path, Str.isWhitespace c = false := by
    intro c hc
    have := toNat_of_segmentChar (h c hc)
    simp [Str.isWhitespace]
    omega
  have htrim : Str.trim path = path :=
    Str.trimBy_eq_self (fun c hc => hspace c (mem_of_head? hc)) fun c hc => hspace c (mem_of_getLast? hc)
  have hlower : Str.toAsciiLowercase path = path := by
    refine (map_congr_left fun c hc => ?_).trans (map_id _)
    have := toNat_of_segmentChar (h c hc)
    exact Str.toLower_eq_self (by omega)
  rw [normalizeCategory, htrim, hslash, hlower]

theorem IsCategoryPath.normalize_normalize {path} (h : IsCategoryPath path) :
    normalizeCategory (normalizeCategory path) = normalizeCategory path :=
  normalizeCategory_eq_self (fun _ => h.mem) (Str.trimMatches_toAsciiLowercase (by decide) _)

theorem IsCategoryPath.normalized {path} (h : IsCategoryPath path) : IsCategoryPath (normalizeCategory path) := by
  rw [IsCategoryPath, h.normalize_normalize]
  exact h

theorem mem_categories_register {b : BookBuilder} {c : Str} :
    c ∈ (b.register cat).categories.elems ↔ c ∈ pathsOf [] (cat.splitOn '/') ∨ c ∈ b.categories.elems :=
  BTreeSet.mem_foldl_insert

theorem register_register (b : BookBuilder) (cat : Str) : (b.register cat).register cat = b.register cat := by
  have hcats : ((b.register cat).register cat).categories = (b.register cat).categories :=
    BTreeSet.ext_elems fun c => by
      rw [mem_categories_register, mem_categories_register]
      tauto
  exact congrArg (fun cats => ({ b with categories := cats } : BookBuilder)) hcats

/-- The paths registered for some segments are the beginnings of the path they make. -/
theorem mem_pathsOf {acc p segs} (hsegs : ∀ seg ∈ segs, seg ≠ []) :
    p ∈ pathsOf acc segs ↔
      ∃ pre, pre ≠ [] ∧ pre <+: segs ∧ p = (if acc = [] then acc else acc ++ ['/']) ++ Str.join ['/'] pre := by
  induction segs generalizing acc with
  | nil => simp [pathsOf]
  | cons seg segs ih =>
    obtain ⟨hseg, hsegs⟩ := forall_mem_cons.1 hsegs
    have hacc : (if acc = [] then acc else acc ++ ['/']) ++ seg ≠ [] := by simp [hseg]
    have hjoin : ∀ rest : List Str, rest ≠ [] →
        (if acc = [] then acc else acc ++ ['/']) ++ seg ++ ['/'] ++ Str.join ['/'] rest =
          (if acc = [] then acc else acc ++ ['/']) ++ Str.join ['/'] (seg :: rest) := by
      intro rest hrest
      obtain ⟨r, rest, rfl⟩ := exists_cons_of_ne_nil hrest
      simp [Str.join, List.intercalate]
    rw [pathsOf, mem_cons, ih hsegs, if_neg hacc]
    constructor
    · rintro (rfl | ⟨pre, hne, hpre, rfl⟩)
      · exact ⟨[seg], by simp, by simp, by simp [Str.join, List.intercalate]⟩
      · exact ⟨seg :: pre, by simp, cons_prefix_cons.2 ⟨rfl, hpre⟩, hjoin pre hne⟩
    · rintro ⟨pre, hne, hpre, rfl⟩
      obtain ⟨s, pre, rfl⟩ := exists_cons_of_ne_nil hne
      obtain ⟨rfl, hrest⟩ := cons_prefix_cons.1 hpre
      by_cases hnil : pre = []
      · left
        simp [hnil, Str.join, List.intercalate]
      · exact .inr ⟨pre, hnil, hrest, (hjoin pre hnil).symm⟩

theorem IsCategoryPath.mem_pathsOf {path} (h : IsCategoryPath path) :
    normalizeCategory path ∈ pathsOf [] ((normalizeCategory path).splitOn '/') := by
  have hjoin : Str.join ['/'] ((normalizeCategory path).splitOn '/') = normalizeCategory path :=
    intercalate_splitOn '/'
  exact (AddrBook.mem_pathsOf fun seg hseg => (h.2 seg hseg).1).2
    ⟨_, splitOn_ne_nil '/' _, prefix_rfl, hjoin.symm⟩

/-! ## Reading a line -/

/-- The rule a line stands for, in the order in which `add_rule` tries. -/
def ruleOf (parseIpNet : Str → Option IpNet) (rule : Str) : Rule :=
  let r := Str.trim rule
  if r = [] then .blank
  else
    match Str.stripPrefix fullTag r with
    | some host => .full (normalizeDomain host)
    | none =>
      match Str.stripPrefix keywordTag r with
      | some frag => .keyword (normalizeDomain frag)
      | none =>
        match Str.stripPrefix domainTag r with
        | some host => .suffix (suffixOf host)
        | none =>
          match parseIpNet r with
          | some net => .net net
          | none =>
            match parseIpAddr r with
            | some addr => .addr addr
            | none => .suffix (suffixOf (((Str.splitOnce ':' r).map (·.2)).getD r))

def Storable : Rule → Prop
  | .full name => name ≠ []
  | .keyword word => word ≠ []
  | .suffix name => name ≠ []
  | .net _ => True
  | .addr _ => True
  | .book _ => False
  | .blank => False

def BookBuilder.put (b : BookBuilder) (cat : Str) : Rule → BookBuilder
  | .full name => { b with exact := b.exact.insert name cat }
  | .keyword word => { b with keywords := b.keywords.insert word cat }
  | .suffix name => { b with suffix := b.suffix.insert (reverseLabels name) cat }
  | .net net => (canonicalizeIpRange (netRange net)).foldl (BookBuilder.pushRange cat) b
  | .addr addr => (canonicalizeIpRange (addrRange addr)).foldl (BookBuilder.pushRange cat) b
  | .book _ => b
  | .blank => b

theorem addText_eq_ok {b b' : BookBuilder} {category : Str} {what : String} {text : Str}
    {put : BookBuilder → Str → BookBuilder} :
    b.addText category what text put = (b', .ok ()) ↔
      ∃ cat b₁, b.addCategory category = .ok (cat, b₁) ∧ text ≠ [] ∧ b' = put b₁ cat := by
  unfold BookBuilder.addText
  cases b.addCategory category with
  | error e => simp
  | ok r =>
    obtain ⟨cat, b₁⟩ := r
    by_cases ht : text = []
    · simp [ht]
    · simp [ht, eq_comm]

section
variable {b b' : BookBuilder} {path : Str} (hpath : IsCategoryPath path)
include hpath

/-- A category that was just registered is found registered by the next call. -/
theorem addText_register {what : String} {text : Str} {put : BookBuilder → Str → BookBuilder} :
    (b.register (normalizeCategory path)).addText (normalizeCategory path) what text put = (b', .ok ()) ↔
      text ≠ [] ∧ b' = put (b.register (normalizeCategory path)) (normalizeCategory path) := by
  rw [addText_eq_ok]
  simp only [addCategory_eq_ok, hpath.normalize_normalize, hpath.normalized, true_and]
  refine ⟨fun h => ?_, fun h => ⟨_, _, ⟨rfl, rfl⟩, h.1, ?_⟩⟩
  · obtain ⟨cat, b₁, ⟨rfl, rfl⟩, ht, hb'⟩ := h
    rw [register_register] at hb'
    exact ⟨ht, hb'⟩
  · rw [register_register]
    exact h.2

theorem addDomainExact_register {host} :
    (b.register (normalizeCategory path)).addDomainExact (normalizeCategory path) host = (b', .ok ()) ↔
      Storable (.full (normalizeDomain host)) ∧
        b' = (b.register (normalizeCategory path)).put (normalizeCategory path) (.full (normalizeDomain host)) := by
  rw [BookBuilder.addDomainExact, addText_register hpath]
  exact Iff.rfl

theorem addKeyword_register {frag} :
    (b.register (normalizeCategory path)).addKeyword (normalizeCategory path) frag = (b', .ok ()) ↔
      Storable (.keyword (normalizeDomain frag)) ∧
        b' = (b.register (normalizeCategory path)).put (normalizeCategory path) (.keyword (normalizeDomain frag)) := by
  rw [BookBuilder.addKeyword, addText_register hpath]
  exact Iff.rfl

theorem addDomainSuffix_register {host} :
    (b.register (normalizeCategory path)).addDomainSuffix (normalizeCategory path) host = (b', .ok ()) ↔
      Storable (.suffix (suffixOf host)) ∧
        b' = (b.register (normalizeCategory path)).put (normalizeCategory path) (.suffix (suffixOf host)) := by
  rw [BookBuilder.addDomainSuffix, addText_register hpath]
  exact Iff.rfl

end

/-- A line is accepted for its category and its rule alone, and then the rule
is put under the category. -/
theorem addRule_eq_ok {b b' : BookBuilder} {category rule : Str} :
    b.addRule parseIpNet category rule = (b', .ok ()) ↔
      (IsCategoryPath category ∧ Storable (ruleOf parseIpNet rule)) ∧
        b' = (b.register (normalizeCategory category)).put (normalizeCategory category) (ruleOf parseIpNet rule) := by
  unfold BookBuilder.addRule
  by_cases hpath : IsCategoryPath category
  · have hcat : b.addCategory category = .ok (normalizeCategory category, b.register (normalizeCategory category)) :=
      addCategory_eq_ok.2 ⟨hpath, rfl, rfl⟩
    simp only [hcat, hpath, true_and]
    unfold ruleOf
    by_cases hr : Str.trim rule = []
    · simp [hr, Storable]
    · rw [if_neg hr, if_neg hr]
      cases Str.stripPrefix fullTag (Str.trim rule) with
      | some host => exact addDomainExact_register hpath
      | none =>
        cases Str.stripPrefix keywordTag (Str.trim rule) with
        | some frag => exact addKeyword_register hpath
        | none =>
          cases Str.stripPrefix domainTag (Str.trim rule) with
          | some host => exact addDomainSuffix_register hpath
          | none =>
            dsimp only [parseIpEntries]
            rw [Str.trim_trim]
            cases parseIpNet (Str.trim rule) with
            | some net => simp [Storable, BookBuilder.put, eq_comm]
            | none =>
              cases parseIpAddr (Str.trim rule) with
              | some addr => simp [Storable, BookBuilder.put, eq_comm]
              | none => exact addDomainSuffix_register hpath
  · cases hcat : b.addCategory category with
    | error e => simp [hpath]
    | ok r => exact absurd (addCategory_eq_ok.1 hcat).1 hpath

/-! ## What a builder holds -/

/-- The collected ranges of a family. -/
def BookBuilder.ranges (b : BookBuilder) (v4 : Bool) : List (Nat × Nat × Str) := if v4 then b.ip4 else b.ip6

/-- One thing a builder holds: a category, or an address range or text under one. -/
inductive Item where
  | category (cat : Str)
  | range (r : IpRange) (cat : Str)
  | exact (name cat : Str)
  | suffix (rev cat : Str)
  | keyword (word cat : Str)

def BookBuilder.Has (b : BookBuilder) : Item → Prop
  | .category cat => cat ∈ b.categories.elems
  | .range r cat => (r.1, r.2.1, cat) ∈ b.ranges r.2.2
  | .exact name cat => b.exact.Holds name cat
  | .suffix rev cat => b.suffix.Holds rev cat
  | .keyword word cat => b.keywords.Holds word cat

/-- The canonical ranges of a rule about addresses. -/
def ruleRanges : Rule → List IpRange
  | .net net => canonicalizeIpRange (netRange net)
  | .addr addr => canonicalizeIpRange (addrRange addr)
  | _ => []

def ruleItems (cat : Str) : Rule → List Item
  | .full name => [.exact name cat]
  | .keyword word => [.keyword word cat]
  | .suffix name => [.suffix (reverseLabels name) cat]
  | rule => (ruleRanges rule).map (.range · cat)

def lineItems (parseIpNet : Str → Option IpNet) (line : Str × Str) : List Item :=
  let cat := normalizeCategory line.1
  (pathsOf [] (cat.splitOn '/')).map .category ++ ruleItems cat (ruleOf parseIpNet line.2)

/-- A line `add_rule` accepts. -/
def Accepted (parseIpNet : Str → Option IpNet) (line : Str × Str) : Prop :=
  IsCategoryPath line.1 ∧ Storable (ruleOf parseIpNet line.2)

variable {i : Item}

theorem not_has_new (epoch : BitVec 64) (i : Item) : ¬ (BookBuilder.new epoch).Has i := by
  cases i with
  | category cat => exact not_mem_nil
  | range r cat =>
    obtain ⟨start, stop, v4⟩ := r
    cases v4 <;> exact not_mem_nil
  | exact name cat => exact BTreeMultimap.not_holds_empty name cat
  | suffix rev cat => exact BTreeMultimap.not_holds_empty rev cat
  | keyword word cat => exact BTreeMultimap.not_holds_empty word cat

theorem has_register {b : BookBuilder} :
    (b.register cat).Has i ↔ i ∈ (pathsOf [] (cat.splitOn '/')).map Item.category ∨ b.Has i := by
  cases i with
  | category c => simpa [BookBuilder.Has] using mem_categories_register
  | _ => simp [BookBuilder.Has, BookBuilder.ranges, BookBuilder.register]

theorem has_pushRange {b : BookBuilder} {r : IpRange} :
    (b.pushRange cat r).Has i ↔ i = .range r cat ∨ b.Has i := by
  obtain ⟨start, stop, v4⟩ := r
  cases i with
  | range r' c =>
    obtain ⟨start', stop', v4'⟩ := r'
    cases v4 <;> cases v4' <;> simp [BookBuilder.pushRange, BookBuilder.Has, BookBuilder.ranges, or_comm, and_assoc]
  | _ => cases v4 <;> simp [BookBuilder.pushRange, BookBuilder.Has]

theorem has_foldl_pushRange {ranges : List IpRange} {b : BookBuilder} :
    (ranges.foldl (BookBuilder.pushRange cat) b).Has i ↔ i ∈ ranges.map (.range · cat) ∨ b.Has i := by
  induction ranges generalizing b with
  | nil => simp
  | cons r ranges ih =>
    rw [foldl_cons, ih, has_pushRange, map_cons, mem_cons]
    tauto

theorem has_put {b : BookBuilder} {rule : Rule} :
    (b.put cat rule).Has i ↔ i ∈ ruleItems cat rule ∨ b.Has i := by
  cases rule with
  | net net => exact has_foldl_pushRange
  | addr addr => exact has_foldl_pushRange
  | blank => simp [BookBuilder.put, ruleItems, ruleRanges]
  | book pattern => simp [BookBuilder.put, ruleItems, ruleRanges]
  | full name => cases i <;> simp [BookBuilder.put, ruleItems, BookBuilder.Has, BookBuilder.ranges,
      BTreeMultimap.holds_insert]
  | keyword word => cases i <;> simp [BookBuilder.put, ruleItems, BookBuilder.Has, BookBuilder.ranges,
      BTreeMultimap.holds_insert]
  | suffix name => cases i <;> simp [BookBuilder.put, ruleItems, BookBuilder.Has, BookBuilder.ranges,
      BTreeMultimap.holds_insert]

theorem epoch_foldl_pushRange (cat : Str) (ranges : List IpRange) (b : BookBuilder) :
    (ranges.foldl (BookBuilder.pushRange cat) b).epoch = b.epoch := by
  induction ranges generalizing b with
  | nil => rfl
  | cons r ranges ih =>
    rw [foldl_cons, ih]
    obtain ⟨start, stop, v4⟩ := r
    cases v4 <;> rfl

theorem epoch_put (b : BookBuilder) (cat : Str) (rule : Rule) : (b.put cat rule).epoch = b.epoch := by
  cases rule with
  | net net => exact epoch_foldl_pushRange cat _ b
  | addr addr => exact epoch_foldl_pushRange cat _ b
  | _ => rfl

theorem addRule_spec {parseIpNet : Str → Option IpNet} {b b' : BookBuilder} {line : Str × Str}
    (h : b.addRule parseIpNet line.1 line.2 = (b', .ok ())) :
    Accepted parseIpNet line ∧ b'.epoch = b.epoch ∧ ∀ i, b'.Has i ↔ i ∈ lineItems parseIpNet line ∨ b.Has i := by
  obtain ⟨hacc, rfl⟩ := addRule_eq_ok.1 h
  refine ⟨hacc, epoch_put _ _ _, fun i => ?_⟩
  rw [has_put, has_register, lineItems, mem_append, or_assoc]
  exact or_left_comm

theorem addRules_spec {b b' : BookBuilder}
    (h : b.addRules parseIpNet lines = .ok b') :
    (∀ line ∈ lines, Accepted parseIpNet line) ∧ b'.epoch = b.epoch ∧
      ∀ i, b'.Has i ↔ (∃ line ∈ lines, i ∈ lineItems parseIpNet line) ∨ b.Has i := by
  induction lines generalizing b with
  | nil =>
    cases h
    simp
  | cons line lines ih =>
    rw [BookBuilder.addRules] at h
    cases hadd : b.addRule parseIpNet line.1 line.2 with
    | mk b₁ res =>
      cases res with
      | error e => rw [hadd] at h; cases h
      | ok u =>
        rw [hadd] at h
        obtain ⟨hacc, hepoch, hhas⟩ := addRule_spec hadd
        obtain ⟨haccs, hepochs, hhases⟩ := ih h
        refine ⟨forall_mem_cons.2 ⟨hacc, haccs⟩, hepochs.trans hepoch, fun i => ?_⟩
        rw [hhases, hhas, exists_mem_cons_iff, or_assoc]
        exact or_left_comm

theorem addRules_isOk {b : BookBuilder}
    (h : ∀ line ∈ lines, Accepted parseIpNet line) : ∃ b', b.addRules parseIpNet lines = .ok b' := by
  induction lines generalizing b with
  | nil => exact ⟨b, rfl⟩
  | cons line lines ih =>
    obtain ⟨hline, hlines⟩ := forall_mem_cons.1 h
    have hadd : b.addRule parseIpNet line.1 line.2 = (_, .ok ()) := addRule_eq_ok.2 ⟨hline, rfl⟩
    rw [BookBuilder.addRules, hadd]
    exact ih hlines

theorem has_addRules {epoch : BitVec 64} {b : BookBuilder}
    (h : (BookBuilder.new epoch).addRules parseIpNet lines = .ok b) (i : Item) :
    b.Has i ↔ ∃ line ∈ lines, i ∈ lineItems parseIpNet line := by
  rw [(addRules_spec h).2.2, or_iff_left (not_has_new epoch i)]

end Rove.AddrBook
