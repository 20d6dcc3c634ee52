/-
The two matchers a rule set is made of (`policy/domain.rs`, `policy/ip.rs`).

The suffix matcher is a trie over the labels of a name, last label first.
Every path in it is the labels of some nonempty name, which the structure
carries: taking the trie apart into names and building it again from them
loses nothing.
-/
import Rove.Base.HashMap
import Rove.Base.Trie
import Rove.Base.IpNet

namespace Rove.Policy

open List

def normalize (s : Str) : Str := Str.toAsciiLowercase (Str.trimMatches '.' (Str.trim s))

/-- The labels of a name from the last to the first: `s.split('.').rev()`. -/
def revLabels (s : Str) : List Str := (s.splitOn '.').reverse

theorem revLabels_ne_nil (s : Str) : revLabels s ≠ [] := by
  simp [revLabels, splitOn_ne_nil]

theorem revLabels_join (s : Str) : Str.join ['.'] (revLabels s).reverse = s := by
  rw [revLabels, reverse_reverse]
  exact intercalate_splitOn '.'

/-! ## `SubDomainMatcher` -/

/-- `SubDomainMatcher`. A node is terminal when the trie stores a value there. -/
structure SubDomainMatcher where
  root : Trie Str Unit
  wf : root.WF
  named : ∀ p, root.lookup p = some () → ∃ s : Str, s ≠ [] ∧ p = revLabels s

/-- The matcher nothing was added to. -/
def SubDomainMatcher.empty : SubDomainMatcher where
  root := Trie.empty
  wf := trivial
  named p h := by rw [Trie.lookup_empty] at h; cases h

/-- What a suffix rule stands for: the name normalised, without a leading `*.`. -/
def suffixOf (s : Str) : Str := (Str.stripPrefix "*." (normalize s)).getD (normalize s)

def SubDomainMatcher.add (m : SubDomainMatcher) (s : Str) : SubDomainMatcher :=
  if hs : suffixOf s = [] then m
  else
    { root := m.root.update (fun _ => ()) (revLabels (suffixOf s))
      wf := m.wf.update
      named := by
        intro p hp
        rw [Trie.lookup_update] at hp
        split at hp
        · next h => exact ⟨suffixOf s, hs, h⟩
        · exact m.named p hp }

def SubDomainMatcher.matchesNormalized (m : SubDomainMatcher) (s : Str) : Bool :=
  if s = [] then false else m.root.foldAlong (fun _ _ => true) (revLabels s) false

/-- `SubDomainMatcher::contribute_suffixes`: every stored name, children in any order. -/
def SubDomainMatcher.contributeSuffixes (o : IterOrder) (m : SubDomainMatcher) : List Str :=
  o.run ((m.root.children.walk []).map fun (labels, _) => Str.join ['.'] labels)

def SubDomainMatcher.Holds (m : SubDomainMatcher) (s : Str) : Prop :=
  s ≠ [] ∧ m.root.lookup (revLabels s) = some ()

theorem SubDomainMatcher.holds_empty (s : Str) : ¬ SubDomainMatcher.empty.Holds s := by
  rintro ⟨-, h⟩
  rw [SubDomainMatcher.empty, Trie.lookup_empty] at h
  cases h

theorem revLabels_inj {s t} (h : revLabels s = revLabels t) : s = t := by
  rw [← revLabels_join s, ← revLabels_join t, h]

theorem SubDomainMatcher.holds_add (m : SubDomainMatcher) (r s : Str) :
    (m.add r).Holds s ↔ (s ≠ [] ∧ s = suffixOf r) ∨ m.Holds s := by
  unfold SubDomainMatcher.add
  split
  · next hr =>
    constructor
    · exact .inr
    · rintro (⟨hs, rfl⟩ | h)
      · exact absurd hr hs
      · exact h
  · next hr =>
    simp only [SubDomainMatcher.Holds, Trie.lookup_update]
    by_cases hs : revLabels s = revLabels (suffixOf r)
    · simp [revLabels_inj hs, hr]
    · have hne : s ≠ suffixOf r := fun h => hs (by rw [h])
      simp [hs, hne]

/-- Two names in label-suffix relation: `s` is `host` or a parent domain of it. -/
def IsLabelSuffix (s host : Str) : Prop := s.splitOn '.' <:+ host.splitOn '.'

instance (s host : Str) : Decidable (IsLabelSuffix s host) :=
  inferInstanceAs (Decidable (_ <:+ _))

theorem isLabelSuffix_iff (s host : Str) : IsLabelSuffix s host ↔ revLabels s <+: revLabels host := by
  rw [IsLabelSuffix, revLabels, revLabels, reverse_prefix]

/-- The stored names along the labels of a host are its parent domains and itself. -/
theorem SubDomainMatcher.mem_along (m : SubDomainMatcher) (host : Str) :
    () ∈ m.root.along (revLabels host) ↔ ∃ s, m.Holds s ∧ IsLabelSuffix s host := by
  rw [Trie.mem_along]
  constructor
  · rintro ⟨q, -, hq, hl⟩
    obtain ⟨s, hs, rfl⟩ := m.named q hl
    exact ⟨s, ⟨hs, hl⟩, (isLabelSuffix_iff s host).2 hq⟩
  · rintro ⟨s, ⟨-, hl⟩, hq⟩
    exact ⟨revLabels s, revLabels_ne_nil s, (isLabelSuffix_iff s host).1 hq, hl⟩

theorem SubDomainMatcher.matchesNormalized_iff (m : SubDomainMatcher) (host : Str) :
    m.matchesNormalized host = true ↔ host ≠ [] ∧ ∃ s, m.Holds s ∧ IsLabelSuffix s host := by
  rw [← m.mem_along, matchesNormalized, Trie.foldAlong_eq]
  have hfold : ∀ (xs : List Unit) (b : Bool),
      xs.foldl (fun _ _ => true) b = true ↔ () ∈ xs ∨ b = true := by
    intro xs
    induction xs with
    | nil => simp
    | cons x xs ih => intro b; simp [ih]
  split
  · next h => simp [h]
  · next h => simp [h, hfold]

theorem SubDomainMatcher.mem_contributeSuffixes (o : IterOrder) (m : SubDomainMatcher) (s : Str) :
    s ∈ m.contributeSuffixes o ↔ m.Holds s := by
  simp only [contributeSuffixes, IterOrder.mem_run, mem_map, Prod.exists, Trie.mem_walk m.wf,
    append_nil]
  have hroot : ∀ q, q ≠ [] → Trie.lookup q ⟨none, m.root.children⟩ = m.root.lookup q := by
    intro q hq
    cases q with
    | nil => exact absurd rfl hq
    | cons l q => rfl
  constructor
  · rintro ⟨_, u, ⟨q, hq, rfl, hl⟩, rfl⟩
    rw [hroot q hq] at hl
    obtain ⟨s, hs, rfl⟩ := m.named q hl
    rw [revLabels_join]
    exact ⟨hs, hl⟩
  · rintro ⟨-, hl⟩
    have hq := revLabels_ne_nil s
    exact ⟨_, (), ⟨revLabels s, hq, rfl, (hroot _ hq).trans hl⟩, revLabels_join s⟩

/-! ## `DomainMatcher` -/

structure DomainMatcher where
  full : HashMap Str Unit
  domain : SubDomainMatcher
  keyword : List Str

/-- `DomainMatcher::default`. -/
def DomainMatcher.empty : DomainMatcher := ⟨∅, .empty, []⟩

/-- A rule split into its type and its pattern; a rule without `:` is a suffix. -/
def ruleType (rule : Str) : Str × Str := (Str.splitOnce ':' rule).getD ("domain", rule)

def DomainMatcher.add (m : DomainMatcher) (rule : Str) : DomainMatcher :=
  let (typ, pattern) := ruleType rule
  if typ = "full" then { m with full := m.full.insert (normalize pattern) () }
  else if typ = "keyword" then
    let k := normalize pattern
    if k = [] then m else { m with keyword := m.keyword ++ [k] }
  else { m with domain := m.domain.add pattern }

def DomainMatcher.matchesNormalized (m : DomainMatcher) (n : Str) : Bool :=
  if n = [] then false
  else if m.full.containsKey n then true
  else if m.domain.matchesNormalized n then true
  else m.keyword.any fun k => Str.contains n k

/-- `DomainMatcher::matches`. -/
def DomainMatcher.matchesHost (m : DomainMatcher) (host : Str) : Bool :=
  m.matchesNormalized (normalize host)

def DomainMatcher.contributeFull (o : IterOrder) (m : DomainMatcher) : List Str := o.run m.full.keys

def DomainMatcher.contributeKeywords (m : DomainMatcher) : List Str := m.keyword

theorem DomainMatcher.matchesNormalized_iff (m : DomainMatcher) (n : Str) :
    m.matchesNormalized n = true ↔
      n ≠ [] ∧ (n ∈ m.full.keys ∨ (∃ s, m.domain.Holds s ∧ IsLabelSuffix s n) ∨
        ∃ k ∈ m.keyword, k <:+: n) := by
  unfold matchesNormalized
  by_cases hn : n = []
  · simp [hn]
  · simp only [hn, if_false, Bool.if_true_left, Bool.or_eq_true, decide_eq_true_eq,
      SubDomainMatcher.matchesNormalized_iff, ne_eq, not_false_eq_true, true_and,
      HashMap.containsKey_iff, HashMap.mem_keys_iff, any_eq_true, Str.contains]

/-! ## `IpMatcher` -/

structure IpMatcher where
  exact : HashMap IpAddr Unit
  cidrs : List IpNet

/-- `IpMatcher::default`. -/
def IpMatcher.empty : IpMatcher := ⟨∅, []⟩

def isHostRoute : IpNet → Bool
  | .v4 _ n => n.val == 32
  | .v6 _ n => n.val == 128

def IpMatcher.insertNet (m : IpMatcher) (net : IpNet) : IpMatcher :=
  if isHostRoute net then { m with exact := m.exact.insert net.addr () }
  else { m with cidrs := m.cidrs ++ [net] }

/-- `IpMatcher::add`: `none` when the entry is neither a network nor an address. -/
def IpMatcher.add (parseIpNet : Str → Option IpNet) (m : IpMatcher) (entry : Str) : Option IpMatcher :=
  let s := Str.trim entry
  match parseIpNet s with
  | some net => some (m.insertNet net)
  | none =>
    match parseIpAddr s with
    | some addr => some { m with exact := m.exact.insert addr () }
    | none => none

/-- `IpMatcher::matches`. -/
def IpMatcher.matchesAddr (m : IpMatcher) (addr : IpAddr) : Bool :=
  m.exact.containsKey addr || m.cidrs.any (·.contains addr)

def IpMatcher.contributeExact (o : IterOrder) (m : IpMatcher) : List IpAddr := o.run m.exact.keys

def IpMatcher.contributeCidrs (m : IpMatcher) : List IpNet := m.cidrs

theorem IpMatcher.matchesAddr_iff (m : IpMatcher) (addr : IpAddr) :
    m.matchesAddr addr = true ↔ addr ∈ m.exact.keys ∨ ∃ n ∈ m.cidrs, n.contains addr = true := by
  simp only [matchesAddr, Bool.or_eq_true, HashMap.containsKey_iff, HashMap.mem_keys_iff,
    any_eq_true]

end Rove.Policy
