/-
What a rule string means, on its own: `Rule.ofText` reads it and
`Rule.matchesHost` says which hosts it matches. `fromRules_matchesHost` is
the correctness of compiling rule strings into a rule set: the set matches a
host exactly when one of the rules does.
-/
import Rove.Policy.RuleSet
import Rove.AddrBook.Query

namespace Rove.Policy

open HashMap
open AddrBook (Book)

inductive Rule where
  | blank
  | book (pattern : Str)
  | net (net : IpNet)
  | addr (addr : IpAddr)
  | full (name : Str)
  | keyword (word : Str)
  | suffix (name : Str)

/-- Read a rule about names: `full:`, `keyword:`, and anything else a suffix. -/
def Rule.ofDomainText (t : Str) : Rule :=
  let (typ, pattern) := ruleType t
  if typ = "full" then .full (normalize pattern)
  else if typ = "keyword" then .keyword (normalize pattern)
  else .suffix (suffixOf pattern)

def Rule.ofText (parseIpNet : Str → Option IpNet) (r : Str) : Rule :=
  let t := Str.trim r
  if t = [] then .blank
  else
    match Str.stripPrefix bookTag t with
    | some pattern => .book (Str.trim pattern)
    | none =>
      match parseIpNet t with
      | some n => .net n
      | none =>
        match parseIpAddr t with
        | some a => .addr a
        | none => Rule.ofDomainText t

def Rule.matchesAddr : Rule → IpAddr → Bool
  | .net n, a => n.contains a
  | .addr b, a => decide (b = a)
  | _, _ => false

/-- Does the rule match the normalised name? -/
def Rule.matchesName : Rule → Str → Bool
  | .full m, n => decide (m = n)
  | .keyword k, n => decide (k ≠ []) && Str.contains n k
  | .suffix s, n => decide (s ≠ []) && decide (IsLabelSuffix s n)
  | _, _ => false

/-- Does a rule other than a book rule match? Names are compared normalised,
and a host that is an address is never compared as a name. -/
def Rule.matchesDirect (rule : Rule) (host : Str) : Bool :=
  match parseIpAddr host with
  | some a => rule.matchesAddr a
  | none => decide (normalize host ≠ []) && rule.matchesName (normalize host)

@[simp] theorem Rule.matchesDirect_blank (host : Str) : Rule.blank.matchesDirect host = false := by
  unfold matchesDirect
  split <;> simp [matchesAddr, matchesName]

@[simp] theorem Rule.matchesDirect_book (p host : Str) : (Rule.book p).matchesDirect host = false := by
  unfold matchesDirect
  split <;> simp [matchesAddr, matchesName]

def Rule.bookPattern : Rule → Option Str
  | .book p => some p
  | _ => none

/-- Does the rule match the host, with this book loaded? -/
def Rule.matchesHost (book : Option Book) (rule : Rule) (host : Str) : Bool :=
  rule.matchesDirect host || book.any fun b => rule.bookPattern.any (b.selects · host)

/-! ## Adding one rule -/

theorem Rule.bookPattern_ofDomainText (t : Str) : (Rule.ofDomainText t).bookPattern = none := by
  unfold ofDomainText
  dsimp only
  split
  · rfl
  · split <;> rfl

theorem Rule.matchesAddr_ofDomainText (t : Str) (a : IpAddr) : (Rule.ofDomainText t).matchesAddr a = false := by
  unfold ofDomainText
  dsimp only
  split
  · rfl
  · split <;> rfl

theorem contains_hostRoute {net} (h : isHostRoute net = true) (a : IpAddr) :
    net.contains a = true ↔ net.addr = a := by
  have hmask : ∀ {w : Nat} (b c : BitVec w), (networkBits b w ≤ c ∧ c ≤ broadcastBits b w) ↔ b = c := by
    intro w b c
    have hnet : networkBits b w = b := by simp [networkBits]
    have hbroad : broadcastBits b w = b := by
      rw [broadcastBits, BitVec.ushiftRight_eq_zero (Nat.le_refl w), BitVec.or_zero]
    rw [hnet, hbroad]
    exact ⟨fun ⟨h1, h2⟩ => BitVec.le_antisymm h1 h2, fun h => h ▸ ⟨BitVec.le_refl _, BitVec.le_refl _⟩⟩
  cases net with
  | v4 b n =>
    have hn : n.val = 32 := by simpa [isHostRoute] using h
    cases a with
    | v4 c => simpa [IpNet.contains, IpNet.addr, hn] using hmask b c
    | v6 c => simp [IpNet.contains, IpNet.addr]
  | v6 b n =>
    have hn : n.val = 128 := by simpa [isHostRoute] using h
    cases a with
    | v4 c => simp [IpNet.contains, IpNet.addr]
    | v6 c => simpa [IpNet.contains, IpNet.addr, hn] using hmask b c

theorem IpMatcher.matchesAddr_insertNet (m : IpMatcher) (net : IpNet) (a : IpAddr) :
    (m.insertNet net).matchesAddr a = true ↔ m.matchesAddr a = true ∨ net.contains a = true := by
  unfold insertNet
  split
  · next h =>
    rw [contains_hostRoute h]
    simp only [matchesAddr, Bool.or_eq_true, containsKey_iff, get?_insert]
    by_cases ha : a = net.addr
    · simp [ha]
    · simp [ha, Ne.symm ha]
  · simp [matchesAddr, or_assoc]

theorem IpMatcher.matchesAddr_insertAddr (m : IpMatcher) (b a : IpAddr) :
    ({ m with exact := m.exact.insert b () } : IpMatcher).matchesAddr a = true ↔
      m.matchesAddr a = true ∨ b = a := by
  simp only [matchesAddr, Bool.or_eq_true, containsKey_iff, get?_insert]
  by_cases ha : a = b
  · simp [ha]
  · simp [ha, Ne.symm ha]

theorem DomainMatcher.matchesNormalized_add (m : DomainMatcher) (rule n : Str) :
    (m.add rule).matchesNormalized n = true ↔
      m.matchesNormalized n = true ∨ (n ≠ [] ∧ (Rule.ofDomainText rule).matchesName n = true) := by
  simp only [matchesNormalized_iff, ← and_or_left]
  refine and_congr_right fun _ => ?_
  unfold DomainMatcher.add Rule.ofDomainText
  dsimp only
  split
  · rw [mem_keys_iff, mem_keys_iff, get?_insert]
    by_cases he : n = normalize (ruleType rule).2
    · simp [he, Rule.matchesName]
    · simp [he, Ne.symm he, Rule.matchesName]
  · split
    · by_cases hk : normalize (ruleType rule).2 = []
      · simp [hk, Rule.matchesName]
      · simp [hk, Rule.matchesName, Str.contains, or_and_right, exists_or, or_assoc]
    · have hone : (∃ s, (s ≠ [] ∧ s = suffixOf (ruleType rule).2) ∧ IsLabelSuffix s n) ↔
          (Rule.suffix (suffixOf (ruleType rule).2)).matchesName n = true := by
        simp only [Rule.matchesName, Bool.and_eq_true, decide_eq_true_eq]
        constructor
        · rintro ⟨s, ⟨hs, rfl⟩, h⟩; exact ⟨hs, h⟩
        · rintro ⟨hs, h⟩; exact ⟨_, ⟨hs, rfl⟩, h⟩
      simp only [SubDomainMatcher.holds_add, or_and_right, exists_or, hone]
      constructor
      · rintro (h | (h | h) | h)
        · exact .inl (.inl h)
        · exact .inr h
        · exact .inl (.inr (.inl h))
        · exact .inl (.inr (.inr h))
      · rintro ((h | h | h) | h)
        · exact .inl h
        · exact .inr (.inl (.inr h))
        · exact .inr (.inr h)
        · exact .inr (.inl (.inl h))

theorem addRule_spec {parseIpNet rs rs' ps ps' r}
    (h : addRule parseIpNet rs ps r = .ok (rs', ps')) :
    rs'.book = rs.book ∧ ps' = ps ++ (Rule.ofText parseIpNet r).bookPattern.toList ∧
      ∀ host, rs'.MatchesDirect host ↔
        rs.MatchesDirect host ∨ (Rule.ofText parseIpNet r).matchesDirect host = true := by
  unfold addRule at h
  unfold Rule.ofText
  dsimp only at h ⊢
  split at h
  · next ht =>
    cases h
    simp [ht, Rule.bookPattern, Rule.matchesDirect_blank]
  · next ht =>
    rw [if_neg ht]
    cases hp : Str.stripPrefix bookTag (Str.trim r) with
    | some pattern =>
      simp only [hp] at h ⊢
      obtain ⟨hne, h⟩ := Res.ensure_bind_eq_ok.1 h
      cases h
      simp [Rule.bookPattern]
    | none =>
      simp only [hp] at h ⊢
      unfold IpMatcher.add at h
      rw [Str.trim_trim] at h
      cases hnet : parseIpNet (Str.trim r) with
      | some net =>
        simp only [hnet] at h ⊢
        cases h
        refine ⟨rfl, by simp [Rule.bookPattern], fun host => ?_⟩
        unfold RuleSet.MatchesDirect Rule.matchesDirect
        cases parseIpAddr host with
        | some a => exact IpMatcher.matchesAddr_insertNet rs.ips net a
        | none => simp [Rule.matchesName]
      | none =>
        cases haddr : parseIpAddr (Str.trim r) with
        | some b =>
          simp only [hnet, haddr] at h ⊢
          cases h
          refine ⟨rfl, by simp [Rule.bookPattern], fun host => ?_⟩
          unfold RuleSet.MatchesDirect Rule.matchesDirect
          cases parseIpAddr host with
          | some a => simp [IpMatcher.matchesAddr_insertAddr, Rule.matchesAddr]
          | none => simp [Rule.matchesName]
        | none =>
          simp only [hnet, haddr] at h ⊢
          cases h
          refine ⟨rfl, by simp [Rule.bookPattern_ofDomainText], fun host => ?_⟩
          unfold RuleSet.MatchesDirect Rule.matchesDirect
          cases parseIpAddr host with
          | some a => simp [Rule.matchesAddr_ofDomainText]
          | none =>
            simp only [DomainMatcher.matchesHost, DomainMatcher.matchesNormalized_add, Bool.and_eq_true,
              decide_eq_true_eq]

theorem addRules_spec {parseIpNet rs rs' ps ps' rules}
    (h : addRules parseIpNet rs ps rules = .ok (rs', ps')) :
    rs'.book = rs.book ∧ ps' = ps ++ rules.filterMap (fun r => (Rule.ofText parseIpNet r).bookPattern) ∧
      ∀ host, rs'.MatchesDirect host ↔
        rs.MatchesDirect host ∨ ∃ r ∈ rules, (Rule.ofText parseIpNet r).matchesDirect host = true := by
  induction rules generalizing rs ps with
  | nil =>
    cases h
    simp
  | cons r rules ih =>
    obtain ⟨⟨rs₁, ps₁⟩, hr, hrest⟩ := Res.bind_eq_ok.1 h
    obtain ⟨hbook, hps, hdirect⟩ := addRule_spec hr
    obtain ⟨hbook', hps', hdirect'⟩ := ih hrest
    refine ⟨hbook'.trans hbook, ?_, fun host => ?_⟩
    · rw [hps', hps, List.append_assoc, List.filterMap_cons]
      cases (Rule.ofText parseIpNet r).bookPattern <;> rfl
    · rw [hdirect', hdirect]
      simp only [List.mem_cons, exists_eq_or_imp, or_assoc]

/-- A rule set matches a host exactly when one of the rules it was built from
does; building it leaves the loaded book what it was. -/
theorem fromRules_matchesHost {parseIpNet rules lb lb' rs} (h : RuleSet.fromRules parseIpNet rules lb = .ok (rs, lb')) :
    lb'.map (·.book) = lb.map (·.book) ∧
      ∀ host, rs.matchesHost host = true ↔
        ∃ r ∈ rules, (Rule.ofText parseIpNet r).matchesHost (lb.map (·.book)) host = true := by
  obtain ⟨⟨rs₀, ps⟩, hadd, h⟩ := Res.bind_eq_ok.1 h
  obtain ⟨hbook, hps, hdirect⟩ := addRules_spec hadd
  have hempty : ∀ host, ¬ RuleSet.empty.MatchesDirect host := by
    intro host
    unfold RuleSet.MatchesDirect
    cases parseIpAddr host with
    | some a => simp [IpMatcher.matchesAddr_iff, RuleSet.empty, IpMatcher.empty, mem_keys_iff]
    | none =>
      simp [DomainMatcher.matchesHost, DomainMatcher.matchesNormalized_iff, RuleSet.empty,
        DomainMatcher.empty, mem_keys_iff, SubDomainMatcher.holds_empty]
  have hpmem : ∀ p, p ∈ ps ↔ ∃ r ∈ rules, (Rule.ofText parseIpNet r).bookPattern = some p := by
    intro p
    rw [hps, List.nil_append, List.mem_filterMap]
  simp only [hempty, false_or] at hdirect
  dsimp only at h
  split at h
  · next hnil =>
    cases h
    refine ⟨rfl, fun host => ?_⟩
    have hnone : ∀ r ∈ rules, (Rule.ofText parseIpNet r).bookPattern = none := by
      intro r hr
      cases hb : (Rule.ofText parseIpNet r).bookPattern with
      | none => rfl
      | some p =>
        have := (hpmem p).2 ⟨r, hr, hb⟩
        rw [hnil] at this
        cases this
    rw [RuleSet.matchesHost_iff, hdirect, hbook]
    simp only [RuleSet.empty, reduceCtorEq, false_and, exists_false, or_false]
    refine exists_congr fun r => and_congr_right fun hr => ?_
    cases lb <;> simp [Rule.matchesHost, hnone r hr]
  · split at h
    · cases h
    · next lb₀ _ =>
      obtain ⟨⟨sel, cache⟩, hres, h⟩ := Res.bind_eq_ok.1 h
      cases h
      refine ⟨rfl, fun host => ?_⟩
      have hsel := AddrBook.resolve_matchesHost hres host
      rw [RuleSet.matchesHost_iff]
      have hd : ({ rs₀ with book := some ⟨lb₀.book, sel⟩ } : RuleSet).MatchesDirect host ↔
          rs₀.MatchesDirect host := Iff.rfl
      rw [hd, hdirect]
      simp only [Option.some.injEq, exists_eq_left', hsel, hpmem, Rule.matchesHost, Option.map_some,
        Bool.or_eq_true]
      constructor
      · rintro (⟨r, hr, hm⟩ | ⟨p, ⟨r, hr, hp⟩, hm⟩)
        · exact ⟨r, hr, .inl hm⟩
        · exact ⟨r, hr, .inr (by rw [hp]; exact hm)⟩
      · rintro ⟨r, hr, hm | hm⟩
        · exact .inl ⟨r, hr, hm⟩
        · cases hp : (Rule.ofText parseIpNet r).bookPattern with
          | none => rw [hp] at hm; cases hm
          | some p =>
            rw [hp] at hm
            exact .inr ⟨p, ⟨r, hr, hp⟩, hm⟩

end Rove.Policy
