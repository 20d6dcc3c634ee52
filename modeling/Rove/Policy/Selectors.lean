/-
Which selectors of a rule set match anything. `from_rules` takes a selector
whose name is empty once it is normalised, such as `.`, `full:` or
`keyword:..`, and makes a rule set in which it matches no host; it also takes
a book selector whose categories have no entry. Every other selector matches
some host (`every_selector_matches_iff`).
-/
import Rove.Policy.BookRule
import Rove.AddrBook.Normalized
import Rove.Base.IpDisplay

namespace Rove.Policy

open List Res
open AddrBook

/-! ## What is accepted -/

theorem addRule_isOk_iff {parseIpNet rs ps r} :
    (∃ x, addRule parseIpNet rs ps r = .ok x) ↔ (Rule.ofText parseIpNet r).bookPattern ≠ some [] := by
  unfold addRule Rule.ofText
  dsimp only
  split
  · simp [Rule.bookPattern]
  · cases Str.stripPrefix bookTag (Str.trim r) with
    | some pattern =>
      simp only [ensure_bind_eq_ok, pure_eq_ok]
      simp [Rule.bookPattern]
    | none =>
      have hdomain := Rule.bookPattern_ofDomainText (Str.trim r)
      constructor
      · intro _
        dsimp only
        split
        · simp [Rule.bookPattern]
        · split
          · simp [Rule.bookPattern]
          · simp [hdomain]
      · intro _
        cases rs.ips.add parseIpNet (Str.trim r) with
        | some ips => exact ⟨_, rfl⟩
        | none => exact ⟨_, rfl⟩

theorem addRules_isOk_iff {parseIpNet rs ps rules} :
    (∃ x, addRules parseIpNet rs ps rules = .ok x) ↔ ∀ r ∈ rules, (Rule.ofText parseIpNet r).bookPattern ≠ some [] := by
  induction rules generalizing rs ps with
  | nil => simp [addRules]
  | cons r rules ih =>
    rw [forall_mem_cons, addRules]
    constructor
    · rintro ⟨x, h⟩
      obtain ⟨⟨rs₁, ps₁⟩, hr, hrest⟩ := bind_eq_ok.1 h
      exact ⟨addRule_isOk_iff.1 ⟨_, hr⟩, ih.1 ⟨x, hrest⟩⟩
    · rintro ⟨hr, hrules⟩
      obtain ⟨⟨rs₁, ps₁⟩, hr⟩ := addRule_isOk_iff.2 hr
      obtain ⟨x, hrest⟩ := @ih rs₁ ps₁ |>.2 hrules
      exact ⟨x, bind_eq_ok.2 ⟨_, hr, hrest⟩⟩

/-- The rules a rule set is made from are those whose book patterns resolve
against the loaded book. -/
theorem fromRules_isOk_iff {parseIpNet rules lb} :
    (∃ x, RuleSet.fromRules parseIpNet rules lb = .ok x) ↔
      ∀ r ∈ rules, ∀ p, (Rule.ofText parseIpNet r).bookPattern = some p →
        normalizeCategory p ≠ [] ∧ ∃ loaded, lb = some loaded ∧ loaded.book.idsOf (normalizeCategory p) ≠ [] := by
  constructor
  · rintro ⟨x, h⟩ r hr p hp
    obtain ⟨⟨rs, ps⟩, hadd, h⟩ := bind_eq_ok.1 h
    obtain ⟨-, hps, -⟩ := addRules_spec hadd
    have hmem : p ∈ ps := by
      rw [hps, nil_append, mem_filterMap]
      exact ⟨r, hr, hp⟩
    dsimp only at h
    rw [if_neg (ne_nil_of_mem hmem)] at h
    cases lb with
    | none => cases h
    | some loaded =>
      obtain ⟨_, hres, -⟩ := bind_eq_ok.1 h
      obtain ⟨hne, hids⟩ := resolve_isOk_iff.1 ⟨_, hres⟩ p hmem
      exact ⟨hne, loaded, rfl, hids⟩
  · intro hall
    obtain ⟨⟨rs, ps⟩, hadd⟩ := addRules_isOk_iff.2 fun r hr hp => (hall r hr [] hp).1 rfl
    obtain ⟨-, hps, -⟩ := addRules_spec hadd
    rw [RuleSet.fromRules, hadd, ok_bind]
    dsimp only
    split
    · exact ⟨_, rfl⟩
    · next hne =>
      have hpattern : ∀ p ∈ ps, normalizeCategory p ≠ [] ∧
          ∃ loaded, lb = some loaded ∧ loaded.book.idsOf (normalizeCategory p) ≠ [] := by
        intro p hp
        rw [hps, nil_append, mem_filterMap] at hp
        obtain ⟨r, hr, hp⟩ := hp
        exact hall r hr p hp
      obtain ⟨p, hp⟩ := exists_mem_of_ne_nil _ hne
      obtain ⟨-, loaded, rfl, -⟩ := hpattern p hp
      obtain ⟨⟨sel, cache⟩, hres⟩ := (@resolve_isOk_iff loaded.book loaded.cache ps).2 fun p hp => by
        obtain ⟨hne, _, heq, hids⟩ := hpattern p hp
        cases heq
        exact ⟨hne, hids⟩
      exact ⟨_, bind_eq_ok.2 ⟨_, hres, rfl⟩⟩

/-! ## A host for every entry -/

/-- A name between dots, which is no address. -/
def dotted (name : Str) : Str := '.' :: (name ++ ['.'])

theorem parseIpAddr_dotted (name : Str) : parseIpAddr (dotted name) = none := parseIpAddr_dot _

theorem normalize_dotted {name} (hhead : ∀ c, name.head? = some c → c ≠ '.')
    (hlast : ∀ c, name.getLast? = some c → c ≠ '.') (hlower : Str.toAsciiLowercase name = name) :
    normalize (dotted name) = name := by
  have htrim : Str.trim (dotted name) = dotted name := by
    refine Str.trimBy_eq_self (fun c hc => ?_) fun c hc => ?_
    · obtain rfl := Option.some.inj (show some '.' = some c from hc)
      decide
    · rw [dotted, ← cons_append, getLast?_concat] at hc
      cases hc
      decide
  have hdots : Str.trimMatches '.' (dotted name) = name := by
    rw [Str.trimMatches, Str.trimBy, dotted, dropWhile_cons_of_pos (by simp)]
    by_cases hne : name = []
    · subst hne
      rfl
    · rw [Str.dropWhile_eq_self_of_head, rdropWhile_concat_pos _ _ _ (by simp), Str.rdropWhile_eq_self_of_last]
      · exact fun c hc => by simpa using hlast c hc
      · intro c hc
        obtain ⟨x, name, rfl⟩ := exists_cons_of_ne_nil hne
        exact by simpa using hhead c hc
  rw [normalize, htrim, hdots, hlower]

theorem matchesDirect_dotted {rule : Rule} {name : Str} (hne : name ≠ []) (hnorm : normalize (dotted name) = name)
    (h : rule.matchesName name = true) : rule.matchesDirect (dotted name) = true := by
  unfold Rule.matchesDirect
  rw [parseIpAddr_dotted, hnorm]
  simp [hne, h]

def entrySets (raw : RawBook) : List (BitVec 32) :=
  raw.ip4.map (·.2.2) ++ raw.ip6.map (·.2.2) ++ raw.domainExact.map (·.catset) ++ raw.domainSuffix.map (·.catset) ++
    raw.keywords.map (·.catset)

/-- Some entry of the book is under the category with this id. -/
def HasEntry (b : Book) (id : Nat) : Prop := ∃ cs ∈ entrySets b.raw, getBit (b.catset cs) id = true

theorem toAsciiLowercase_of_lower {text} (h : text.any isAsciiUppercase = false) :
    Str.toAsciiLowercase text = text := by
  refine (map_congr_left fun c hc => ?_).trans (map_id _)
  have hc := any_eq_false.1 h c hc
  exact Str.toLower_eq_self (by simpa [isAsciiUppercase] using hc)

/-- A normalised text is the name of a host between dots, in either order of its labels. -/
theorem normalize_dotted_text {text} (h : isNormalizedMatchText text = true) :
    normalize (dotted text) = text ∧ normalize (dotted (reverseLabels text)) = reverseLabels text := by
  have hlower : text.any isAsciiUppercase = false := by
    simp only [isNormalizedMatchText, Bool.and_eq_true, Bool.not_eq_true'] at h
    exact h.2
  obtain ⟨hhead, hlast⟩ := (isNormalizedMatchText_iff hlower).1 h
  have hhead : ∀ c, text.head? = some c → c ≠ '.' := fun c hc => (hhead c hc).1
  have hlast : ∀ c, text.getLast? = some c → c ≠ '.' := fun c hc => (hlast c hc).1
  refine ⟨normalize_dotted hhead hlast (toAsciiLowercase_of_lower hlower), ?_⟩
  obtain ⟨hrevHead, hrevLast⟩ := reverseLabels_ends hhead hlast
  refine normalize_dotted hrevHead hrevLast (toAsciiLowercase_of_lower ?_)
  have hall := any_eq_false.1 hlower
  exact any_eq_false.2 fun c hc => hall c ((reverseLabels_perm text).subset hc)

section
variable {b : Book} (h : Valid b.raw) {id : Nat}
include h

theorem exists_host_of_hasEntry (hentry : HasEntry b id) : ∃ host, b.inCategory host id = true := by
  obtain ⟨cs, hcs, hbit⟩ := hentry
  suffices hfound : ∃ host, cs ∈ b.setsOf host by
    obtain ⟨host, hhost⟩ := hfound
    exact ⟨host, any_eq_true.2 ⟨cs, hhost, hbit⟩⟩
  have haddr : ∀ ip, b.lookupIp ip = some cs → ∃ host, cs ∈ b.setsOf host := by
    intro ip hip
    exact ⟨ip.toText, by simp [Book.setsOf, ip.parse_toText, hip]⟩
  have hname : ∀ {name : Str}, name ≠ [] → normalize (dotted name) = name → 
      (cs ∈ b.setsOf (dotted name) ↔
        (∃ e, findText b.raw.domainExact name = some e ∧ e.catset = cs) ∨
        (∃ p ∈ labelPrefixes (reverseLabels name), ∃ e, findText b.raw.domainSuffix p = some e ∧ e.catset = cs) ∨
        ∃ k ∈ b.raw.keywords, Str.contains name k.text = true ∧ k.catset = cs) := by
    intro name hne hnorm
    have hnorm : normalizeDomain (dotted name) = name := hnorm
    rw [mem_setsOf_name (parseIpAddr_dotted name) (by rw [hnorm]; exact hne), hnorm]
  simp only [entrySets, mem_append, mem_map] at hcs
  rcases hcs with (((⟨r, hr, rfl⟩ | ⟨r, hr, rfl⟩) | ⟨e, he, rfl⟩) | ⟨e, he, rfl⟩) | ⟨e, he, rfl⟩
  · obtain ⟨cs, hlookup, rfl⟩ := (exists_lookupRange_iff h.ip4 (P := fun cs => cs = r.2.2)).2
      ⟨r, hr, ⟨BitVec.le_refl _, h.ip4.ordered r hr⟩, rfl⟩
    exact haddr (.v4 r.1) hlookup
  · obtain ⟨cs, hlookup, rfl⟩ := (exists_lookupRange_iff h.ip6 (P := fun cs => cs = r.2.2)).2
      ⟨r, hr, ⟨BitVec.le_refl _, h.ip6.ordered r hr⟩, rfl⟩
    have hunmapped : Ipv6Addr.toIpv4Mapped r.1 = none := by
      cases hmapped : Ipv6Addr.toIpv4Mapped r.1 with
      | none => rfl
      | some v4 =>
        have hval := toNat_of_toIpv4Mapped hmapped
        have hblock : ipv4MappedEnd = ipv4MappedStart + (2 ^ 32 - 1) := by decide
        have hle := h.ip6.ordered r hr
        rw [BitVec.le_def] at hle
        exact absurd ⟨by omega, by omega⟩ (h.unmapped r hr)
    refine haddr (.v6 r.1) ?_
    rw [Book.lookupIp, hunmapped]
    exact hlookup
  · obtain ⟨hnorm, -⟩ := normalize_dotted_text (h.domainExact.normalized e he)
    exact ⟨_, (hname (h.domainExact.nonempty e he) hnorm).2
        (.inl ((exists_findText_iff h.domainExact.sorted).2 ⟨e, he, rfl, rfl⟩))⟩
  · obtain ⟨-, hnorm⟩ := normalize_dotted_text (h.domainSuffix.normalized e he)
    have hne : reverseLabels e.text ≠ [] := fun hnil =>
      h.domainSuffix.nonempty e he (perm_nil.1 (hnil ▸ reverseLabels_perm e.text).symm)
    refine ⟨_, (hname hne hnorm).2 (.inr (.inl ⟨e.text, ?_, ?_⟩))⟩
    · rw [reverseLabels_reverseLabels, mem_labelPrefixes]
      exact ⟨_, splitOn_ne_nil '.' _, prefix_rfl, intercalate_splitOn '.'⟩
    · exact (exists_findText_iff h.domainSuffix.sorted).2 ⟨e, he, rfl, rfl⟩
  · obtain ⟨hnorm, -⟩ := normalize_dotted_text (h.keywords.normalized e he)
    refine ⟨_, (hname (h.keywords.nonempty e he) hnorm).2 (.inr (.inr ⟨e, he, ?_, rfl⟩))⟩
    simp [Str.contains]

theorem hasEntry_of_inCategory {host} (hin : b.inCategory host id = true) : HasEntry b id := by
  obtain ⟨cs, hcs, hbit⟩ := any_eq_true.1 hin
  refine ⟨cs, ?_, hbit⟩
  simp only [entrySets, mem_append, mem_map]
  have htext : ∀ {entries : List StrEntry} {text : Str}, (entries.map (·.text)).Pairwise (· < ·) →
      (∃ e, findText entries text = some e ∧ e.catset = cs) → ∃ e ∈ entries, e.catset = cs := by
    intro entries text hsorted hfind
    obtain ⟨e, he, -, hset⟩ := (exists_findText_iff hsorted).1 hfind
    exact ⟨e, he, hset⟩
  have haddr : ∀ {w nSets : Nat} {ranges : List (Range w)} {key : BitVec w}, RangesOk nSets ranges →
      lookupRange ranges key = some cs → ∃ r ∈ ranges, r.2.2 = cs := by
    intro w nSets ranges key hok hlookup
    obtain ⟨r, hr, -, hset⟩ := (exists_lookupRange_iff hok (P := fun cs' => cs' = cs)).1 ⟨cs, hlookup, rfl⟩
    exact ⟨r, hr, hset⟩
  cases hip : parseIpAddr host with
  | some ip =>
    simp only [Book.setsOf, hip, Option.mem_toList] at hcs
    cases ip with
    | v4 a => exact .inl (.inl (.inl (.inl (haddr h.ip4 hcs))))
    | v6 a =>
      rw [Book.lookupIp] at hcs
      split at hcs
      · exact .inl (.inl (.inl (.inl (haddr h.ip4 hcs))))
      · exact .inl (.inl (.inl (.inr (haddr h.ip6 hcs))))
  | none =>
    by_cases hn : normalizeDomain host = []
    · simp [Book.setsOf, hip, hn] at hcs
    · rcases (mem_setsOf_name hip hn).1 hcs with hexact | ⟨p, -, hsuffix⟩ | ⟨k, hk, -, hset⟩
      · exact .inl (.inl (.inr (htext h.domainExact.sorted hexact)))
      · exact .inl (.inr (htext h.domainSuffix.sorted hsuffix))
      · exact .inr ⟨k, hk, hset⟩

end

/-! ## A host for every selector -/

/-- A rule with something to match: a name that is not empty, an address, or a
category of the book that has an entry. -/
def Matchable (book : Option Book) : Rule → Prop
  | .full name => name ≠ []
  | .keyword word => word ≠ []
  | .suffix name => name ≠ []
  | .net _ => True
  | .addr _ => True
  | .book pattern => ∃ b, book = some b ∧ ∃ id ∈ b.idsOf (normalizeCategory pattern), HasEntry b id
  | .blank => False

theorem exists_matchesDirect_addr {rule : Rule} {ip : IpAddr} (h : rule.matchesAddr ip = true) :
    ∃ host, rule.matchesDirect host = true := by
  exact ⟨ip.toText, by simp [Rule.matchesDirect, ip.parse_toText, h]⟩

/-- A rule about no address and no name that is not empty matches nothing. -/
theorem not_exists_matchesDirect {rule : Rule} (haddr : ∀ a, rule.matchesAddr a = false)
    (hname : ∀ n, n ≠ [] → rule.matchesName n = false) : ¬ ∃ host, rule.matchesDirect host = true := by
  rintro ⟨host, hhost⟩
  unfold Rule.matchesDirect at hhost
  split at hhost
  · next a _ =>
    rw [haddr a] at hhost
    cases hhost
  · simp only [Bool.and_eq_true, decide_eq_true_eq] at hhost
    rw [hname _ hhost.1] at hhost
    cases hhost.2

theorem contains_network (net : IpNet) : net.contains net.network = true := by
  cases net with
  | v4 a n => simpa [IpNet.contains, IpNet.network] using BitVec.le_def.2 (networkBits_le_broadcastBits a n.val)
  | v6 a n => simpa [IpNet.contains, IpNet.network] using BitVec.le_def.2 (networkBits_le_broadcastBits a n.val)

theorem normalize_dotted_normalizeDomain (host : Str) :
    normalize (dotted (normalizeDomain host)) = normalizeDomain host := by
  have hdot : Str.trimMatches '.' (normalizeDomain host) = normalizeDomain host :=
    Str.trimMatches_toAsciiLowercase (by decide) _
  refine normalize_dotted (fun c hc => ?_) (fun c hc => ?_)
    (toAsciiLowercase_of_lower (any_isAsciiUppercase_normalizeDomain host))
  · rw [← hdot] at hc
    simpa using Str.head?_trimBy hc
  · rw [← hdot] at hc
    simpa using Str.getLast?_rdropWhile hc

/-- A suffix, with a label before it and between dots, is a host under it. -/
theorem suffix_matches_host {host : Str} (hne : suffixOf host ≠ []) :
    (Rule.suffix (suffixOf host)).matchesDirect (dotted ('x' :: '.' :: suffixOf host)) = true := by
  have hsuffix := suffixOf_suffix host
  have hlabels : IsLabelSuffix (suffixOf host) ('x' :: '.' :: suffixOf host) := by
    refine ⟨[['x']], ?_⟩
    rfl
  have hdot : Str.trimMatches '.' (normalizeDomain host) = normalizeDomain host :=
    Str.trimMatches_toAsciiLowercase (by decide) _
  refine matchesDirect_dotted (by simp) (normalize_dotted (fun c hc => ?_) (fun c hc => ?_) ?_) ?_
  · obtain rfl := Option.some.inj (show some 'x' = some c from hc)
    decide
  · -- the last character is that of the name the suffix was taken from
    obtain ⟨lead, hlead⟩ := hsuffix
    have hlast : (normalizeDomain host).getLast? = some c := by
      rw [← hlead, getLast?_append_of_ne_nil _ hne]
      rwa [getLast?_cons_cons, getLast?_cons_of_ne_nil hne] at hc
    rw [← hdot] at hlast
    simpa using Str.getLast?_rdropWhile hlast
  · have hlower : Str.toAsciiLowercase (suffixOf host) = suffixOf host := by
      refine toAsciiLowercase_of_lower (any_eq_false.2 fun c hc => ?_)
      exact any_eq_false.1 (any_isAsciiUppercase_normalizeDomain host) c (hsuffix.subset hc)
    rw [Str.toAsciiLowercase, map_cons, map_cons, ← Str.toAsciiLowercase, hlower]
    rfl
  · simp [Rule.matchesName, hne, hlabels]

/-- A rule of a text matches some host exactly when there is something to match. -/
theorem exists_matchesHost_iff {book : Option Book} (hbook : ∀ b, book = some b → Valid b.raw) {rule : Rule}
    (hnorm : IsNormalized rule) : (∃ host, rule.matchesHost book host = true) ↔ Matchable book rule := by
  have hdirect : rule.bookPattern = none → ((∃ host, rule.matchesHost book host = true) ↔
      ∃ host, rule.matchesDirect host = true) := by
    intro hnone
    cases book <;> simp [Rule.matchesHost, hnone]
  cases rule with
  | blank => simp [hdirect rfl, Matchable]
  | net net =>
    rw [hdirect rfl, Matchable, iff_true]
    exact exists_matchesDirect_addr (contains_network net)
  | addr addr =>
    rw [hdirect rfl, Matchable, iff_true]
    exact exists_matchesDirect_addr (decide_eq_true rfl)
  | full name =>
    rw [hdirect rfl, Matchable]
    refine ⟨fun hhost hnil => not_exists_matchesDirect (by simp [Rule.matchesAddr]) ?_ hhost, fun hne => ?_⟩
    · simp [hnil, Rule.matchesName]
    · obtain ⟨host, rfl⟩ := hnorm
      exact ⟨_, matchesDirect_dotted hne (normalize_dotted_normalizeDomain host) (decide_eq_true rfl)⟩
  | keyword word =>
    rw [hdirect rfl, Matchable]
    refine ⟨fun hhost hnil => not_exists_matchesDirect (by simp [Rule.matchesAddr]) ?_ hhost, fun hne => ?_⟩
    · simp [hnil, Rule.matchesName]
    · obtain ⟨host, rfl⟩ := hnorm
      refine ⟨_, matchesDirect_dotted hne (normalize_dotted_normalizeDomain host) ?_⟩
      simp [Rule.matchesName, hne, Str.contains]
  | suffix name =>
    rw [hdirect rfl, Matchable]
    refine ⟨fun hhost hnil => not_exists_matchesDirect (by simp [Rule.matchesAddr]) ?_ hhost, fun hne => ?_⟩
    · simp [hnil, Rule.matchesName]
    · obtain ⟨host, rfl⟩ := hnorm
      exact ⟨_, suffix_matches_host hne⟩
  | book pattern =>
    simp only [Rule.matchesHost, Rule.matchesDirect_book, Bool.false_or, Option.any_eq_true, Rule.bookPattern,
      Option.any_some, Book.selects, any_eq_true, Matchable]
    constructor
    · rintro ⟨host, b, hb, id, hid, hin⟩
      exact ⟨b, hb, id, hid, hasEntry_of_inCategory (hbook b hb) hin⟩
    · rintro ⟨b, hb, id, hid, hentry⟩
      obtain ⟨host, hin⟩ := exists_host_of_hasEntry (hbook b hb) hentry
      exact ⟨host, b, hb, id, hid, hin⟩

theorem isNormalized_ofText (parseIpNet : Str → Option IpNet) (r : Str) : IsNormalized (Rule.ofText parseIpNet r) := by
  unfold Rule.ofText Rule.ofDomainText
  dsimp only
  split
  · trivial
  split
  · trivial
  split
  · trivial
  split
  · trivial
  split
  · exact ⟨_, rfl⟩
  split
  · exact ⟨_, rfl⟩
  · exact ⟨_, rfl⟩

/-- For the rules a rule set was made from: each that is not blank matches some
host, on its own and in the rule set, exactly when each has a name that is
left when it is normalised, an address, or a category of the book with an entry. -/
theorem every_selector_matches_iff (parseIpNet : Str → Option IpNet) (rules : List Str) (lb lb' : Option LoadedBook)
    (rs : RuleSet) (hbook : ∀ loaded, lb = some loaded → Valid loaded.book.raw)
    (h : RuleSet.fromRules parseIpNet rules lb = .ok (rs, lb')) :
    (∀ r ∈ rules, Str.trim r ≠ [] → ∃ host rs₁ lb₁, RuleSet.fromRules parseIpNet [r] lb = .ok (rs₁, lb₁) ∧
        rs₁.matchesHost host = true ∧ rs.matchesHost host = true) ↔
      ∀ r ∈ rules, Str.trim r ≠ [] → Matchable (lb.map (·.book)) (Rule.ofText parseIpNet r) := by
  have hvalid : ∀ b, lb.map (·.book) = some b → Valid b.raw := by
    intro b hb
    obtain ⟨loaded, hloaded, rfl⟩ := Option.map_eq_some_iff.1 hb
    exact hbook loaded hloaded
  refine forall_congr' fun r => forall_congr' fun hr => forall_congr' fun _ => ?_
  obtain ⟨⟨rs₁, lb₁⟩, hone⟩ := (@fromRules_isOk_iff parseIpNet [r] lb).2 fun r' hr' => by
    rw [mem_singleton.1 hr']
    exact fromRules_isOk_iff.1 ⟨_, h⟩ r hr
  rw [← exists_matchesHost_iff hvalid (isNormalized_ofText parseIpNet r)]
  constructor
  · rintro ⟨host, rs₂, lb₂, htwo, hhost, -⟩
    obtain ⟨r', hr', hmatch⟩ := ((fromRules_matchesHost htwo).2 host).1 hhost
    rw [mem_singleton.1 hr'] at hmatch
    exact ⟨host, hmatch⟩
  · rintro ⟨host, hmatch⟩
    exact ⟨host, rs₁, lb₁, hone, ((fromRules_matchesHost hone).2 host).2 ⟨r, mem_singleton_self r, hmatch⟩,
      ((fromRules_matchesHost h).2 host).2 ⟨r, hr, hmatch⟩⟩

/-- A suffix and a network, in a process with no book. -/
theorem every_selector_matches_two : ∃ rs lb', RuleSet.fromRules sampleNets ["*.com", lanRule] none = .ok (rs, lb') ∧
    ∀ r ∈ ["*.com".toList, lanRule], Str.trim r ≠ [] → ∃ host rs₁ lb₁,
      RuleSet.fromRules sampleNets [r] none = .ok (rs₁, lb₁) ∧ rs₁.matchesHost host = true ∧
      rs.matchesHost host = true := by
  obtain ⟨⟨rs, lb'⟩, h⟩ := (@fromRules_isOk_iff sampleNets ["*.com", lanRule] none).2 (by decide +kernel)
  refine ⟨rs, lb', h, (every_selector_matches_iff sampleNets _ none lb' rs (by simp) h).2 fun r hr _ => ?_⟩
  rw [mem_cons, mem_singleton] at hr
  rcases hr with rfl | rfl
  · show "com".toList ≠ []
    decide
  · trivial

/-- A selector of one dot is accepted, and no host matches it. -/
theorem dot_selector_matches_nothing : ∃ rs lb', RuleSet.fromRules (fun _ => none) ["."] none = .ok (rs, lb') ∧
    Str.trim "." ≠ [] ∧ ∀ host, rs.matchesHost host = false := by
  obtain ⟨⟨rs, lb'⟩, h⟩ := (@fromRules_isOk_iff (fun _ => none) ["."] none).2 (by decide +kernel)
  refine ⟨rs, lb', h, by decide, fun host => Bool.eq_false_iff.2 fun hhost => ?_⟩
  obtain ⟨r, hr, hmatch⟩ := ((fromRules_matchesHost h).2 host).1 hhost
  rw [mem_singleton.1 hr] at hmatch
  exact (exists_matchesHost_iff (by simp) (isNormalized_ofText _ _)).1 ⟨host, hmatch⟩ rfl

end Rove.Policy
