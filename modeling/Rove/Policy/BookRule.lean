/-
Moving a rule between a route and an address book: what `RuleSet::from_rules`
and `BookBuilder::add_rule` make of one rule text.

The two read a rule that is not a book rule alike (`ruleOf_eq_ofText`), and
they agree on every name. They do not agree on addresses: a rule set compares
an address with rules of its own family only, while a book keeps IPv4 and
IPv4-mapped addresses in one table.
-/
import Rove.AddrBook.Compiled

namespace Rove.Policy

open List
open AddrBook (Book BookBuilder RawBook SelectorCache IsCategoryPath Under normalizeCategory ruleOf ruleCovers twin
  fullTag keywordTag domainTag sampleNets zeroDigest)

/-! ## Reading a rule -/

/-- A character of an address or of a prefix length. -/
def isNetChar (c : Char) : Bool :=
  (48 ≤ c.toNat && c.toNat ≤ 57) || (65 ≤ c.toNat && c.toNat ≤ 70) || (97 ≤ c.toNat && c.toNat ≤ 102) ||
    c == '.' || c == ':' || c == '/'

/-- What is used of the reading of networks: a text it takes has only digits,
dots, colons and a slash. -/
def NetSyntax (parseIpNet : Str → Option IpNet) : Prop :=
  ∀ t n, parseIpNet t = some n → ∀ c ∈ t, isNetChar c = true

theorem NetSyntax.eq_none {parseIpNet} (h : NetSyntax parseIpNet) {t c} (hc : c ∈ t)
    (hnet : isNetChar c = false) : parseIpNet t = none := by
  cases hn : parseIpNet t with
  | none => rfl
  | some n =>
    have hc := h t n hn c hc
    rw [hnet] at hc
    cases hc

theorem ofDomainText_of_type {typ} (rest : Str) (hcolon : ':' ∉ typ) :
    Rule.ofDomainText (typ ++ ':' :: rest) =
      if typ = "full" then .full (normalize rest)
      else if typ = "keyword" then .keyword (normalize rest) else .suffix (suffixOf rest) := by
  rw [Rule.ofDomainText, ruleType, Str.splitOnce_append rest hcolon]
  rfl

theorem fullTag_eq : fullTag = "full" ++ [':'] := rfl

theorem keywordTag_eq : keywordTag = "keyword" ++ [':'] := rfl

theorem domainTag_eq : domainTag = "domain" ++ [':'] := rfl

theorem parseIpAddr_of_type {typ} (htyp : typ = "full".toList ∨ typ = "keyword".toList ∨ typ = "domain".toList)
    (rest : Str) : parseIpAddr (typ ++ ':' :: rest) = none := by
  rcases htyp with rfl | rfl | rfl
  · rfl
  · rfl
  · rfl

theorem chars_of_type {typ} (htyp : typ = "full".toList ∨ typ = "keyword".toList ∨ typ = "domain".toList) :
    ':' ∉ typ ∧ ∃ c ∈ typ, isNetChar c = false := by
  rcases htyp with rfl | rfl | rfl
  · exact ⟨by decide, 'u', by decide, rfl⟩
  · exact ⟨by decide, 'k', by decide, rfl⟩
  · exact ⟨by decide, 'o', by decide, rfl⟩

section
variable {parseIpNet : Str → Option IpNet} (hnets : NetSyntax parseIpNet) {rule : Str}
  (hbook : Str.stripPrefix bookTag (Str.trim rule) = none)
include hnets hbook

theorem ofText_of_type {typ rest} (htyp : typ = "full".toList ∨ typ = "keyword".toList ∨ typ = "domain".toList)
    (hrule : Str.trim rule = typ ++ [':'] ++ rest) :
    Rule.ofText parseIpNet rule =
      if typ = "full".toList then .full (normalize rest)
      else if typ = "keyword".toList then .keyword (normalize rest) else .suffix (suffixOf rest) := by
  obtain ⟨hcolon, c, hc, hnet⟩ := chars_of_type htyp
  have hne : Str.trim rule ≠ [] := by simp [hrule]
  rw [append_assoc, singleton_append] at hrule
  rw [Rule.ofText, if_neg hne, hbook, hrule]
  rw [hnets.eq_none (mem_append_left _ hc) hnet, parseIpAddr_of_type htyp, ofDomainText_of_type rest hcolon]

/-- A book and a rule set read a rule that is not a book rule alike. -/
theorem ruleOf_eq_ofText : ruleOf parseIpNet rule = Rule.ofText parseIpNet rule := by
  by_cases hne : Str.trim rule = []
  · rw [ruleOf, Rule.ofText, if_pos hne, if_pos hne]
  rw [ruleOf, if_neg hne]
  cases hfull : Str.stripPrefix fullTag (Str.trim rule) with
  | some host =>
    have hrule := Str.stripPrefix_eq_some.1 hfull
    rw [ofText_of_type hnets hbook (.inl rfl) hrule, if_pos rfl]
    rfl
  | none =>
  cases hkeyword : Str.stripPrefix keywordTag (Str.trim rule) with
  | some frag =>
    have hrule := Str.stripPrefix_eq_some.1 hkeyword
    rw [ofText_of_type hnets hbook (.inr (.inl rfl)) hrule, if_neg (by decide), if_pos rfl]
    rfl
  | none =>
  cases hdomain : Str.stripPrefix domainTag (Str.trim rule) with
  | some host =>
    have hrule := Str.stripPrefix_eq_some.1 hdomain
    rw [ofText_of_type hnets hbook (.inr (.inr rfl)) hrule, if_neg (by decide), if_neg (by decide)]
  | none =>
  -- without a type that is known, both try a network, an address and a suffix
  rw [Rule.ofText, if_neg hne, hbook]
  cases parseIpNet (Str.trim rule) with
  | some n => rfl
  | none =>
  cases parseIpAddr (Str.trim rule) with
  | some a => rfl
  | none =>
    rw [Rule.ofDomainText, ruleType]
    cases hsplit : Str.splitOnce ':' (Str.trim rule) with
    | none => rfl
    | some parts =>
      obtain ⟨typ, rest⟩ := parts
      have hrule := Str.splitOnce_eq_append hsplit
      have hother : ∀ {tag word : Str}, tag = word ++ [':'] →
        Str.stripPrefix tag (Str.trim rule) = none → typ ≠ word := by
        intro tag word htag hnone htyp
        have hsome : Str.stripPrefix tag (Str.trim rule) = some rest :=
          Str.stripPrefix_eq_some.2 (by rw [hrule, htag, htyp]; simp)
        rw [hnone] at hsome
        cases hsome
      dsimp only [Option.getD_some, Option.map_some]
      rw [if_neg (hother fullTag_eq hfull), if_neg (hother keywordTag_eq hkeyword)]

end

/-! ## Addresses -/

/-- The rule covers the host's address in its other spelling. -/
def coversTwin (rule : Rule) (host : Str) : Bool := ((parseIpAddr host).bind twin).any rule.matchesAddr

/-- An address and its other spelling are of two families, and a rule is of one. -/
theorem matchesAddr_twin {rule : Rule} {a t : IpAddr} (ht : twin a = some t) (ha : rule.matchesAddr a = true) :
    rule.matchesAddr t = false := by
  cases a with
  | v4 x =>
    cases ht
    cases rule with
    | net n => cases n with
      | v4 y len => rfl
      | v6 y len => cases ha
    | addr b =>
      obtain rfl := of_decide_eq_true ha
      rfl
    | _ => cases ha
  | v6 x =>
    obtain ⟨y, -, rfl⟩ := Option.map_eq_some_iff.1 ht
    cases rule with
    | net n => cases n with
      | v4 z len => cases ha
      | v6 z len => rfl
    | addr b =>
      obtain rfl := of_decide_eq_true ha
      rfl
    | _ => cases ha

/-- A book answers as the rule itself unless the rule covers the other spelling. -/
theorem matchesDirect_eq_ruleCovers_iff (rule : Rule) (host : Str) :
    rule.matchesDirect host = ruleCovers rule host ↔ coversTwin rule host = false := by
  rw [Rule.matchesDirect, ruleCovers, coversTwin]
  cases parseIpAddr host with
  | none => exact ⟨fun _ => rfl, fun _ => rfl⟩
  | some a =>
    dsimp only [Option.bind_some]
    rw [AddrBook.ruleCoversAddr]
    cases ht : twin a with
    | none => simp
    | some t =>
      cases ha : rule.matchesAddr a with
      | false => exact eq_comm
      | true => simp [matchesAddr_twin ht ha]

/-! ## The book rule -/

section
variable (category : Str)

theorem trim_book : Str.trim (bookTag ++ category) = bookTag ++ category.rdropWhile Str.isWhitespace := by
  have hhead : ∀ c, (bookTag ++ category).head? = some c → Str.isWhitespace c = false := by
    intro c hc
    obtain rfl := Option.some.inj (show some 'b' = some c from hc)
    decide
  have hlast : ∀ c, bookTag.getLast? = some c → Str.isWhitespace c = false := by
    intro c hc
    obtain rfl := Option.some.inj (show some ':' = some c from hc)
    decide
  rw [Str.trim, Str.trimBy, Str.dropWhile_eq_self_of_head hhead, Str.rdropWhile_append_left hlast]

theorem trim_book_ne_nil : Str.trim (bookTag ++ category) ≠ [] := by
  rw [trim_book]
  exact append_ne_nil_of_left_ne_nil (cons_ne_nil _ _) _

theorem trim_pattern : Str.trim (category.rdropWhile Str.isWhitespace) = Str.trim category := Str.trimBy_rdropWhile _ _

theorem ofText_book (parseIpNet : Str → Option IpNet) :
    Rule.ofText parseIpNet (bookTag ++ category) = .book (Str.trim category) := by
  rw [Rule.ofText, if_neg (trim_book_ne_nil category), trim_book, Str.stripPrefix_eq_some.2 rfl]
  dsimp only
  rw [trim_pattern]

theorem addRule_book (parseIpNet : Str → Option IpNet) (rs : RuleSet) (patterns : List Str)
    (hne : Str.trim category ≠ []) :
    addRule parseIpNet rs patterns (bookTag ++ category) = .ok (rs, patterns ++ [Str.trim category]) := by
  rw [addRule, if_neg (trim_book_ne_nil category), trim_book, Str.stripPrefix_eq_some.2 rfl]
  dsimp only
  rw [trim_pattern]
  exact Res.ensure_bind_eq_ok.2 ⟨hne, rfl⟩

end

theorem fromRules_book (parseIpNet : Str → Option IpNet) {category} (hne : Str.trim category ≠ []) {book cache r}
    (hres : book.resolve cache [Str.trim category] = .ok r) :
    ∃ rs lb, RuleSet.fromRules parseIpNet [bookTag ++ category] (some ⟨book, cache⟩) = .ok (rs, lb) := by
  obtain ⟨selector, cache'⟩ := r
  refine ⟨{ RuleSet.empty with book := some ⟨book, selector⟩ }, some ⟨book, cache'⟩, ?_⟩
  refine Res.bind_eq_ok.2 ⟨(RuleSet.empty, [Str.trim category]), ?_, ?_⟩
  · exact Res.bind_eq_ok.2 ⟨_, addRule_book category parseIpNet _ _ hne, rfl⟩
  · exact Res.bind_eq_ok.2 ⟨_, hres, rfl⟩

/-- A rule that both a route and a book accept selects the same hosts in
either place, up to the hosts whose address the rule covers in the other
spelling only. -/
theorem matchesHost_eq_book_iff (parseIpNet : Str → Option IpNet) (hnets : NetSyntax parseIpNet) (epoch : BitVec 64)
    (category rule : Str) (hnotBook : Str.stripPrefix bookTag (Str.trim rule) = none)
    (rs : RuleSet) (lb : Option LoadedBook) (hdirect : RuleSet.fromRules parseIpNet [rule] none = .ok (rs, lb))
    (b : BookBuilder) (hadd : (BookBuilder.new epoch).addRule parseIpNet category rule = (b, .ok ()))
    (raw : RawBook) (hbuild : b.build = .ok raw) (checksum : AddrBook.Digest)
    (cache : SelectorCache (Book.fromRaw raw checksum)) :
    ∃ rsBook lbBook, RuleSet.fromRules parseIpNet [bookTag ++ category] (some ⟨Book.fromRaw raw checksum, cache⟩) =
        .ok (rsBook, lbBook) ∧
      ∀ host, rs.matchesHost host = rsBook.matchesHost host ↔
      coversTwin (Rule.ofText parseIpNet rule) host = false := by
  have hlines : (BookBuilder.new epoch).addRules parseIpNet [(category, rule)] = .ok b := by
    rw [BookBuilder.addRules, hadd]
    rfl
  obtain ⟨⟨hpath, -⟩, -⟩ := AddrBook.addRule_eq_ok.1 hadd
  have hnorm : normalizeCategory (Str.trim category) = normalizeCategory category := by
    rw [normalizeCategory, Str.trim_trim, ← normalizeCategory]
  -- the category of the rule is in the book, so the book rule resolves
  have hvalid := AddrBook.valid_of_build hlines hbuild
  obtain ⟨c, hc, hname⟩ := (AddrBook.name_of_build hlines hbuild).2
    (AddrBook.category_of_line hlines (mem_singleton.2 rfl))
  have hunder : Under (normalizeCategory (Str.trim category)) c.name := .inl (hname.trans hnorm.symm)
  obtain ⟨r, hres⟩ := AddrBook.resolve_of_under hvalid cache hc hunder
  have hne : Str.trim category ≠ [] := by
    intro hnil
    refine hpath.1 ?_
    rw [← hnorm, hnil]
    rfl
  obtain ⟨rsBook, lbBook, hrsBook⟩ := fromRules_book parseIpNet hne hres
  refine ⟨rsBook, lbBook, hrsBook, fun host => ?_⟩
  have hdir : rs.matchesHost host = (Rule.ofText parseIpNet rule).matchesDirect host := by
    rw [Bool.eq_iff_iff, (fromRules_matchesHost hdirect).2]
    simp [Rule.matchesHost]
  have hbk : rsBook.matchesHost host = ruleCovers (Rule.ofText parseIpNet rule) host := by
    rw [Bool.eq_iff_iff, (fromRules_matchesHost hrsBook).2]
    simp only [mem_singleton, exists_eq_left, Rule.matchesHost, ofText_book, Rule.matchesDirect_book,
      Rule.bookPattern, Option.map_some, Option.any_some, Bool.false_or, AddrBook.selects_of_build hlines hbuild,
      ruleOf_eq_ofText hnets hnotBook, hnorm]
    exact and_iff_right (.inl rfl)
  rw [hdir, hbk]
  exact matchesDirect_eq_ruleCovers_iff _ host

/-! ## A rule moved into a book -/

def lanRule : Str := "10.0.0.0/8"

theorem netSyntax_sampleNets : NetSyntax sampleNets := by
  intro t n h
  rw [sampleNets] at h
  split at h
  · next ht =>
    have hall : "10.0.0.0/8".toList.all isNetChar = true := rfl
    rw [ht]
    exact all_eq_true.1 hall
  · cases h

def lanBook : RawBook where
  buildEpoch := 1
  categories := [⟨"lan", AddrBook.u32Max⟩]
  catsetWords := 1
  catsets := [1]
  ip4 := [(0x0a000000, 0x0affffff, 0)]

theorem build_lanRule : ∃ b, (BookBuilder.new 1).addRule sampleNets "lan" lanRule = (b, .ok ()) ∧
    b.build = .ok lanBook := by
  refine ⟨((BookBuilder.new 1).addRule sampleNets "lan" lanRule).1, Prod.ext rfl ?_, ?_⟩
  · decide +kernel
  · decide +kernel

def lanLoaded : LoadedBook := ⟨Book.fromRaw lanBook (zeroDigest []), .empty _⟩

/-- A host written as a mapped address is in the book's network and not in the
route's. -/
theorem mapped_host_only_in_book :
    NetSyntax sampleNets ∧ Str.stripPrefix bookTag (Str.trim lanRule) = none ∧
      (∃ b, (BookBuilder.new 1).addRule sampleNets "lan" lanRule = (b, .ok ()) ∧ b.build = .ok lanBook) ∧
      (RuleSet.fromRules sampleNets [lanRule] none).map (fun r => r.1.matchesHost "::ffff:10.0.0.1") = .ok false ∧
      (RuleSet.fromRules sampleNets [bookTag ++ "lan"] (some lanLoaded)).map
        (fun r => r.1.matchesHost "::ffff:10.0.0.1") = .ok true := by
  refine ⟨netSyntax_sampleNets, ?_, build_lanRule, ?_, ?_⟩
  · decide +kernel
  · decide +kernel
  · decide +kernel

theorem matchesHost_eq_book_iff_lanRule :
    ∃ rs lb rsBook lbBook, RuleSet.fromRules sampleNets [lanRule] none = .ok (rs, lb) ∧
      RuleSet.fromRules sampleNets [bookTag ++ "lan"] (some lanLoaded) = .ok (rsBook, lbBook) ∧
      (rs.matchesHost "10.0.0.1" = rsBook.matchesHost "10.0.0.1" ↔
        coversTwin (Rule.ofText sampleNets lanRule) "10.0.0.1" = false) ∧
      (rs.matchesHost "::ffff:10.0.0.1" = rsBook.matchesHost "::ffff:10.0.0.1" ↔
        coversTwin (Rule.ofText sampleNets lanRule) "::ffff:10.0.0.1" = false) := by
  have hok : (RuleSet.fromRules sampleNets [lanRule] none).isOk = true := by decide +kernel
  obtain ⟨⟨rs, lb⟩, hrs⟩ := Res.exists_of_isOk hok
  obtain ⟨b, hadd, hbuild⟩ := build_lanRule
  obtain ⟨rsBook, lbBook, hrsBook, hiff⟩ := matchesHost_eq_book_iff sampleNets netSyntax_sampleNets 1 "lan" lanRule
    (by decide +kernel) rs lb hrs b hadd lanBook hbuild (zeroDigest []) (.empty _)
  exact ⟨rs, lb, rsBook, lbBook, hrs, hrsBook, hiff _, hiff _⟩

example : coversTwin (Rule.ofText sampleNets lanRule) "10.0.0.1" = false := by decide +kernel

end Rove.Policy
