/-
Rule sets (`RuleSet` of `policy/mod.rs`): rule strings compiled into domain,
address and address-book matchers, and matching a host against them.

A rule set matches a host through its names and addresses (`MatchesDirect`)
or through the book it was resolved against (`matchesHost_iff`).
-/
import Rove.Policy.Matcher
import Rove.AddrBook.Book

namespace Rove.Policy

open AddrBook (Book SelectorCache)

/-- `BookRules`: a book with a selector that was resolved against it. -/
structure BookRules where
  book : Book
  selector : AddrBook.Selector

structure RuleSet where
  domains : DomainMatcher
  ips : IpMatcher
  book : Option BookRules

/-- `RuleSet::default`. -/
def RuleSet.empty : RuleSet := ⟨.empty, .empty, none⟩

/-- The address book loaded in a process, with its selector cache. -/
structure LoadedBook where
  book : Book
  cache : SelectorCache book

def bookTag : Str := "book:"

/-- One round of the loop of `from_rules`: the rule set so far and the book
patterns so far. -/
def addRule (parseIpNet : Str → Option IpNet) (rs : RuleSet) (bookPatterns : List Str) (r : Str) :
    Res (RuleSet × List Str) :=
  let t := Str.trim r
  if t = [] then pure (rs, bookPatterns)
  else
    match Str.stripPrefix bookTag t with
    | some pattern => do
      ensure (Str.trim pattern ≠ []) "empty book: rule"
      pure (rs, bookPatterns ++ [Str.trim pattern])
    | none =>
      match rs.ips.add parseIpNet t with
      | some ips => pure ({ rs with ips }, bookPatterns)
      | none => pure ({ rs with domains := rs.domains.add t }, bookPatterns)

/-- The loop of `from_rules`. -/
def addRules (parseIpNet : Str → Option IpNet) :
    RuleSet → List Str → List Str → Res (RuleSet × List Str)
  | rs, bookPatterns, [] => pure (rs, bookPatterns)
  | rs, bookPatterns, r :: rules => do
    let (rs, bookPatterns) ← addRule parseIpNet rs bookPatterns r
    addRules parseIpNet rs bookPatterns rules

/-- `RuleSet::from_rules`, with the loaded book before and after. -/
def RuleSet.fromRules (parseIpNet : Str → Option IpNet) (rules : List Str) (book : Option LoadedBook) :
    Res (RuleSet × Option LoadedBook) := do
  let (rs, bookPatterns) ← addRules parseIpNet .empty [] rules
  if bookPatterns = [] then pure (rs, book)
  else
    match book with
    | none =>
      let patterns := Str.display (Str.join ", " bookPatterns)
      throw s!"rules reference addrbook categories ({patterns}) but no [addrbook] is configured"
    | some lb => do
      let (selector, cache) ← lb.book.resolve lb.cache bookPatterns
      pure ({ rs with book := some ⟨lb.book, selector⟩ }, some ⟨lb.book, cache⟩)

/-- `RuleSet::matches`. -/
def RuleSet.matchesHost (rs : RuleSet) (host : Str) : Bool :=
  let direct := match parseIpAddr host with
    | some addr => rs.ips.matchesAddr addr
    | none => rs.domains.matchesHost host
  if direct then true
  else
    match rs.book with
    | some b => b.book.matchesHost host b.selector
    | none => false

def RuleSet.bookSelectorAllocation (rs : RuleSet) : Option (Nat × Nat) :=
  rs.book.map (·.selector.allocation)

/-! ## Matching -/

/-- Does the part of the rule set that looks at the host itself, its names and
addresses, match? -/
def RuleSet.MatchesDirect (rs : RuleSet) (host : Str) : Prop :=
  match parseIpAddr host with
  | some addr => rs.ips.matchesAddr addr = true
  | none => rs.domains.matchesHost host = true

theorem RuleSet.matchesHost_iff (rs : RuleSet) (host : Str) :
    rs.matchesHost host = true ↔
      rs.MatchesDirect host ∨ ∃ b, rs.book = some b ∧ b.book.matchesHost host b.selector = true := by
  unfold matchesHost MatchesDirect
  cases parseIpAddr host <;> cases rs.book <;> simp

end Rove.Policy
