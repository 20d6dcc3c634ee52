/-
What holds of every book the decoder accepted, whoever wrote the bytes: its
queries index nothing that does not exist and answer what a scan of the
tables gives (`queriesExact_of_fromBytes`), and the routing query agrees with
the lookup shown to operators (`matchesHost_iff_lookupCategories`).
-/
import Rove.AddrBook.Checked
import Rove.AddrBook.RoundTrip

namespace Rove.AddrBook

open List Res

theorem valid_of_decode {sha256 bytes raw} (h : decode sha256 bytes = .ok raw) :
    Valid raw := by
  obtain ⟨-, h⟩ := ensure_bind_eq_ok.1 h
  obtain ⟨-, h⟩ := ensure_bind_eq_ok.1 h
  obtain ⟨_, -, h⟩ := bind_eq_ok.1 h
  obtain ⟨_, -, h⟩ := bind_eq_ok.1 h
  obtain ⟨hvalid, h⟩ := unit_bind_eq_ok.1 h
  rw [← pure_eq_ok.1 h]
  exact validate_eq_ok.1 hvalid

theorem fromBytes_eq_ok {sha256 bytes b} :
    Book.fromBytes sha256 bytes = .ok b ↔ ∃ raw, decode sha256 bytes = .ok raw ∧
    b = Book.fromRaw raw (sha256 bytes) := by
  rw [Book.fromBytes, bind_eq_ok]
  simp only [pure_eq_ok, eq_comm (b := b)]

/-! ## When patterns resolve -/

theorem resolveNames_isOk_iff {b : Book} {names : List Str} {mask : List (BitVec 64)} :
    (∃ mask', b.resolveNames names mask = .ok mask') ↔ ∀ n ∈ names, b.idsOf n ≠ [] := by
  induction names generalizing mask with
  | nil => exact ⟨fun _ => by simp, fun _ => ⟨mask, rfl⟩⟩
  | cons n names ih =>
    simp only [Book.resolveNames, ensure_bind_eq_ok, exists_and_left, ih, forall_mem_cons]

theorem normalizePatterns_isOk_iff {patterns} :
    (∃ names, normalizePatterns patterns = .ok names) ↔ ∀ p ∈ patterns, normalizeCategory p ≠ [] := by
  induction patterns with
  | nil => exact ⟨fun _ => by simp, fun _ => ⟨[], rfl⟩⟩
  | cons p ps ih =>
    rw [forall_mem_cons, ← ih]
    simp only [normalizePatterns, ensure_bind_eq_ok, exists_and_left]
    refine and_congr_right fun _ => ⟨fun h => ?_, fun h => ?_⟩
    · obtain ⟨_, h⟩ := h
      obtain ⟨names, hnames, -⟩ := bind_eq_ok.1 h
      exact ⟨names, hnames⟩
    · obtain ⟨names, hnames⟩ := h
      exact ⟨_, bind_eq_ok.2 ⟨names, hnames, rfl⟩⟩

theorem normalizePatterns_eq_error {patterns e} (h : normalizePatterns patterns = .error e) :
    e = "empty addrbook category pattern" := by
  induction patterns with
  | nil => cases h
  | cons p ps ih =>
    rw [normalizePatterns] at h
    by_cases hp : normalizeCategory p ≠ []
    · rw [ensure, if_pos hp] at h
      cases hps : normalizePatterns ps with
      | ok names =>
        rw [hps] at h
        cases h
      | error e' =>
        rw [hps] at h ih
        cases h
        exact ih rfl
    · rw [ensure, if_neg hp] at h
      cases h
      rfl

/-- Patterns resolve when none is blank and each selects a category. -/
theorem resolve_isOk_iff {b : Book} {cache : SelectorCache b} {patterns : List Str} :
    (∃ r, b.resolve cache patterns = .ok r) ↔
      ∀ p ∈ patterns, normalizeCategory p ≠ [] ∧ b.idsOf (normalizeCategory p) ≠ [] := by
  refine ⟨fun h p hp => ?_, fun h => ?_⟩
  · obtain ⟨⟨sel, cache'⟩, h⟩ := h
    obtain ⟨names, hnames, -⟩ := bind_eq_ok.1 h
    exact ⟨(normalizePatterns_eq_ok hnames).2 p hp, (resolve_spec h).1 p hp⟩
  · obtain ⟨names, hnames⟩ := normalizePatterns_isOk_iff.2 fun p hp => (h p hp).1
    obtain ⟨rfl, -⟩ := normalizePatterns_eq_ok hnames
    obtain ⟨mask, hmask⟩ : ∃ mask, b.resolveMask patterns = .ok mask := by
      rw [Book.resolveMask, hnames, ok_bind]
      split
      · exact ⟨_, rfl⟩
      · refine resolveNames_isOk_iff.2 fun n hn => ?_
        obtain ⟨p, hp, rfl⟩ := mem_map.1 (mem_sortDedup.1 hn)
        exact (h p hp).2
    rw [← resolve_map_mask cache] at hmask
    obtain ⟨r, hr, -⟩ := map_eq_ok.1 hmask
    exact ⟨r, hr⟩

/-- Neither the order of patterns nor their repetition changes what they
resolve to. -/
theorem resolveMask_congr {b : Book} {patterns patterns' : List Str} (h : ∀ p, p ∈ patterns ↔ p ∈ patterns') :
    b.resolveMask patterns = b.resolveMask patterns' := by
  unfold Book.resolveMask
  cases hnames : normalizePatterns patterns with
  | ok names =>
    obtain ⟨rfl, hne⟩ := normalizePatterns_eq_ok hnames
    obtain ⟨names', hnames'⟩ := normalizePatterns_isOk_iff.2 fun p hp => hne p ((h p).2 hp)
    obtain ⟨rfl, -⟩ := normalizePatterns_eq_ok hnames'
    have hsame : sortDedup (patterns.map normalizeCategory) = sortDedup (patterns'.map normalizeCategory) :=
      sortDedup_congr fun n => by simp only [mem_map, h]
    rw [hnames', ok_bind, ok_bind, hsame]
  | error e =>
    cases hnames' : normalizePatterns patterns' with
    | ok names' =>
      obtain ⟨names, hok⟩ := normalizePatterns_isOk_iff.2 fun p hp =>
        (normalizePatterns_eq_ok hnames').2 p ((h p).1 hp)
      rw [hnames] at hok
      cases hok
    | error e' => rw [normalizePatterns_eq_error hnames, normalizePatterns_eq_error hnames']

/-! ## The queries -/

/-- Does a selector meet one of the host's sets, by scans? -/
def Book.scanMatches (b : Book) (host : Str) (sel : Selector) : Bool :=
  (b.scanSets host).any fun cs => b.catsetIntersects cs sel

def Book.scanCategories (b : Book) (host : Str) : List Str :=
  (b.raw.categories.zipIdx.filter fun (_, id) => (b.scanSets host).any fun cs => getBit (b.catset cs) id).map
    fun (c, _) => c.name

/-- The queries of a book index only what exists, and each of them answers
what a scan of the tables gives. -/
structure Book.QueriesExact (b : Book) : Prop where
  /-- The assertion in `validate`, at every category. -/
  assertion : ∀ (i : Nat) (c : Category), b.raw.categories[i]? = some c → c.parent = u32Max ∨ c.parent.toNat < i
  resolves : ∀ (cache : SelectorCache b) (patterns : List Str), (∃ r, b.resolve cache patterns = .ok r) ↔
    ∀ p ∈ patterns, normalizeCategory p ≠ [] ∧ b.scanIds (normalizeCategory p) ≠ []
  resolved : ∀ (cache cache' : SelectorCache b) (patterns : List Str) (sel : Selector),
    b.resolve cache patterns = .ok (sel, cache') →
      ∀ id, getBit sel.mask id = true ↔ ∃ p ∈ patterns, id ∈ b.scanIds (normalizeCategory p)
  hosts : ∀ (host : Str) (sel : Selector), b.matches? host sel = some (b.scanMatches host sel)
  lookups : ∀ host : Str, b.lookupCategories? host = some (b.scanCategories host)

theorem div_lt_words {raw} (h : Valid raw) {id} (hid : id < raw.categories.length) :
    id / 64 < raw.catsetWords.toNat := by
  rw [h.words]
  omega

theorem queriesExact_of_valid {raw : RawBook} (h : Valid raw) (checksum : Digest) :
    (Book.fromRaw raw checksum).QueriesExact := by
  have hids := h.idsOf_eq_scanIds checksum
  refine ⟨fun i c hc => h.parent_lt hc, fun cache patterns => ?_, fun cache cache' patterns sel hres id => ?_,
    fun host sel => ?_, fun host => ?_⟩
  · simp only [resolve_isOk_iff, hids]
  · rw [(resolve_spec hres).2]
    simp only [hids]
    refine and_iff_left_of_imp fun hp => ?_
    obtain ⟨p, -, hid⟩ := hp
    obtain ⟨c, hc, -⟩ := mem_scanIds.1 hid
    exact div_lt_words h (List.getElem?_eq_some_iff.1 hc).1
  · rw [matches?_eq_some h, matchesHost_eq_scan h]
    rfl
  · rw [lookupCategories?_eq_some h, Book.scanCategories]
    simp only [Book.inCategory, setsOf_eq_scanSets (b := Book.fromRaw raw checksum) h]

/-- Every book the decoder accepts is safe to query, and the binary searches
find what a scan finds. -/
theorem queriesExact_of_fromBytes (sha256 : Bytes → Digest) (bytes : Bytes) (b : Book)
    (h : Book.fromBytes sha256 bytes = .ok b) : b.QueriesExact := by
  obtain ⟨raw, hraw, rfl⟩ := fromBytes_eq_ok.1 h
  exact queriesExact_of_valid (valid_of_decode hraw) _

theorem fromBytes_sampleBook :
    Book.fromBytes zeroDigest (fileBytes zeroDigest sampleBook) = .ok (Book.fromRaw sampleBook (zeroDigest [])) :=
  fromBytes_eq_ok.2 ⟨sampleBook, decode_fileBytes_sampleBook, rfl⟩

theorem queriesExact_of_fromBytes_sampleBook : ∃ bytes b, Book.fromBytes zeroDigest bytes = .ok b ∧ b.raw = sampleBook ∧
    b.QueriesExact :=
  ⟨_, _, fromBytes_sampleBook, rfl, queriesExact_of_fromBytes zeroDigest _ _ fromBytes_sampleBook⟩

/-- Patterns resolve exactly when each of them names a category; then they
select those and the ones below, whatever their order, what is repeated and
what was resolved before. -/
theorem resolve_selects_named (sha256 : Bytes → Digest) (bytes : Bytes) (b : Book)
    (hb : Book.fromBytes sha256 bytes = .ok b) (cache : SelectorCache b) (patterns : List Str) :
    ((∃ r, b.resolve cache patterns = .ok r) ↔
        ∀ p ∈ patterns, normalizeCategory p ≠ [] ∧ ∃ c ∈ b.raw.categories, c.name = normalizeCategory p) ∧
      (∀ sel cache', b.resolve cache patterns = .ok (sel, cache') → ∀ id, getBit sel.mask id = true ↔
        ∃ c, b.raw.categories[id]? = some c ∧ ∃ p ∈ patterns, Under (normalizeCategory p) c.name) ∧
      ∀ (cache' : SelectorCache b) (patterns' : List Str), (∀ p, p ∈ patterns' ↔ p ∈ patterns) →
        (b.resolve cache' patterns').map (·.1.mask) = (b.resolve cache patterns).map (·.1.mask) := by
  obtain ⟨raw, hraw, rfl⟩ := fromBytes_eq_ok.1 hb
  have hvalid := valid_of_decode hraw
  have hexact := queriesExact_of_valid hvalid (sha256 bytes)
  refine ⟨?_, fun sel cache' hres id => ?_, fun cache' patterns' hsame => ?_⟩
  · rw [hexact.resolves]
    refine forall₂_congr fun p _ => and_congr_right fun _ => ⟨fun hne => ?_, fun hnamed => ?_⟩
    · obtain ⟨id, hid⟩ := exists_mem_of_ne_nil _ hne
      obtain ⟨c, hc, hname | ⟨rest, hrest⟩⟩ := mem_scanIds.1 hid
      · exact ⟨c, mem_of_getElem? hc, hname⟩
      · exact hvalid.exists_above (mem_of_getElem? hc) (by rw [← hrest, append_assoc]; rfl)
    · obtain ⟨c, hc, hname⟩ := hnamed
      obtain ⟨id, hid⟩ := mem_iff_getElem?.1 hc
      exact ne_nil_of_mem (mem_scanIds.2 ⟨c, hid, .inl hname⟩)
  · rw [hexact.resolved cache cache' patterns sel hres id]
    simp only [mem_scanIds]
    grind
  · rw [resolve_map_mask, resolve_map_mask, resolveMask_congr hsame]

theorem resolve_selects_named_sampleBook : ∃ b : Book,
    Book.fromBytes zeroDigest (fileBytes zeroDigest sampleBook) = .ok b ∧
      ∀ cache : SelectorCache b, (b.resolve (.empty b) [" Google/ ", "google"]).map (·.1.mask) =
        (b.resolve cache ["google", " Google/ "]).map (·.1.mask) :=
  ⟨_, fromBytes_sampleBook, fun cache =>
    (resolve_selects_named zeroDigest _ _ fromBytes_sampleBook cache ["google", " Google/ "]).2.2 _ _
      (by simp [or_comm])⟩

/-- Does the lookup name a category at or under one of the patterns? -/
def Book.LooksUp (b : Book) (host : Str) (patterns : List Str) : Prop :=
  ∃ names, b.lookupCategories? host = some names ∧ ∃ c ∈ names, ∃ p ∈ patterns, Under (normalizeCategory p) c

/-- A host matches the patterns exactly when the lookup names a category at or
under one of them. -/
theorem matchesHost_iff_lookupCategories (sha256 : Bytes → Digest) (bytes : Bytes) (b : Book)
    (hb : Book.fromBytes sha256 bytes = .ok b) (cache cache' : SelectorCache b) (patterns : List Str) (sel : Selector)
    (hres : b.resolve cache patterns = .ok (sel, cache')) (host : Str) :
    b.matchesHost host sel = true ↔ b.LooksUp host patterns := by
  obtain ⟨raw, hraw, rfl⟩ := fromBytes_eq_ok.1 hb
  have hvalid := valid_of_decode hraw
  have hnames := lookupCategories?_eq_some (b := Book.fromRaw raw (sha256 bytes)) hvalid host
  rw [resolve_matchesHost hres]
  simp only [Book.selects, any_eq_true, hvalid.idsOf_eq_scanIds, mem_scanIds]
  refine ⟨fun h => ?_, fun h => ?_⟩
  · obtain ⟨p, hp, id, ⟨c, hc, hunder⟩, hin⟩ := h
    refine ⟨_, hnames, c.name, mem_map.2 ⟨(c, id), mem_filter.2 ⟨?_, hin⟩, rfl⟩, p, hp, hunder⟩
    exact mem_zipIdx_iff_getElem?.2 hc
  · obtain ⟨names, hlook, c, hc, p, hp, hunder⟩ := h
    obtain rfl := Option.some.inj (hlook.symm.trans hnames)
    obtain ⟨⟨cat, id⟩, hcat, rfl⟩ := mem_map.1 hc
    obtain ⟨hid, hin⟩ := mem_filter.1 hcat
    exact ⟨p, hp, id, ⟨cat, mem_zipIdx_iff_getElem?.1 hid, hunder⟩, hin⟩

theorem matchesHost_iff_lookupCategories_sampleBook : ∃ (b : Book) (sel : Selector) (cache : SelectorCache b),
    Book.fromBytes zeroDigest (fileBytes zeroDigest sampleBook) = .ok b ∧
      b.resolve (.empty b) [" Google/ "] = .ok (sel, cache) ∧
      b.matchesHost "cdn.doubleclick.net" sel = true ∧
      (b.matchesHost "cdn.doubleclick.net" sel = true ↔
        b.LooksUp "cdn.doubleclick.net" [" Google/ "]) := by
  obtain ⟨⟨sel, cache⟩, hres⟩ := exists_of_isOk (x := (Book.fromRaw sampleBook (zeroDigest [])).resolve
    (.empty _) [" Google/ "]) (by decide +kernel)
  have hmatch : (Book.fromRaw sampleBook (zeroDigest [])).matchesHost "cdn.doubleclick.net" sel = true := by
    rw [resolve_matchesHost hres]
    decide +kernel
  exact ⟨_, sel, cache, fromBytes_sampleBook, hres, hmatch,
    matchesHost_iff_lookupCategories zeroDigest _ _ fromBytes_sampleBook _ _ _ _ hres _⟩

end Rove.AddrBook
