/-
The tables of a built book. Each table was filled from what the builder
collected, with the ids the interner gave (`BuiltFrom`), so that a host is in
a category of the book exactly when an item of that category covers it
(`inCategory_built`).
-/
import Rove.AddrBook.Built

namespace Rove.AddrBook

open List Res

/-! ## Category sets -/

/-- The ids of the sets are their places in the table. -/
structure Interner.Ok (words : Nat) (st : Interner) : Prop where
  length : st.catsets.length = st.ids.len * words
  sound : ∀ mask id, st.ids.get? mask = some id →
    mask.length = words ∧ id.toNat < st.ids.len ∧ (st.catsets.drop (id.toNat * words)).take words = mask

/-- What an interner knows, a later one knows. -/
def Interner.Le (st st' : Interner) : Prop := ∀ mask id, st.ids.get? mask = some id → st'.ids.get? mask = some id

theorem Interner.Ok.init (words : Nat) : Interner.Ok words {} :=
  ⟨by simp [HashMap.len, EmptyCollection.emptyCollection, HashMap.empty], fun _ _ h => by cases h⟩

variable {words : Nat} {mask : Mask} {catId : HashMap Str (BitVec 32)} {r : Run Mask}

theorem intern_spec {st st' : Interner} {id : BitVec 32} (h : st.intern mask = .ok (id, st'))
    (hst : st.Ok words) (hmask : mask.length = words) :
    st'.Ok words ∧ st.Le st' ∧ st'.ids.get? mask = some id := by
  rw [Interner.intern] at h
  cases hget : st.ids.get? mask with
  | some id' =>
    simp only [hget] at h
    cases h
    exact ⟨hst, fun _ _ h => h, hget⟩
  | none =>
    simp only [hget] at h
    obtain ⟨hlen, h⟩ := ensure_bind_eq_ok.1 h
    cases h
    have hnew : (BitVec.ofNat 32 st.ids.len).toNat = st.ids.len := Nat.mod_eq_of_lt hlen
    have hcount := HashMap.len_insert_of_none hget (BitVec.ofNat 32 st.ids.len)
    refine ⟨⟨?_, fun m id hm => ?_⟩, fun m id hm => ?_, HashMap.get?_insert_self _ _ _⟩
    · simp only [length_append, hst.length, hmask, hcount, Nat.add_mul, Nat.one_mul]
    · rw [hcount]
      rw [HashMap.get?_insert] at hm
      split at hm
      · next heq =>
        subst heq
        rw [← Option.some.inj hm, hnew, ← hst.length, drop_left]
        exact ⟨hmask, Nat.lt_succ_self _, by rw [← hmask, take_length]⟩
      · obtain ⟨hl, hlt, hm⟩ := hst.sound m id hm
        refine ⟨hl, Nat.lt_succ_of_lt hlt, ?_⟩
        -- an earlier set ends before the new one starts
        have hend : id.toNat * words + words ≤ st.catsets.length := by
          rw [hst.length, ← Nat.succ_mul]
          exact Nat.mul_le_mul_right _ hlt
        rw [drop_append_of_le_length (by omega), take_append_of_le_length (by rw [length_drop]; omega)]
        exact hm
    · rw [HashMap.get?_insert_ne _ _ fun heq => ?_]
      · exact hm
      · rw [heq, hget] at hm
        cases hm

/-- A table was filled from the items: each entry has the id of its item's set. -/
def Filled {α β : Type} (entry : α → Res (Mask × (BitVec 32 → β))) (st : Interner) (as : List α) (bs : List β) : Prop :=
  List.Forall₂ (fun a b => ∃ mask mk id, entry a = .ok (mask, mk) ∧ st.ids.get? mask = some id ∧ b = mk id) as bs

theorem Filled.mono {α β : Type} {entry : α → Res (Mask × (BitVec 32 → β))} {st st' : Interner}
    {as : List α} {bs : List β} (h : Filled entry st as bs) (hle : st.Le st') : Filled entry st' as bs := by
  refine List.Forall₂.imp (fun a b hab => ?_) h
  obtain ⟨mask, mk, id, he, hid, hb⟩ := hab
  exact ⟨mask, mk, id, he, hle mask id hid, hb⟩

theorem internEach_spec {α β : Type} {entry : α → Res (Mask × (BitVec 32 → β))} {st st' : Interner}
    {as : List α} {bs : List β} (h : internEach entry st as = .ok (st', bs)) (hst : st.Ok words)
    (hlen : ∀ a ∈ as, ∀ mask mk, entry a = .ok (mask, mk) → mask.length = words) :
    st'.Ok words ∧ st.Le st' ∧ Filled entry st' as bs := by
  induction as generalizing st bs with
  | nil =>
    cases h
    exact ⟨hst, fun _ _ h => h, List.Forall₂.nil⟩
  | cons a as ih =>
    obtain ⟨hla, hlas⟩ := forall_mem_cons.1 hlen
    obtain ⟨⟨mask, mk⟩, hentry, h⟩ := bind_eq_ok.1 h
    obtain ⟨⟨id, st₁⟩, hintern, h⟩ := bind_eq_ok.1 h
    obtain ⟨⟨st₂, bs'⟩, hrest, h⟩ := bind_eq_ok.1 h
    cases h
    obtain ⟨hst₁, hle₁, hid⟩ := intern_spec hintern hst (hla mask mk hentry)
    obtain ⟨hst₂, hle₂, hfilled⟩ := ih hrest hst₁ hlas
    exact ⟨hst₂, fun m i hm => hle₂ m i (hle₁ m i hm),
      List.Forall₂.cons ⟨mask, mk, id, hentry, hle₂ mask id hid, rfl⟩ hfilled⟩

/-! ## `build`, taken apart -/

/-- The sweep over the ranges of one kind. -/
def BookBuilder.runs (b : BookBuilder) (v4 : Bool) (words : Nat) : List (Run Mask) :=
  sweep ((b.ranges v4).map (withCatId (catIdOf b.categories.elems))) words

/-- The book `build` made, and the interner it ended with. -/
structure BuiltFrom (b : BookBuilder) (st : Interner) (raw : RawBook) : Prop where
  valid : Valid raw
  interner : st.Ok raw.catsetWords.toNat
  catsets : raw.catsets = st.catsets
  names : raw.categories.map (·.name) = b.categories.elems
  ip4 : Filled ip4Entry st (b.runs true raw.catsetWords.toNat) raw.ip4
  ip6 : Filled ip6Entry st (b.runs false raw.catsetWords.toNat) raw.ip6
  exact : Filled (textEntry (catIdOf b.categories.elems) raw.catsetWords.toNat) st b.exact.sets.entries raw.domainExact
  suffix : Filled (textEntry (catIdOf b.categories.elems) raw.catsetWords.toNat) st
    b.suffix.sets.entries raw.domainSuffix
  keywords : Filled (textEntry (catIdOf b.categories.elems) raw.catsetWords.toNat) st
    b.keywords.sets.entries raw.keywords

theorem length_maskOfIds (words : Nat) (ids : List Nat) : (maskOfIds words ids).length = words := by
  rw [maskOfIds, length_foldl_setBit, length_replicate]

theorem getBit_maskOfIds {ids id} :
    getBit (maskOfIds words ids) id = true ↔ id ∈ ids ∧ id / 64 < words := by
  rw [maskOfIds, getBit_foldl_setBit, getBit_replicate_zero, length_replicate]
  simp

theorem length_of_maskOf {cats}
    (h : maskOf catId words cats = .ok mask) : mask.length = words := by
  obtain ⟨ids, -, h⟩ := bind_eq_ok.1 h
  rw [← pure_eq_ok.1 h]
  exact length_maskOfIds words _

theorem length_of_textEntry {e mk} (h : textEntry catId words e = .ok (mask, mk)) : mask.length = words := by
  obtain ⟨m, hm, h⟩ := bind_eq_ok.1 h
  cases h
  exact length_of_maskOf hm

theorem ip4Entry_eq_ok {mk} (h : ip4Entry r = .ok (mask, mk)) :
    r.lo < 2 ^ 32 ∧ r.hi < 2 ^ 32 ∧ r.value = mask ∧
      (fun id => (BitVec.ofNat 32 r.lo, BitVec.ofNat 32 r.hi, id)) = mk := by
  obtain ⟨hlo, h⟩ := ensure_bind_eq_ok.1 h
  obtain ⟨hhi, h⟩ := ensure_bind_eq_ok.1 h
  obtain ⟨hv, hmk⟩ := Prod.mk.inj (pure_eq_ok.1 h)
  exact ⟨hlo, hhi, hv, hmk⟩

theorem ip6Entry_eq_ok {mk} (h : ip6Entry r = .ok (mask, mk)) :
    r.value = mask ∧ (fun id => (BitVec.ofNat 128 r.lo, BitVec.ofNat 128 r.hi, id)) = mk :=
  Prod.mk.inj (pure_eq_ok.1 h)

theorem ip4Entry_ends {mk} (h : ip4Entry r = .ok (mask, mk)) :
    r.value = mask ∧ ∀ i, (mk i).1.toNat = r.lo ∧ (mk i).2.1.toNat = r.hi ∧ (mk i).2.2 = i := by
  obtain ⟨hlo, hhi, rfl, rfl⟩ := ip4Entry_eq_ok h
  exact ⟨rfl, fun i => ⟨Nat.mod_eq_of_lt hlo, Nat.mod_eq_of_lt hhi, rfl⟩⟩

theorem ip6Entry_ends {mk} (hle : r.lo ≤ r.hi) (hlt : r.hi < infinity)
    (h : ip6Entry r = .ok (mask, mk)) :
    r.value = mask ∧ ∀ i, (mk i).1.toNat = r.lo ∧ (mk i).2.1.toNat = r.hi ∧ (mk i).2.2 = i := by
  obtain ⟨rfl, rfl⟩ := ip6Entry_eq_ok h
  exact ⟨rfl, fun i => ⟨Nat.mod_eq_of_lt (Nat.lt_of_le_of_lt hle hlt), Nat.mod_eq_of_lt hlt, rfl⟩⟩

/-- A run of the sweep has the mask of some categories, and lies within the addresses. -/
theorem mem_sweep {ranges} (hfit : RangesFit ranges) (hr : r ∈ sweep ranges words) :
    r.value.length = words ∧ r.lo ≤ r.hi ∧ r.hi < infinity := by
  obtain ⟨hcanon, hspec⟩ := sweep_spec hfit words
  have hle := hcanon.nonempty r hr
  obtain ⟨hne, hmask⟩ := (hspec r.hi r.value).1 ⟨r, hr, hle, Nat.le_refl _, rfl⟩
  obtain ⟨c, hc⟩ := exists_mem_of_ne_nil _ hne
  obtain ⟨range, hrange, hholds, -⟩ := mem_catsAt.1 hc
  refine ⟨?_, hle, Nat.lt_of_le_of_lt hholds.2 (hfit range hrange).2⟩
  rw [← hmask, length_maskOfIds]

/-- The categories in the mask of a run. -/
def categoriesOf (r : Run Mask) : Set Nat := {c | getBit r.value c = true}

/-- At each position of a run, its categories are those of the ranges that hold it. -/
theorem categoriesOf_eq {ranges} (hfit : RangesFit ranges)
    (hcats : ∀ e ∈ ranges, e.2.2 / 64 < words) (hr : r ∈ sweep ranges words) {p} (hlo : r.lo ≤ p)
    (hhi : p ≤ r.hi) :
    categoriesOf r = {c | c ∈ (catsAt ranges p).elems} ∧ r.value = maskOfIds words (catsAt ranges p).elems := by
  obtain ⟨-, hmask⟩ := ((sweep_spec hfit words).2 p r.value).1 ⟨r, hr, hlo, hhi, rfl⟩
  refine ⟨Set.ext fun c => ?_, hmask.symm⟩
  show getBit r.value c = true ↔ c ∈ (catsAt ranges p).elems
  rw [← hmask, getBit_maskOfIds, and_iff_left_iff_imp]
  intro hc
  obtain ⟨e, he, -, rfl⟩ := mem_catsAt.1 hc
  exact hcats e he

/-- What the sweep gives, for all ranges up to the last position: runs in order,
apart and within the positions, where no two that touch have the same
categories; a position is in a run when a range holds it, and then the run's
categories are exactly those of the ranges that hold it. -/
theorem sweep_categorizes {ranges : List RawRange} {words : Nat} (hfit : RangesFit ranges)
    (hcats : ∀ e ∈ ranges, e.2.2 / 64 < words) :
    (sweep ranges words).Pairwise (fun r r' => r.hi < r'.lo) ∧
    (∀ r ∈ sweep ranges words, r.lo ≤ r.hi ∧ r.hi < infinity) ∧
    (∀ r ∈ sweep ranges words, ∀ r' ∈ sweep ranges words, r.hi + 1 = r'.lo → categoriesOf r ≠ categoriesOf r') ∧
    ∀ p, ((∃ r ∈ sweep ranges words, r.lo ≤ p ∧ p ≤ r.hi) ↔ ∃ e ∈ ranges, e.Holds p) ∧
      ∀ r ∈ sweep ranges words, r.lo ≤ p → p ≤ r.hi → categoriesOf r = {c | ∃ e ∈ ranges, e.Holds p ∧ e.2.2 = c} := by
  obtain ⟨hcanon, hspec⟩ := sweep_spec hfit words
  refine ⟨hcanon.before.imp And.left, fun r hr => (mem_sweep hfit hr).2,
    fun r hr r' hr' htouch hsame => ?_, fun p => ⟨?_, ?_⟩⟩
  · -- runs that touch with the same categories would have the same mask
    obtain ⟨hset, hvalue⟩ := categoriesOf_eq hfit hcats hr (hcanon.nonempty r hr) (Nat.le_refl _)
    obtain ⟨hset', hvalue'⟩ := categoriesOf_eq hfit hcats hr' (Nat.le_refl _) (hcanon.nonempty r' hr')
    have hcatsAt : catsAt ranges r.hi = catsAt ranges r'.lo := by
      refine BTreeSet.ext_elems fun c => ?_
      exact Set.ext_iff.1 (hset.symm.trans (hsame.trans hset')) c
    exact hcanon.value_ne_of_touch hr hr' htouch (by rw [hvalue, hvalue', hcatsAt])
  · constructor
    · rintro ⟨r, hr, hlo, hhi⟩
      obtain ⟨hne, -⟩ := (hspec p r.value).1 ⟨r, hr, hlo, hhi, rfl⟩
      obtain ⟨c, hc⟩ := exists_mem_of_ne_nil _ hne
      obtain ⟨e, he, hholds, -⟩ := mem_catsAt.1 hc
      exact ⟨e, he, hholds⟩
    · rintro ⟨e, he, hholds⟩
      have hne : (catsAt ranges p).elems ≠ [] := ne_nil_of_mem (mem_catsAt.2 ⟨e, he, hholds, rfl⟩)
      obtain ⟨r, hr, hlo, hhi, -⟩ := (hspec p _).2 ⟨hne, rfl⟩
      exact ⟨r, hr, hlo, hhi⟩
  · intro r hr hlo hhi
    rw [(categoriesOf_eq hfit hcats hr hlo hhi).1]
    exact Set.ext fun c => mem_catsAt

/-- Two ranges of one category over each other and one of another, up to the last position. -/
theorem sweep_categorizes_last :
    sweep [(0, 9, 0), (5, 20, 0), (20, infinity - 1, 1)] 1 = [⟨0, 19, [1]⟩, ⟨20, 20, [3]⟩, ⟨21, infinity - 1, [2]⟩] ∧
    ∃ r ∈ sweep [(0, 9, 0), (5, 20, 0), (20, infinity - 1, 1)] 1, r.lo ≤ infinity - 1 ∧ infinity - 1 ≤ r.hi := by
  have hfit : RangesFit [(0, 9, 0), (5, 20, 0), (20, infinity - 1, 1)] := by unfold RangesFit; decide +kernel
  obtain ⟨-, -, -, hall⟩ := @sweep_categorizes _ 1 hfit (by decide)
  exact ⟨by decide +kernel, (hall (infinity - 1)).1.2 ⟨(20, infinity - 1, 1), by simp, by decide +kernel⟩⟩

theorem names_of_mapM {names : List Str} {cats : List Category}
    (h : names.mapM (categoryEntry catId) = .ok cats) : cats.map (·.name) = names := by
  have hone : ∀ name c, categoryEntry catId name = .ok c → name = c.name := by
    intro name c hc
    unfold categoryEntry at hc
    split at hc
    · obtain ⟨p, -, hc⟩ := bind_eq_ok.1 hc
      rw [← pure_eq_ok.1 hc]
    · rw [← pure_eq_ok.1 hc]
  have hall := (mapM_eq_ok.1 h).imp hone
  rw [← forall₂_map_right_iff (R := Eq), forall₂_eq_eq_eq] at hall
  exact hall.symm

theorem build_eq_ok {b : BookBuilder} {raw : RawBook} (hb : b.Sound) (h : b.build = .ok raw) :
    ∃ st, BuiltFrom b st raw := by
  obtain ⟨cats, hcats, h⟩ := bind_eq_ok.1 h
  obtain ⟨_, hr4, h⟩ := bind_eq_ok.1 h
  obtain rfl := Except.ok.inj ((hb.mapM_ranges true).symm.trans hr4)
  obtain ⟨⟨st₄, ip4⟩, hip4, h⟩ := bind_eq_ok.1 h
  obtain ⟨_, hr6, h⟩ := bind_eq_ok.1 h
  obtain rfl := Except.ok.inj ((hb.mapM_ranges false).symm.trans hr6)
  obtain ⟨⟨st₆, ip6⟩, hip6, h⟩ := bind_eq_ok.1 h
  obtain ⟨⟨stE, texts⟩, hexact, h⟩ := bind_eq_ok.1 h
  obtain ⟨⟨stS, suffixes⟩, hsuffix, h⟩ := bind_eq_ok.1 h
  obtain ⟨⟨stK, words⟩, hkeywords, h⟩ := bind_eq_ok.1 h
  obtain ⟨hwords, h⟩ := ensure_bind_eq_ok.1 h
  obtain ⟨hvalid, h⟩ := unit_bind_eq_ok.1 h
  cases h
  -- the tables are filled one after the other, and each keeps the ids of those before it
  have hruns : ∀ v4, ∀ r ∈ b.runs v4 (wordsFor b.categories.elems.length),
      r.value.length = wordsFor b.categories.elems.length :=
    fun v4 r hr => (mem_sweep (hb.rangesFit v4 _) hr).1
  obtain ⟨ok₄, -, f₄⟩ := internEach_spec hip4 (Interner.Ok.init _) fun r hr mask mk he => by
    rw [← (ip4Entry_eq_ok he).2.2.1]
    exact hruns true r hr
  obtain ⟨ok₆, le₆, f₆⟩ := internEach_spec hip6 ok₄ fun r hr mask mk he => by
    rw [← (ip6Entry_eq_ok he).1]
    exact hruns false r hr
  obtain ⟨okE, leE, fE⟩ := internEach_spec hexact ok₆ fun e _ mask mk he => length_of_textEntry he
  obtain ⟨okS, leS, fS⟩ := internEach_spec hsuffix okE fun e _ mask mk he => length_of_textEntry he
  obtain ⟨okK, leK, fK⟩ := internEach_spec hkeywords okS fun e _ mask mk he => length_of_textEntry he
  have hcount : (BitVec.ofNat 32 (wordsFor b.categories.elems.length)).toNat = wordsFor b.categories.elems.length :=
    Nat.mod_eq_of_lt hwords
  refine ⟨stK, validate_eq_ok.1 hvalid, ?_, rfl, names_of_mapM hcats, ?_, ?_, ?_, ?_, ?_⟩
  all_goals rw [hcount]
  · exact okK
  · exact (((f₄.mono le₆).mono leE).mono leS).mono leK
  · exact ((f₆.mono leE).mono leS).mono leK
  · exact (fE.mono leS).mono leK
  · exact fS.mono leK
  · exact fK

/-! ## The tables -/

theorem catIdOf_eq_some_iff {cats : BTreeSet Str} (hcount : cats.elems.length ≤ maxCategories)
    {name : Str} {id : BitVec 32} :
    (catIdOf cats.elems).get? name = some id ↔ cats.elems[id.toNat]? = some name := by
  have hsmall : maxCategories < 2 ^ 32 := by decide
  rw [catIdOf_get? cats.nodup_elems]
  refine ⟨fun hi => ?_, fun hi => ⟨id.toNat, hi, by simp⟩⟩
  obtain ⟨i, hi, rfl⟩ := hi
  have hlt := (List.getElem?_eq_some_iff.1 hi).1
  rw [BitVec.toNat_ofNat, Nat.mod_eq_of_lt (by omega)]
  exact hi

/-- A range of the family covers the position, under the category. -/
def BookBuilder.CoversAt (b : BookBuilder) (cat : Str) (v4 : Bool) (p : Nat) : Prop :=
  ∃ start stop, b.Has (.range (start, stop, v4) cat) ∧ start ≤ p ∧ p ≤ stop

section
variable {b : BookBuilder} {st : Interner} {raw : RawBook} (h : BuiltFrom b st raw) (checksum : Digest)
include h

theorem BuiltFrom.catset {mask id} (hid : st.ids.get? mask = some id) :
    (Book.fromRaw raw checksum).catset id = mask := by
  rw [Book.catset, Book.fromRaw]
  rw [h.catsets]
  exact (h.interner.sound mask id hid).2.2

theorem BuiltFrom.catId_iff {name : Str} {id : BitVec 32} :
    (catIdOf b.categories.elems).get? name = some id ↔ b.categories.elems[id.toNat]? = some name := by
  refine catIdOf_eq_some_iff ?_
  rw [← h.names, length_map]
  exact h.valid.count

theorem BuiltFrom.div_lt_words {id name} (hid : b.categories.elems[id]? = some name) :
    id / 64 < raw.catsetWords.toNat := by
  have hlt := (List.getElem?_eq_some_iff.1 hid).1
  rw [← h.names, List.length_map] at hlt
  rw [h.valid.words]
  omega

theorem BuiltFrom.getBit_maskOf {cats mask}
    (hmask : maskOf (catIdOf b.categories.elems) raw.catsetWords.toNat cats = .ok mask) {id} :
    getBit mask id = true ↔ ∃ c ∈ cats.elems, b.categories.elems[id]? = some c := by
  obtain ⟨ids, hids, hm⟩ := bind_eq_ok.1 hmask
  rw [← pure_eq_ok.1 hm, getBit_maskOfIds, mem_map]
  have hindex : ∀ c i, indexCatId (catIdOf b.categories.elems) c = .ok i ↔ b.categories.elems[i.toNat]? = some c := by
    intro c i
    rw [← h.catId_iff, indexCatId]
    cases (catIdOf b.categories.elems).get? c with
    | none => simp
    | some i' => simp
  have hids := (mapM_eq_ok.1 hids).imp fun c i hi => (hindex c i).1 hi
  refine ⟨fun hbit => ?_, fun hc => ?_⟩
  · obtain ⟨⟨i, hi, rfl⟩, -⟩ := hbit
    obtain ⟨c, hc, hci⟩ := Forall₂.exists_of_mem_right hids hi
    exact ⟨c, hc, hci⟩
  · obtain ⟨c, hc, hid⟩ := hc
    obtain ⟨i, hi, hci⟩ := Forall₂.exists_of_mem_left hids hc
    have hiid : i.toNat = id :=
      (List.getElem?_inj (List.getElem?_eq_some_iff.1 hci).1 b.categories.nodup_elems).1 (hci.trans hid.symm)
    exact ⟨⟨i, hi, hiid⟩, h.div_lt_words hid⟩

/-- A text table says which categories a text was collected under. -/
theorem BuiltFrom.text_iff {m : BTreeMultimap Str Str} {entries : List StrEntry}
    (hf : Filled (textEntry (catIdOf b.categories.elems) raw.catsetWords.toNat) st m.sets.entries entries)
    (text : Str) (id : Nat) :
    (∃ e ∈ entries, e.text = text ∧ getBit ((Book.fromRaw raw checksum).catset e.catset) id = true) ↔
      ∃ c, b.categories.elems[id]? = some c ∧ m.Holds text c := by
  -- an entry has the key of its item, and the mask of its item's set
  have hentry : ∀ (item : Str × BTreeSet Str) (e : StrEntry), (∃ mask mk i,
      textEntry (catIdOf b.categories.elems) raw.catsetWords.toNat item = .ok (mask, mk) ∧
        st.ids.get? mask = some i ∧ e = mk i) → e.text = item.1 ∧
      (getBit ((Book.fromRaw raw checksum).catset e.catset) id = true ↔
        ∃ c ∈ item.2.elems, b.categories.elems[id]? = some c) := by
    intro item e he
    obtain ⟨mask, mk, i, he, hi, rfl⟩ := he
    obtain ⟨mask', hmask, he⟩ := bind_eq_ok.1 he
    cases he
    refine ⟨rfl, ?_⟩
    rw [h.catset checksum hi]
    exact h.getBit_maskOf hmask
  refine ⟨fun he => ?_, fun hc => ?_⟩
  · obtain ⟨e, he, rfl, hbit⟩ := he
    obtain ⟨⟨key, set⟩, hitem, hfilled⟩ := Forall₂.exists_of_mem_right hf he
    obtain ⟨htext, hbits⟩ := hentry _ e hfilled
    obtain ⟨c, hc, hid⟩ := hbits.1 hbit
    exact ⟨c, hid, set, BTreeMap.get?_eq_some_iff.2 (htext ▸ hitem), hc⟩
  · obtain ⟨c, hid, set, hset, hc⟩ := hc
    obtain ⟨e, he, hfilled⟩ := Forall₂.exists_of_mem_left hf (BTreeMap.get?_eq_some_iff.1 hset)
    obtain ⟨htext, hbits⟩ := hentry _ e hfilled
    exact ⟨e, he, htext, hbits.2 ⟨c, hc, hid⟩⟩

/-- A range table says which categories a position was collected under. -/
theorem BuiltFrom.range_iff (hb : b.Sound) (v4 : Bool) {w : Nat} {entry : Run Mask → Res (Mask × (BitVec 32 → Range w))}
    {ranges : List (Range w)}
    (hf : Filled entry st (b.runs v4 raw.catsetWords.toNat) ranges)
    (hentry : ∀ r mask mk, r.lo ≤ r.hi → r.hi < infinity → entry r = .ok (mask, mk) →
      r.value = mask ∧ ∀ i, (mk i).1.toNat = r.lo ∧ (mk i).2.1.toNat = r.hi ∧ (mk i).2.2 = i)
    {key : BitVec w} {id : Nat} :
    (∃ r ∈ ranges, r.Holds key ∧ getBit ((Book.fromRaw raw checksum).catset r.2.2) id = true) ↔
      ∃ c, b.categories.elems[id]? = some c ∧ b.CoversAt c v4 key.toNat := by
  have hfit := hb.rangesFit v4 (catIdOf b.categories.elems)
  obtain ⟨-, hspec⟩ := sweep_spec hfit raw.catsetWords.toNat
  have hrun : ∀ run ∈ b.runs v4 raw.catsetWords.toNat,
      ∀ r : Range w, (∃ mask mk i, entry run = .ok (mask, mk) ∧ st.ids.get? mask = some i ∧ r = mk i) →
        (r.Holds key ↔ run.lo ≤ key.toNat ∧ key.toNat ≤ run.hi) ∧
        (Book.fromRaw raw checksum).catset r.2.2 = run.value := by
    intro run hmem r he
    obtain ⟨mask, mk, i, he, hi, rfl⟩ := he
    obtain ⟨-, hle, hlt⟩ := mem_sweep hfit hmem
    obtain ⟨rfl, hmk⟩ := hentry run mask mk hle hlt he
    obtain ⟨hlo, hhi, hid⟩ := hmk i
    refine ⟨?_, ?_⟩
    · rw [Range.Holds, BitVec.le_def, BitVec.le_def, hlo, hhi]
    · rw [hid]
      exact h.catset checksum hi
  -- the mask that stands at a position has the bits of the categories that cover it
  have hbits : (∃ m, HasAt (b.runs v4 raw.catsetWords.toNat) key.toNat m ∧ getBit m id = true) ↔
      ∃ c, b.categories.elems[id]? = some c ∧ b.CoversAt c v4 key.toNat := by
    simp only [BookBuilder.runs, hspec, Stands]
    refine ⟨fun hm => ?_, fun hc => ?_⟩
    · obtain ⟨m, ⟨-, rfl⟩, hbit⟩ := hm
      obtain ⟨_, hrange, hholds, rfl⟩ := mem_catsAt.1 (getBit_maskOfIds.1 hbit).1
      obtain ⟨⟨start, stop, c⟩, hmem, rfl⟩ := mem_map.1 hrange
      have hknown : c ∈ b.categories.elems := hb.known (.range (start, stop, v4) c) hmem
      obtain ⟨i, hi⟩ := exists_catId hknown
      refine ⟨c, ?_, start, stop, hmem, hholds⟩
      rw [withCatId_cat hi]
      exact h.catId_iff.1 hi
    · obtain ⟨c, hid, start, stop, hmem, hholds⟩ := hc
      have hin : id ∈ (catsAt ((b.ranges v4).map (withCatId (catIdOf b.categories.elems))) key.toNat).elems := by
        obtain ⟨i, hi⟩ := exists_catId (mem_of_getElem? hid)
        refine mem_catsAt.2 ⟨_, mem_map_of_mem hmem, hholds, ?_⟩
        rw [withCatId_cat hi]
        exact b.categories.place_unique (h.catId_iff.1 hi) hid
      exact ⟨_, ⟨ne_nil_of_mem hin, rfl⟩, getBit_maskOfIds.2 ⟨hin, h.div_lt_words hid⟩⟩
  rw [← hbits]
  refine ⟨fun hr => ?_, fun hm => ?_⟩
  · obtain ⟨r, hr, hholds, hbit⟩ := hr
    obtain ⟨run, hmem, hfilled⟩ := Forall₂.exists_of_mem_right hf hr
    obtain ⟨hiff, hset⟩ := hrun run hmem r hfilled
    obtain ⟨hlo, hhi⟩ := hiff.1 hholds
    exact ⟨run.value, ⟨run, hmem, hlo, hhi, rfl⟩, hset ▸ hbit⟩
  · obtain ⟨m, ⟨run, hmem, hlo, hhi, rfl⟩, hbit⟩ := hm
    obtain ⟨r, hr, hfilled⟩ := Forall₂.exists_of_mem_left hf hmem
    obtain ⟨hiff, hset⟩ := hrun run hmem r hfilled
    exact ⟨r, hr, hiff.2 ⟨hlo, hhi⟩, hset.symm ▸ hbit⟩

end

/-! ## The categories of a host -/

def BookBuilder.CoversAddr (b : BookBuilder) (cat : Str) : IpAddr → Prop
  | .v4 a => b.CoversAt cat true a.toNat
  | .v6 a =>
    match a.toIpv4Mapped with
    | some v4 => b.CoversAt cat true v4.toNat
    | none => b.CoversAt cat false a.toNat

/-- A text matches the normalised name. -/
def BookBuilder.CoversName (b : BookBuilder) (cat name : Str) : Prop :=
  b.Has (.exact name cat) ∨ (∃ p ∈ labelPrefixes (reverseLabels name), b.Has (.suffix p cat)) ∨
    ∃ word, Str.contains name word = true ∧ b.Has (.keyword word cat)

/-- An item of the builder covers the host, under the category. -/
def BookBuilder.Covers (b : BookBuilder) (cat host : Str) : Prop :=
  match parseIpAddr host with
  | some ip => b.CoversAddr cat ip
  | none => normalizeDomain host ≠ [] ∧ b.CoversName cat (normalizeDomain host)

section
variable {b : BookBuilder} {st : Interner} {raw : RawBook} (h : BuiltFrom b st raw) (hb : b.Sound) (checksum : Digest)
include h hb

variable {id : Nat}

theorem BuiltFrom.ip4_iff {a} :
    (∃ cs, lookupRange raw.ip4 a = some cs ∧ getBit ((Book.fromRaw raw checksum).catset cs) id = true) ↔
      ∃ c, b.categories.elems[id]? = some c ∧ b.CoversAt c true a.toNat := by
  rw [exists_lookupRange_iff h.valid.ip4]
  exact h.range_iff checksum hb true h.ip4 fun r mask mk _ _ he => ip4Entry_ends he

theorem BuiltFrom.ip6_iff {a} :
    (∃ cs, lookupRange raw.ip6 a = some cs ∧ getBit ((Book.fromRaw raw checksum).catset cs) id = true) ↔
      ∃ c, b.categories.elems[id]? = some c ∧ b.CoversAt c false a.toNat := by
  rw [exists_lookupRange_iff h.valid.ip6]
  exact h.range_iff checksum hb false h.ip6 fun r mask mk hle hlt he => ip6Entry_ends hle hlt he

theorem BuiltFrom.addr_iff {ip} :
    (∃ cs, (Book.fromRaw raw checksum).lookupIp ip = some cs ∧
        getBit ((Book.fromRaw raw checksum).catset cs) id = true) ↔
      ∃ c, b.categories.elems[id]? = some c ∧ b.CoversAddr c ip := by
  cases ip with
  | v4 a => exact h.ip4_iff hb checksum
  | v6 a =>
    simp only [Book.lookupIp, BookBuilder.CoversAddr]
    cases a.toIpv4Mapped with
    | some v4 => exact h.ip4_iff hb checksum
    | none => exact h.ip6_iff hb checksum

/-- A host is in a category of the built book exactly when an item of that
category covers it. -/
theorem inCategory_built {host : Str} :
    (Book.fromRaw raw checksum).inCategory host id = true ↔
      ∃ c, b.categories.elems[id]? = some c ∧ b.Covers c host := by
  rw [Book.inCategory, any_eq_true]
  unfold BookBuilder.Covers
  cases hip : parseIpAddr host with
  | some ip =>
    simp only [Book.setsOf, hip, Option.mem_toList]
    exact h.addr_iff hb checksum
  | none =>
    by_cases hn : normalizeDomain host = []
    · simp [Book.setsOf, hip, hn]
    · have hexact := fun text => h.text_iff checksum h.exact text id
      have hsuffix := fun text => h.text_iff checksum h.suffix text id
      have hkeyword := fun text => h.text_iff checksum h.keywords text id
      simp only [← exists_findText_iff h.valid.domainExact.sorted] at hexact
      simp only [← exists_findText_iff h.valid.domainSuffix.sorted] at hsuffix
      simp only [mem_setsOf_name hip hn]
      refine ⟨fun hcs => ?_, fun hc => ?_⟩
      · obtain ⟨_, ⟨e, he, rfl⟩ | ⟨p, hp, e, he, rfl⟩ | ⟨k, hk, hin, rfl⟩, hbit⟩ := hcs
        · obtain ⟨c, hc, hholds⟩ := (hexact _).1 ⟨e, he, hbit⟩
          exact ⟨c, hc, hn, .inl hholds⟩
        · obtain ⟨c, hc, hholds⟩ := (hsuffix p).1 ⟨e, he, hbit⟩
          exact ⟨c, hc, hn, .inr (.inl ⟨p, hp, hholds⟩)⟩
        · obtain ⟨c, hc, hholds⟩ := (hkeyword k.text).1 ⟨k, hk, rfl, hbit⟩
          exact ⟨c, hc, hn, .inr (.inr ⟨k.text, hin, hholds⟩)⟩
      · obtain ⟨c, hc, -, hholds | ⟨p, hp, hholds⟩ | ⟨word, hin, hholds⟩⟩ := hc
        · obtain ⟨e, he, hbit⟩ := (hexact _).2 ⟨c, hc, hholds⟩
          exact ⟨_, .inl ⟨e, he, rfl⟩, hbit⟩
        · obtain ⟨e, he, hbit⟩ := (hsuffix p).2 ⟨c, hc, hholds⟩
          exact ⟨_, .inr (.inl ⟨p, hp, e, he, rfl⟩), hbit⟩
        · obtain ⟨k, hk, rfl, hbit⟩ := (hkeyword word).2 ⟨c, hc, hholds⟩
          exact ⟨_, .inr (.inr ⟨k, hk, hin, rfl⟩), hbit⟩

end

end Rove.AddrBook
