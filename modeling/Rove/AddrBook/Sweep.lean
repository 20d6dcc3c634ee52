/-
The boundary sweep (`sweep` of `addrbook/builder.rs`): ranges that may
overlap, each with a category, become runs of positions with the mask of
every category that covers them.

Positions are numbers, and the boundary after the last of them, `(true, 0)`
in the source, is `2 ^ 128`: that is where `end + 1` puts it, after every
other position. `sweep_spec` says what the result is in terms of the ranges
alone, so that their order and number do not matter (`sweep_congr`).
-/
import Rove.AddrBook.Query
import Rove.Base.BTree
import Rove.Base.Runs
import Mathlib.Data.List.Sort

namespace Rove.AddrBook

open List

abbrev Mask := List (BitVec 64)

/-- `RawRange`: the first and the last position, and the category's id. -/
abbrev RawRange := Nat × Nat × Nat

/-- A category whose ranges begin or end at a boundary. -/
abbrev Delta := Nat × Int

/-- The boundary `(true, 0)`. -/
def infinity : Nat := 2 ^ 128

/-- `vec![0u64; words]` with the bits of the categories set. -/
def maskOfIds (words : Nat) (ids : List Nat) : Mask := ids.foldl setBit (replicate words 0)

/-- `entry(boundary).or_default().push(delta)`. -/
def pushDelta (events : BTreeMap Nat (List Delta)) (boundary : Nat) (delta : Delta) : BTreeMap Nat (List Delta) :=
  events.alter boundary fun deltas => deltas.getD [] ++ [delta]

/-- `events`: what begins and ends at each boundary. -/
def eventsOf (ranges : List RawRange) : BTreeMap Nat (List Delta) :=
  ranges.foldl (fun events (start, stop, cat) =>
    pushDelta (pushDelta events start (cat, 1)) (stop + 1) (cat, -1)) .empty

/-- The number of ranges that are open, by category. -/
abbrev Active := BTreeMap Nat Int

/-- The counter of a category moves; a category without open ranges is removed. -/
def applyDelta (active : Active) (d : Delta) : Active :=
  let counter := (active.get? d.1).getD 0 + d.2
  let active := active.alter d.1 fun _ => counter
  if counter ≤ 0 then active.erase d.1 else active

structure Sweep where
  active : Active := .empty
  out : List (Run Mask) := []
  prev : Option Nat := none

/-- The segment between the last boundary and this one, if a category covers it. -/
def Sweep.emit (words : Nat) (st : Sweep) (boundary : Nat) : List (Run Mask) :=
  match st.prev with
  | some prevPos =>
    if st.active.keys ≠ [] ∧ prevPos ≠ infinity then
      pushRun st.out ⟨prevPos, boundary - 1, maskOfIds words st.active.keys⟩
    else st.out
  | none => st.out

/-- One round of the loop over the boundaries. -/
def Sweep.step (words : Nat) (st : Sweep) (event : Nat × List Delta) : Sweep where
  active := event.2.foldl applyDelta st.active
  out := st.emit words event.1
  prev := some event.1

def sweep (ranges : List RawRange) (words : Nat) : List (Run Mask) :=
  if ranges = [] then [] else ((eventsOf ranges).entries.foldl (Sweep.step words) {}).out

/-! ## The events -/

def RawRange.deltasAt (r : RawRange) (b : Nat) : List Delta :=
  (if b = r.1 then [(r.2.2, 1)] else []) ++ if b = r.2.1 + 1 then [(r.2.2, -1)] else []

/-- What the ranges do at a boundary. -/
def deltasAt (ranges : List RawRange) (b : Nat) : List Delta := ranges.flatMap (·.deltasAt b)

/-- A map that has the nonempty lists of `f`. -/
def Lists (events : BTreeMap Nat (List Delta)) (f : Nat → List Delta) : Prop :=
  ∀ b, events.get? b = if f b = [] then none else some (f b)

theorem lists_pushDelta {events f} (h : Lists events f) (k : Nat) (d : Delta) :
    Lists (pushDelta events k d) fun b => f b ++ if b = k then [d] else [] := by
  intro b
  rw [pushDelta, BTreeMap.get?_alter]
  by_cases hb : b = k
  · subst hb
    have hk := h b
    by_cases hf : f b = []
    · simp [hk, hf]
    · simp [hk, hf]
  · simpa [hb] using h b

theorem lists_eventsOf (ranges : List RawRange) : Lists (eventsOf ranges) (deltasAt ranges) := by
  have hfold : ∀ (ranges : List RawRange) (events : BTreeMap Nat (List Delta)) (f : Nat → List Delta), Lists events f →
      Lists (ranges.foldl (fun events (start, stop, cat) =>
        pushDelta (pushDelta events start (cat, 1)) (stop + 1) (cat, -1)) events)
        fun b => f b ++ deltasAt ranges b := by
    intro ranges
    induction ranges with
    | nil => intro events f h; simpa [deltasAt] using h
    | cons r ranges ih =>
      intro events f h
      have hr := ih _ _ (lists_pushDelta (lists_pushDelta h r.1 (r.2.2, 1)) (r.2.1 + 1) (r.2.2, -1))
      simpa only [deltasAt, RawRange.deltasAt, foldl_cons, flatMap_cons, append_assoc] using hr
  exact hfold ranges .empty (fun _ => []) fun b => by simp

theorem mem_eventsOf {ranges e} :
    e ∈ (eventsOf ranges).entries ↔ deltasAt ranges e.1 = e.2 ∧ e.2 ≠ [] := by
  rw [← BTreeMap.get?_eq_some_iff (k := e.1) (v := e.2), lists_eventsOf ranges]
  split
  · next h => simp only [reduceCtorEq, false_iff, h, not_and, not_not]; exact Eq.symm
  · next h =>
    rw [Option.some.injEq]
    exact ⟨fun he => ⟨he, he ▸ h⟩, And.left⟩

/-- Some range begins or ends at the boundary. -/
def IsBoundary (ranges : List RawRange) (b : Nat) : Prop := ∃ r ∈ ranges, b = r.1 ∨ b = r.2.1 + 1

theorem deltasAt_ne_nil {ranges b} : deltasAt ranges b ≠ [] ↔ IsBoundary ranges b := by
  simp only [deltasAt, RawRange.deltasAt, ne_eq, flatMap_eq_nil_iff, append_eq_nil_iff, ite_eq_right_iff,
    reduceCtorEq, imp_false, IsBoundary, not_forall, not_and_or, not_not, exists_prop]

/-! ## The counters -/

/-- The counter of a category, zero if it has none. -/
def Active.count (active : Active) (c : Nat) : Int := (active.get? c).getD 0

/-- Only categories with open ranges are kept. -/
def Active.Positive (active : Active) : Prop := ∀ c n, active.get? c = some n → 0 < n

theorem Active.Positive.mem_keys {active : Active} (h : active.Positive) {c : Nat} :
    c ∈ active.keys ↔ 0 < active.count c := by
  rw [BTreeMap.mem_keys_iff, count]
  refine ⟨fun hc => ?_, fun hc => ?_⟩
  · obtain ⟨n, hn⟩ := hc
    rw [hn]
    exact h c n hn
  · cases hn : active.get? c with
    | some n => exact ⟨n, rfl⟩
    | none => simp [hn] at hc

theorem get?_applyDelta (active : Active) (d : Delta) (c : Nat) :
    (applyDelta active d).get? c =
      if c = d.1 then (if active.count d.1 + d.2 ≤ 0 then none else some (active.count d.1 + d.2))
      else active.get? c := by
  rw [applyDelta, Active.count]
  by_cases hc : c = d.1
  · split
    · simp [BTreeMap.get?_erase, hc]
    · simp [BTreeMap.get?_alter, hc]
  · split
    · simp [BTreeMap.get?_erase, BTreeMap.get?_alter, hc]
    · simp [BTreeMap.get?_alter, hc]

theorem count_applyDelta (active : Active) (d : Delta) (c : Nat) :
    (applyDelta active d).count c = if c = d.1 then max 0 (active.count c + d.2) else active.count c := by
  rw [Active.count, get?_applyDelta]
  by_cases hc : c = d.1
  · subst hc
    rw [if_pos rfl, if_pos rfl]
    split
    · next h => exact (max_eq_left h).symm
    · next h => exact (max_eq_right (Int.le_of_not_le h)).symm
  · rw [if_neg hc, if_neg hc]
    rfl

theorem Active.Positive.applyDelta {active} (h : active.Positive) (d : Delta) : (applyDelta active d).Positive := by
  intro c n hn
  rw [get?_applyDelta] at hn
  split at hn
  · split at hn
    · cases hn
    · next hpos =>
      rw [← Option.some.inj hn]
      exact Int.lt_of_not_ge hpos
  · exact h c n hn

/-- What a list of deltas adds to a category. -/
def deltaSum (ds : List Delta) (c : Nat) : Int := ds.foldr (fun d n => (if d.1 = c then d.2 else 0) + n) 0

theorem deltaSum_append (ds es : List Delta) (c : Nat) : deltaSum (ds ++ es) c = deltaSum ds c + deltaSum es c := by
  induction ds with
  | nil => simp [deltaSum]
  | cons d ds ih =>
    simp only [deltaSum, cons_append, foldr_cons] at ih ⊢
    omega

/-- How often a list of deltas takes one from a category. -/
def closings (ds : List Delta) (c : Nat) : Nat := ds.countP fun d => d.1 = c ∧ d.2 = -1

/-- Deltas that never take more from a category than it has add up. -/
theorem foldl_applyDelta {ds} (hds : ∀ d ∈ ds, d.2 = 1 ∨ d.2 = -1) {active} (hpos : active.Positive)
    (henough : ∀ c, (closings ds c : Int) ≤ active.count c) :
    (ds.foldl applyDelta active).Positive ∧
      ∀ c, (ds.foldl applyDelta active).count c = active.count c + deltaSum ds c := by
  induction ds generalizing active with
  | nil => exact ⟨hpos, fun c => by simp [deltaSum]⟩
  | cons d ds ih =>
    obtain ⟨hd, hds⟩ := forall_mem_cons.1 hds
    have hcount : ∀ c, (applyDelta active d).count c = active.count c + if d.1 = c then d.2 else 0 := by
      intro c
      have hc := henough c
      rw [count_applyDelta]
      rw [closings, countP_cons] at hc
      by_cases hdc : d.1 = c
      · simp only [hdc, if_true, true_and] at hc ⊢
        rcases hd with hd | hd
        · omega
        · simp only [hd, decide_true, if_true] at hc ⊢
          omega
      · simp [hdc, Ne.symm hdc]
    have hrest : ∀ c, (closings ds c : Int) ≤ (applyDelta active d).count c := by
      intro c
      have hc := henough c
      rw [hcount]
      rw [closings, countP_cons] at hc
      rw [closings]
      by_cases hdc : d.1 = c
      · simp only [hdc, if_true, true_and] at hc ⊢
        rcases hd with hd | hd
        · omega
        · simp only [hd, decide_true, if_true] at hc ⊢
          omega
      · simpa [hdc] using hc
    obtain ⟨hp, hsum⟩ := ih hds (hpos.applyDelta d) hrest
    refine ⟨hp, fun c => ?_⟩
    rw [foldl_cons, hsum, hcount, deltaSum, deltaSum, foldr_cons, Int.add_assoc]

/-! ## What the ranges cover -/

def RawRange.Holds (r : RawRange) (p : Nat) : Prop := r.1 ≤ p ∧ p ≤ r.2.1

instance (r : RawRange) (p : Nat) : Decidable (r.Holds p) := inferInstanceAs (Decidable (_ ∧ _))

/-- The categories of the ranges that hold a position. -/
def catsAt (ranges : List RawRange) (p : Nat) : BTreeSet Nat :=
  ((ranges.filter fun r => decide (r.Holds p)).map (·.2.2)).foldl BTreeSet.insert .empty

theorem mem_catsAt {ranges p c} :
    c ∈ (catsAt ranges p).elems ↔ ∃ r ∈ ranges, r.Holds p ∧ r.2.2 = c := by
  rw [catsAt, BTreeSet.mem_foldl_insert]
  simp [BTreeSet.elems, BTreeMap.keys, BTreeMap.empty, and_assoc]

/-- How many ranges of a category are open when the sweep comes to a boundary. -/
def covering (ranges : List RawRange) (c b : Nat) : Nat :=
  ranges.countP fun r => r.2.2 = c ∧ r.1 < b ∧ b ≤ r.2.1 + 1

theorem covering_pos {ranges c b} :
    0 < covering ranges c b ↔ ∃ r ∈ ranges, r.2.2 = c ∧ r.1 < b ∧ b ≤ r.2.1 + 1 := by
  simp [covering, countP_pos_iff]

theorem covering_cons (r : RawRange) (ranges : List RawRange) (c b : Nat) :
    covering (r :: ranges) c b = covering ranges c b + if r.2.2 = c ∧ r.1 < b ∧ b ≤ r.2.1 + 1 then 1 else 0 := by
  simp [covering, countP_cons]

/-- Ranges as the builder has them: not empty, and within the addresses. -/
def RangesFit (ranges : List RawRange) : Prop := ∀ r ∈ ranges, r.1 ≤ r.2.1 ∧ r.2.1 < infinity

theorem closings_deltasAt (ranges : List RawRange) (c b : Nat) :
    closings (deltasAt ranges b) c = ranges.countP fun r => r.2.2 = c ∧ b = r.2.1 + 1 := by
  induction ranges with
  | nil => rfl
  | cons r ranges ih =>
    have hone : closings (r.deltasAt b) c = if r.2.2 = c ∧ b = r.2.1 + 1 then 1 else 0 := by
      obtain ⟨start, stop, cat⟩ := r
      unfold closings RawRange.deltasAt
      by_cases hs : b = start
      · by_cases he : b = stop + 1 <;> simp [he, countP_cons]
      · by_cases he : b = stop + 1 <;> simp [hs, he, countP_cons]
    rw [deltasAt, flatMap_cons, closings, countP_append, ← closings, ← closings, ← deltasAt, ih, hone,
      countP_cons]
    simp only [decide_eq_true_eq]
    omega

theorem closings_le_covering {ranges} (h : RangesFit ranges) (c b : Nat) :
    closings (deltasAt ranges b) c ≤ covering ranges c b := by
  rw [closings_deltasAt]
  refine countP_mono_left fun r hr hclose => ?_
  have := (h r hr).1
  simp only [decide_eq_true_eq] at hclose ⊢
  omega

/-- Past a boundary, the open ranges are those before it with its deltas. -/
theorem covering_succ {ranges} (h : RangesFit ranges) (c b : Nat) :
    (covering ranges c (b + 1) : Int) = covering ranges c b + deltaSum (deltasAt ranges b) c := by
  induction ranges with
  | nil => simp [covering, deltasAt, deltaSum]
  | cons r ranges ih =>
    obtain ⟨⟨hr, -⟩, hranges⟩ := forall_mem_cons.1 h
    have hone : deltaSum (r.deltasAt b) c =
        if r.2.2 = c then (if b = r.1 then 1 else 0) - (if b = r.2.1 + 1 then 1 else 0) else 0 := by
      obtain ⟨start, stop, cat⟩ := r
      unfold deltaSum RawRange.deltasAt
      by_cases hs : b = start
      · subst hs
        by_cases he : b = stop + 1 <;> by_cases hc : cat = c <;> simp [he, hc]
      · by_cases he : b = stop + 1
        · subst he
          by_cases hc : cat = c <;> simp [hs, hc]
        · by_cases hc : cat = c <;> simp [hs, he, hc]
    have hsum : deltaSum (deltasAt (r :: ranges) b) c = deltaSum (r.deltasAt b) c + deltaSum (deltasAt ranges b) c := by
      rw [deltasAt, flatMap_cons, deltaSum_append]
      rfl
    rw [hsum, hone, covering_cons, covering_cons, Int.natCast_add, Int.natCast_add, ih hranges]
    by_cases hc : r.2.2 = c
    · split <;> split <;> split <;> split <;> omega
    · simp only [hc, false_and, if_false]
      omega

theorem covering_eq_of_between {ranges b b'} (hle : b ≤ b')
    (hno : ∀ x, IsBoundary ranges x → b ≤ x → b' ≤ x) (c : Nat) : covering ranges c b = covering ranges c b' := by
  refine countP_congr fun r hr => ?_
  have hs := hno r.1 ⟨r, hr, .inl rfl⟩
  have he := hno (r.2.1 + 1) ⟨r, hr, .inr rfl⟩
  simp only [decide_eq_true_eq]
  omega

/-! ## The loop -/

/-- The mask the sweep gives a position. -/
def Stands (ranges : List RawRange) (words p : Nat) (m : Mask) : Prop :=
  (catsAt ranges p).elems ≠ [] ∧ maskOfIds words (catsAt ranges p).elems = m

/-- Every boundary before `b` has been swept: `prev` is the last of them, and
the output says what stands before it. -/
structure Swept (ranges : List RawRange) (words b : Nat) (st : Sweep) : Prop where
  positive : st.active.Positive
  count : ∀ c, st.active.count c = covering ranges c b
  canonical : Canonical st.out
  prev_lt : ∀ x, st.prev = some x → x < b
  last : ∀ x, IsBoundary ranges x → x < b → ∃ y, st.prev = some y ∧ x ≤ y
  out : ∀ p m, HasAt st.out p m ↔ (∃ x, st.prev = some x ∧ p < x) ∧ Stands ranges words p m

section
variable {ranges : List RawRange} {words b : Nat} {st : Sweep}

theorem Swept.init : Swept ranges words 0 {} where
  positive c n h := by cases h
  count c := by
    have : covering ranges c 0 = 0 := by simp [covering]
    rw [this]
    rfl
  canonical := ⟨by simp, List.Pairwise.nil⟩
  prev_lt x h := by cases h
  last x _ h := absurd h (Nat.not_lt_zero x)
  out p m := by simp [HasAt]

theorem Swept.mono {b'} (h : Swept ranges words b st) (hle : b ≤ b')
    (hno : ∀ x, IsBoundary ranges x → b ≤ x → b' ≤ x) : Swept ranges words b' st where
  positive := h.positive
  count c := by rw [h.count, covering_eq_of_between hle hno]
  canonical := h.canonical
  prev_lt x hx := Nat.lt_of_lt_of_le (h.prev_lt x hx) hle
  last x hx hlt := h.last x hx (Nat.lt_of_not_le fun hbx => absurd (hno x hx hbx) (Nat.not_le.2 hlt))
  out := h.out

/-- From the last boundary on, the active categories are those that cover. -/
theorem Swept.keys_eq (h : Swept ranges words b st) {x p : Nat} (hx : st.prev = some x) (hxp : x ≤ p) (hpb : p < b) :
    st.active.keys = (catsAt ranges p).elems := by
  refine List.Pairwise.eq_of_mem_iff (r := (· < ·)) st.active.sorted_keys (catsAt ranges p).sorted_elems fun c => ?_
  have hpos : c ∈ st.active.keys ↔ ∃ r ∈ ranges, r.2.2 = c ∧ r.1 < b ∧ b ≤ r.2.1 + 1 := by
    rw [h.positive.mem_keys, h.count, ← covering_pos]
    omega
  rw [hpos, mem_catsAt]
  refine exists_congr fun r => and_congr_right fun hr => ?_
  -- a start before `b` is at or before `x`, and so is an end before `b`
  have hs : r.1 < b → r.1 ≤ x := fun hlt => by
    obtain ⟨y, hy, hle⟩ := h.last r.1 ⟨r, hr, .inl rfl⟩ hlt
    rwa [← Option.some.inj (hx.symm.trans hy)] at hle
  have he : r.2.1 + 1 < b → r.2.1 + 1 ≤ x := fun hlt => by
    obtain ⟨y, hy, hle⟩ := h.last (r.2.1 + 1) ⟨r, hr, .inr rfl⟩ hlt
    rwa [← Option.some.inj (hx.symm.trans hy)] at hle
  rw [RawRange.Holds, and_comm]
  refine and_congr_left fun _ => ?_
  omega

theorem Swept.not_stands (h : Swept ranges words b st) (hnone : st.prev = none) {p} (hp : p < b) {m} :
    ¬ Stands ranges words p m := by
  intro hm
  obtain ⟨c, hc⟩ := exists_mem_of_ne_nil _ hm.1
  obtain ⟨r, hr, hholds, -⟩ := mem_catsAt.1 hc
  obtain ⟨y, hy, -⟩ := h.last r.1 ⟨r, hr, .inl rfl⟩ (Nat.lt_of_le_of_lt hholds.1 hp)
  rw [hnone] at hy
  cases hy

theorem Swept.emit (h : Swept ranges words b st) (hb : b ≤ infinity) :
    Canonical (st.emit words b) ∧ ∀ p m, HasAt (st.emit words b) p m ↔ p < b ∧ Stands ranges words p m := by
  unfold Sweep.emit
  cases hx : st.prev with
  | none =>
    refine ⟨h.canonical, fun p m => ?_⟩
    rw [h.out, hx]
    simp only [reduceCtorEq, false_and, exists_false, false_iff, not_and]
    exact fun hp => h.not_stands hx hp
  | some x =>
    have hxb := h.prev_lt x hx
    have hold : ∀ p m, HasAt st.out p m ↔ p < x ∧ Stands ranges words p m := by
      intro p m
      rw [h.out, hx]
      simp
    have hnew : ∀ p m, x ≤ p → p < b →
        (Stands ranges words p m ↔ st.active.keys ≠ [] ∧ maskOfIds words st.active.keys = m) := by
      intro p m hxp hpb
      rw [Stands, ← h.keys_eq hx hxp hpb]
    dsimp only
    split
    · next hactive =>
      have hlo : x ≤ b - 1 := by omega
      have hafter : ∀ r ∈ st.out, r.hi < x := by
        intro r hr
        exact ((hold r.hi r.value).1 ⟨r, hr, h.canonical.nonempty r hr, Nat.le_refl _, rfl⟩).1
      refine ⟨canonical_pushRun h.canonical hlo hafter, fun p m => ?_⟩
      rw [hasAt_pushRun h.canonical hlo, hold]
      by_cases hxp : x ≤ p
      · by_cases hpb : p < b
        · have hle : p ≤ b - 1 := by omega
          rw [hnew p m hxp hpb]
          simp [hxp, hpb, hle, Nat.not_lt.2 hxp, hactive.1]
        · have : ¬ p ≤ b - 1 := by omega
          simp [hpb, this, Nat.not_lt.2 hxp]
      · have : p < b := by omega
        simp [hxp, Nat.lt_of_not_le hxp, this]
    · next hactive =>
      have hempty : st.active.keys = [] := by
        by_contra hne
        exact hactive ⟨hne, by omega⟩
      refine ⟨h.canonical, fun p m => ?_⟩
      rw [hold]
      by_cases hxp : x ≤ p
      · simp only [Nat.not_lt.2 hxp, false_and, false_iff, not_and]
        intro hpb
        rw [hnew p m hxp hpb]
        exact fun hm => hm.1 hempty
      · have : p < b := by omega
        simp [Nat.lt_of_not_le hxp, this]

theorem Swept.step (hfit : RangesFit ranges) (h : Swept ranges words b st) (hb : IsBoundary ranges b) :
    Swept ranges words (b + 1) (st.step words (b, deltasAt ranges b)) := by
  have hinf : b ≤ infinity := by
    obtain ⟨r, hr, hbr⟩ := hb
    have := hfit r hr
    omega
  have hsign : ∀ d ∈ deltasAt ranges b, d.2 = 1 ∨ d.2 = -1 := by
    intro d hd
    obtain ⟨r, -, hd⟩ := mem_flatMap.1 hd
    rw [RawRange.deltasAt, mem_append] at hd
    rcases hd with hd | hd
    · split at hd
      · exact .inl (by rw [mem_singleton.1 hd])
      · cases hd
    · split at hd
      · exact .inr (by rw [mem_singleton.1 hd])
      · cases hd
  obtain ⟨hpos, hcount⟩ := foldl_applyDelta hsign h.positive fun c => by
    rw [h.count]
    exact_mod_cast closings_le_covering hfit c b
  obtain ⟨hcanon, hout⟩ := h.emit hinf
  refine ⟨hpos, fun c => ?_, hcanon, ?_, ?_, ?_⟩
  · rw [covering_succ hfit, ← h.count]
    exact hcount c
  · intro x hx
    rw [← Option.some.inj hx]
    exact Nat.lt_succ_self b
  · exact fun x _ hlt => ⟨b, rfl, Nat.le_of_lt_succ hlt⟩
  · intro p m
    rw [Sweep.step, hout]
    simp

theorem Swept.run (hfit : RangesFit ranges) {todo : List (Nat × List Delta)} (hsorted : todo.Pairwise (·.1 < ·.1))
    (hevents : ∀ e ∈ todo, deltasAt ranges e.1 = e.2 ∧ e.2 ≠ [] ∧ b ≤ e.1)
    (hall : ∀ x, IsBoundary ranges x → b ≤ x → x ∈ todo.map (·.1)) (h : Swept ranges words b st) :
    ∃ b', (∀ x, IsBoundary ranges x → x < b') ∧ Swept ranges words b' (todo.foldl (Sweep.step words) st) := by
  induction todo generalizing b st with
  | nil =>
    refine ⟨b, fun x hx => Nat.lt_of_not_le fun hle => ?_, h⟩
    cases hall x hx hle
  | cons e todo ih =>
    obtain ⟨x, ds⟩ := e
    obtain ⟨hlt, hrest⟩ := pairwise_cons.1 hsorted
    obtain ⟨⟨hds, hne, hbx⟩, htodo⟩ := forall_mem_cons.1 hevents
    dsimp only at hds
    subst hds
    have hx := h.mono hbx fun y hy hby => by
      rcases mem_cons.1 (hall y hy hby) with rfl | hy
      · exact Nat.le_refl _
      · obtain ⟨e, he, rfl⟩ := mem_map.1 hy
        exact Nat.le_of_lt (hlt e he)
    refine ih hrest (fun e he => ?_) (fun y hy hle => ?_) (hx.step hfit (deltasAt_ne_nil.1 hne))
    · obtain ⟨hd, hne, -⟩ := htodo e he
      exact ⟨hd, hne, hlt e he⟩
    · rcases mem_cons.1 (hall y hy (by omega)) with hy | hy
      · dsimp only at hy
        omega
      · exact hy

end

/-- The runs are canonical, and say at every position which categories cover it. -/
theorem sweep_spec {ranges : List RawRange} (hfit : RangesFit ranges) (words : Nat) :
    Canonical (sweep ranges words) ∧ ∀ p m, HasAt (sweep ranges words) p m ↔ Stands ranges words p m := by
  rw [sweep]
  split
  · next hnil =>
    subst hnil
    exact ⟨⟨by simp, List.Pairwise.nil⟩, fun p m => by
      simp [HasAt, Stands, catsAt, BTreeSet.elems, BTreeMap.keys, BTreeMap.empty]⟩
  · obtain ⟨b, hb, h⟩ := (@Swept.init ranges words).run hfit (eventsOf ranges).sorted
      (fun e he => ⟨(mem_eventsOf.1 he).1, (mem_eventsOf.1 he).2, Nat.zero_le _⟩) fun x hx _ =>
        mem_map.2 ⟨(x, deltasAt ranges x), mem_eventsOf.2 ⟨rfl, deltasAt_ne_nil.2 hx⟩, rfl⟩
    refine ⟨h.canonical, fun p m => ?_⟩
    rw [h.out, and_iff_right_iff_imp]
    intro hm
    -- what covers a position ends at a boundary after it
    obtain ⟨c, hc⟩ := exists_mem_of_ne_nil _ hm.1
    obtain ⟨r, hr, hholds, -⟩ := mem_catsAt.1 hc
    have hstop : IsBoundary ranges (r.2.1 + 1) := ⟨r, hr, .inr rfl⟩
    obtain ⟨y, hy, hle⟩ := h.last _ hstop (hb _ hstop)
    exact ⟨y, hy, Nat.lt_of_lt_of_le (Nat.lt_succ_of_le hholds.2) hle⟩

theorem sweep_congr {ranges ranges'} (hfit : RangesFit ranges) (hsame : ∀ r, r ∈ ranges ↔ r ∈ ranges')
    (words : Nat) : sweep ranges words = sweep ranges' words := by
  have hcats : ∀ p, catsAt ranges p = catsAt ranges' p := fun p => BTreeSet.ext_elems fun c => by
    simp only [mem_catsAt, hsame]
  obtain ⟨hc, hm⟩ := sweep_spec hfit words
  obtain ⟨hc', hm'⟩ := sweep_spec (fun r hr => hfit r ((hsame r).2 hr)) words
  refine hc.ext hc' fun p m => ?_
  rw [hm, hm', Stands, Stands, hcats]

end Rove.AddrBook
