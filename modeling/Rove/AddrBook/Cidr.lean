/-
Ranges of addresses as CIDR blocks (`addrbook/export.rs`). The loop takes, from
the start of what is left, the largest aligned block that fits. The blocks
it gives are aligned, ascending and cover the range; no fewer blocks do, except
for the whole address space, which the loop cuts in two
(`range_to_cidrs_minimal_iff`).
-/
import Rove.Base.IpDisplay

namespace Rove.AddrBook

open List

/-- A block: its first address, and how many low bits are free. -/
structure Cidr where
  base : Nat
  hostBits : Nat

namespace Cidr

def Holds (c : Cidr) (x : Nat) : Prop := c.base ≤ x ∧ x < c.base + 2 ^ c.hostBits

instance (c : Cidr) (x : Nat) : Decidable (c.Holds x) := inferInstanceAs (Decidable (_ ∧ _))

/-- A block of an address space of `w` bits. -/
structure Aligned (w : Nat) (c : Cidr) : Prop where
  le : c.hostBits ≤ w
  dvd : 2 ^ c.hostBits ∣ c.base

end Cidr

/-- `trailing_zeros` of a number of `w` bits. -/
def trailingZeros : Nat → Nat → Nat
  | 0, _ => 0
  | w + 1, n => if n % 2 = 0 then trailingZeros w (n / 2) + 1 else 0

/-- The inner loop: one bit less until the block is within the range. -/
def fitHostBits (last : Nat → Nat → Nat) (start stop : Nat) : Nat → Nat
  | 0 => 0
  | h + 1 => if last start (2 ^ (h + 1)) ≤ stop ∧ start % 2 ^ (h + 1) = 0 then h + 1 else fitHostBits last start stop h

/-- The outer loop, for addresses of `w` bits and a way to compute the last address of a block. -/
def cidrLoop (w : Nat) (last : Nat → Nat → Nat) (start stop : Nat) : List Cidr :=
  if start ≤ stop then
    let hostBits := fitHostBits last start stop (min (trailingZeros w start) (w - 1))
    if 2 ^ w ≤ start + 2 ^ hostBits then [⟨start, hostBits⟩]
    else ⟨start, hostBits⟩ :: cidrLoop w last (start + 2 ^ hostBits) stop
  else []
termination_by stop + 1 - start
decreasing_by
  have : 0 < 2 ^ fitHostBits last start stop (min (trailingZeros w start) (w - 1)) := Nat.two_pow_pos _
  omega

def ipv4Cidrs (start stop : BitVec 32) : List Cidr :=
  cidrLoop 32 (fun start size => start + size - 1) start.toNat stop.toNat

/-- The last address of a block saturates. -/
def ipv6Cidrs (start stop : BitVec 128) : List Cidr :=
  cidrLoop 128 (fun start size => min (start + (size - 1)) (2 ^ 128 - 1)) start.toNat stop.toNat

def Cidr.toTextV4 (c : Cidr) : Str := Ipv4Addr.toText (BitVec.ofNat 32 c.base) ++ '/' :: showNat (32 - c.hostBits)

def Cidr.toTextV6 (c : Cidr) : Str := Ipv6Addr.toText (BitVec.ofNat 128 c.base) ++ '/' :: showNat (128 - c.hostBits)

def ipv4RangeToCidrs (start stop : BitVec 32) : List Str := (ipv4Cidrs start stop).map Cidr.toTextV4

def ipv6RangeToCidrs (start stop : BitVec 128) : List Str := (ipv6Cidrs start stop).map Cidr.toTextV6

/-! ## The largest block -/

theorem add_le_of_dvd {m a b : Nat} (ha : m ∣ a) (hb : m ∣ b) (h : a < b) : a + m ≤ b := by
  obtain ⟨x, rfl⟩ := ha
  obtain ⟨y, rfl⟩ := hb
  have hlt : x + 1 ≤ y := Nat.lt_of_mul_lt_mul_left h
  calc m * x + m = m * (x + 1) := (Nat.mul_succ m x).symm
    _ ≤ m * y := Nat.mul_le_mul_left m hlt

theorem le_trailingZeros_iff {w n h : Nat} (hw : h ≤ w) : h ≤ trailingZeros w n ↔ 2 ^ h ∣ n := by
  induction w generalizing n h with
  | zero => simp [Nat.le_zero.1 hw]
  | succ w ih =>
    cases h with
    | zero => simp
    | succ h =>
      rw [trailingZeros, pow_succ]
      split
      · next heven =>
        rw [Nat.add_le_add_iff_right, ih (by omega), Nat.dvd_div_iff_mul_dvd (by omega), mul_comm]
      · next hodd =>
        refine iff_of_false (by omega) fun hdvd => hodd ?_
        exact Nat.mod_eq_zero_of_dvd (Nat.dvd_trans (Nat.dvd_mul_left 2 _) hdvd)

/-- How the last address of an aligned block is computed: rightly. -/
def LastOk (w : Nat) (last : Nat → Nat → Nat) : Prop :=
  ∀ start h, start < 2 ^ w → h ≤ w → 2 ^ h ∣ start → last start (2 ^ h) = start + 2 ^ h - 1

theorem lastOk_ipv4 : LastOk 32 fun start size => start + size - 1 := fun _ _ _ _ _ => rfl

theorem lastOk_ipv6 : LastOk 128 fun start size => min (start + (size - 1)) (2 ^ 128 - 1) := by
  intro start h hstart hh hdvd
  have hle := add_le_of_dvd hdvd (Nat.pow_dvd_pow 2 hh) hstart
  dsimp only
  omega

variable {w : Nat} {last : Nat → Nat → Nat} {stop : Nat}

/-- The loop stops at the largest block that is aligned and fits. -/
theorem fitHostBits_spec {start : Nat} (hlast : LastOk w last) (hstart : start < 2 ^ w)
    (hle : start ≤ stop) {m : Nat} (hm : m ≤ w) :
    fitHostBits last start stop m ≤ m ∧ 2 ^ fitHostBits last start stop m ∣ start ∧
      start + 2 ^ fitHostBits last start stop m ≤ stop + 1 ∧
      ∀ h ≤ m, 2 ^ h ∣ start → start + 2 ^ h ≤ stop + 1 → h ≤ fitHostBits last start stop m := by
  induction m with
  | zero => exact ⟨Nat.le_refl _, by simp [fitHostBits], by simp [fitHostBits]; omega, fun h hh _ _ => hh⟩
  | succ m ih =>
    obtain ⟨h₁, h₂, h₃, h₄⟩ := ih (by omega)
    have hiff : (last start (2 ^ (m + 1)) ≤ stop ∧ start % 2 ^ (m + 1) = 0) ↔
        2 ^ (m + 1) ∣ start ∧ start + 2 ^ (m + 1) ≤ stop + 1 := by
      rw [and_comm, ← Nat.dvd_iff_mod_eq_zero]
      refine and_congr_right fun hdvd => ?_
      rw [hlast start (m + 1) hstart hm hdvd]
      omega
    rw [fitHostBits, if_congr hiff rfl rfl]
    split
    · next hfit => exact ⟨Nat.le_refl _, hfit.1, hfit.2, fun h hh _ _ => hh⟩
    · next hfit =>
      refine ⟨by omega, h₂, h₃, fun h hh hdvd hroom => ?_⟩
      rcases Nat.lt_or_ge m h with hlt | hge
      · obtain rfl : h = m + 1 := by omega
        exact absurd ⟨hdvd, hroom⟩ hfit
      · exact h₄ h hge hdvd hroom

theorem cidrLoop_of_fit {start h : Nat} (hle : start ≤ stop)
    (hfit : fitHostBits last start stop (min (trailingZeros w start) (w - 1)) = h) :
    cidrLoop w last start stop =
      if 2 ^ w ≤ start + 2 ^ h then [⟨start, h⟩] else ⟨start, h⟩ :: cidrLoop w last (start + 2 ^ h) stop := by
  rw [cidrLoop, if_pos hle]
  rw [hfit]

/-- One round of the loop. -/
theorem cidrLoop_eq {start : Nat} (hlast : LastOk w last) (hle : start ≤ stop) (hstop : stop < 2 ^ w) :
    ∃ h, cidrLoop w last start stop = ⟨start, h⟩ :: cidrLoop w last (start + 2 ^ h) stop ∧ h ≤ w - 1 ∧ 2 ^ h ∣ start ∧
      start + 2 ^ h ≤ stop + 1 ∧ ∀ h' ≤ w - 1, 2 ^ h' ∣ start → start + 2 ^ h' ≤ stop + 1 → h' ≤ h := by
  obtain ⟨h₁, h₂, h₃, h₄⟩ := fitHostBits_spec hlast (by omega) hle
    (show min (trailingZeros w start) (w - 1) ≤ w by omega)
  refine ⟨fitHostBits last start stop (min (trailingZeros w start) (w - 1)), ?_, by omega, h₂, h₃,
    fun h' hh' hdvd hroom => ?_⟩
  · rw [cidrLoop_of_fit hle rfl]
    split
    · rw [cidrLoop, if_neg (by omega)]
    · rfl
  · exact h₄ h' (Nat.le_min.2 ⟨(le_trailingZeros_iff (by omega)).2 hdvd, hh'⟩) hdvd hroom

/-- What the blocks are: aligned, ascending, within the range, and all of it. -/
structure Covers (w : Nat) (start stop : Nat) (blocks : List Cidr) : Prop where
  aligned : ∀ c ∈ blocks, c.Aligned w
  ascending : blocks.Pairwise fun c d => c.base + 2 ^ c.hostBits ≤ d.base
  exact : ∀ x, (∃ c ∈ blocks, c.Holds x) ↔ start ≤ x ∧ x ≤ stop

theorem cidrLoop_covers (hlast : LastOk w last) (hstop : stop < 2 ^ w) (start : Nat) :
    Covers w start stop (cidrLoop w last start stop) := by
  rcases Nat.lt_or_ge stop start with hlt | hle
  · rw [cidrLoop, if_neg (by omega)]
    exact ⟨by simp, .nil, fun x => by simp; omega⟩
  · obtain ⟨h, heq, hh, hdvd, hroom, -⟩ := cidrLoop_eq hlast hle hstop
    have hrest := cidrLoop_covers hlast hstop (start + 2 ^ h)
    have hfrom : ∀ c ∈ cidrLoop w last (start + 2 ^ h) stop, start + 2 ^ h ≤ c.base := fun c hc =>
      ((hrest.exact c.base).1 ⟨c, hc, Nat.le_refl _, Nat.lt_add_of_pos_right (Nat.two_pow_pos _)⟩).1
    rw [heq]
    refine ⟨forall_mem_cons.2 ⟨⟨by dsimp only; omega, hdvd⟩, hrest.aligned⟩,
      pairwise_cons.2 ⟨hfrom, hrest.ascending⟩, fun x => ?_⟩
    rw [exists_mem_cons_iff, hrest.exact, Cidr.Holds]
    dsimp only
    omega
termination_by stop + 1 - start
decreasing_by omega

/-- Of the blocks that cover a range, one at least is within the first block of
the loop, and the others cover the rest. -/
theorem Covers.rest {start : Nat} {blocks : List Cidr} (hall : ∀ c ∈ blocks, c.Aligned w)
    (hexact : ∀ x, (∃ c ∈ blocks, c.Holds x) ↔ start ≤ x ∧ x ≤ stop) {h : Nat} (hle : start ≤ stop)
    (hdvd : 2 ^ h ∣ start) (hmax : ∀ h' ≤ w, 2 ^ h' ∣ start → start + 2 ^ h' ≤ stop + 1 → h' ≤ h) :
    (blocks.filter (start + 2 ^ h ≤ ·.base)).length + 1 ≤ blocks.length ∧
      ∀ x, (∃ c ∈ blocks.filter (start + 2 ^ h ≤ ·.base), c.Holds x) ↔ start + 2 ^ h ≤ x ∧ x ≤ stop := by
  have hwithin : ∀ c ∈ blocks, start ≤ c.base ∧ c.base + 2 ^ c.hostBits ≤ stop + 1 := by
    intro c hc
    have hpos := Nat.two_pow_pos c.hostBits
    have hfirst := (hexact c.base).1 ⟨c, hc, Nat.le_refl _, by omega⟩
    have hlast := (hexact (c.base + 2 ^ c.hostBits - 1)).1 ⟨c, hc, by omega, by omega⟩
    omega
  -- a block that starts within the first one ends within it
  have hinside : ∀ c ∈ blocks, c.base < start + 2 ^ h → c.base + 2 ^ c.hostBits ≤ start + 2 ^ h := by
    intro c hc hlt
    obtain ⟨hc₁, hc₂⟩ := hwithin c hc
    have hsize : c.hostBits ≤ h := by
      by_contra hbig
      have hbase : c.base = start := by
        by_contra hne
        have := add_le_of_dvd hdvd (Nat.dvd_trans (Nat.pow_dvd_pow 2 (Nat.le_of_not_le hbig)) (hall c hc).dvd)
          (by omega)
        omega
      exact hbig (hmax c.hostBits (hall c hc).le (hbase ▸ (hall c hc).dvd) (hbase ▸ hc₂))
    have hpow := Nat.pow_dvd_pow 2 hsize
    exact add_le_of_dvd (hall c hc).dvd (Nat.dvd_add (Nat.dvd_trans hpow hdvd) hpow) hlt
  refine ⟨?_, fun x => ?_⟩
  · obtain ⟨c, hc, hholds⟩ := (hexact start).2 ⟨Nat.le_refl _, hle⟩
    have hbase : c.base = start := Nat.le_antisymm hholds.1 (hwithin c hc).1
    exact length_filter_lt_length_iff_exists.2 ⟨c, hc, by rw [hbase, decide_eq_true_eq]; omega⟩
  · simp only [mem_filter, decide_eq_true_eq]
    constructor
    · rintro ⟨c, ⟨hc, hfrom⟩, hholds⟩
      have := (hexact x).1 ⟨c, hc, hholds⟩
      exact ⟨hfrom.trans hholds.1, this.2⟩
    · intro hx
      obtain ⟨c, hc, hholds⟩ := (hexact x).2 ⟨by omega, hx.2⟩
      refine ⟨c, ⟨hc, ?_⟩, hholds⟩
      by_contra hlt
      have := hinside c hc (by omega)
      have := hholds.2
      omega

/-- No fewer blocks cover a range that is not the whole space. -/
theorem length_cidrLoop_le (hlast : LastOk w last) (hstop : stop < 2 ^ w) (start : Nat)
    (hpart : ¬ (start = 0 ∧ stop = 2 ^ w - 1)) {blocks : List Cidr} (hall : ∀ c ∈ blocks, c.Aligned w)
    (hexact : ∀ x, (∃ c ∈ blocks, c.Holds x) ↔ start ≤ x ∧ x ≤ stop) :
    (cidrLoop w last start stop).length ≤ blocks.length := by
  rcases Nat.lt_or_ge stop start with hlt | hle
  · rw [cidrLoop, if_neg (by omega)]
    exact Nat.zero_le _
  · obtain ⟨h, heq, hh, hdvd, hroom, hmax⟩ := cidrLoop_eq hlast hle hstop
    have hmax' : ∀ h' ≤ w, 2 ^ h' ∣ start → start + 2 ^ h' ≤ stop + 1 → h' ≤ h := by
      intro h' hh' hdvd' hroom'
      -- a block of all bits would be the whole space
      have hne : h' ≠ w := by
        rintro rfl
        exact hpart ⟨Nat.eq_zero_of_dvd_of_lt hdvd' (by omega), by omega⟩
      exact hmax h' (by omega) hdvd' hroom'
    obtain ⟨hlen, hrest⟩ := Covers.rest hall hexact hle hdvd hmax'
    have := length_cidrLoop_le hlast hstop (start + 2 ^ h) (by omega)
      (fun c hc => hall c (mem_of_mem_filter hc)) hrest
    rw [heq, length_cons]
    omega
termination_by stop + 1 - start
decreasing_by omega

/-- No smaller set of blocks is exactly the range. -/
def Minimal (w : Nat) (start stop : Nat) (blocks : List Cidr) : Prop :=
  ∀ others : List Cidr, (∀ c ∈ others, c.Aligned w) →
    (∀ x, (∃ c ∈ others, c.Holds x) ↔ start ≤ x ∧ x ≤ stop) → blocks.length ≤ others.length

theorem minimal_cidrLoop_iff {start : Nat} (hlast : LastOk w last) (hw : 0 < w) (hstop : stop < 2 ^ w) :
    Minimal w start stop (cidrLoop w last start stop) ↔ ¬ (start = 0 ∧ stop = 2 ^ w - 1) := by
  refine ⟨fun h hwhole => ?_, fun hpart others hall hexact => length_cidrLoop_le hlast hstop start hpart hall hexact⟩
  obtain ⟨rfl, rfl⟩ := hwhole
  have hone := h [⟨0, w⟩] (by simp; exact ⟨Nat.le_refl _, Nat.dvd_zero _⟩) (fun x => by simp [Cidr.Holds]; omega)
  obtain ⟨h, heq, hh, -, hroom, -⟩ := cidrLoop_eq hlast (Nat.zero_le _) hstop
  have hhalf : 2 ^ h < 2 ^ w := Nat.pow_lt_pow_right (by decide) (by omega)
  obtain ⟨_, heq', -⟩ := cidrLoop_eq hlast (show 0 + 2 ^ h ≤ 2 ^ w - 1 by omega) hstop
  rw [heq, heq', length_cons, length_cons, length_singleton] at hone
  omega

/-- Every range is cut into aligned blocks in ascending order that are exactly
the range; no fewer blocks are, if and only if it is not the whole space. -/
theorem range_to_cidrs_minimal_iff (start stop : BitVec 32) (start' stop' : BitVec 128) :
    (∃ blocks, ipv4RangeToCidrs start stop = blocks.map Cidr.toTextV4 ∧ Covers 32 start.toNat stop.toNat blocks ∧
      (Minimal 32 start.toNat stop.toNat blocks ↔ ¬ (start.toNat = 0 ∧ stop.toNat = 2 ^ 32 - 1))) ∧
    ∃ blocks, ipv6RangeToCidrs start' stop' = blocks.map Cidr.toTextV6 ∧ Covers 128 start'.toNat stop'.toNat blocks ∧
      (Minimal 128 start'.toNat stop'.toNat blocks ↔ ¬ (start'.toNat = 0 ∧ stop'.toNat = 2 ^ 128 - 1)) :=
  ⟨⟨_, rfl, cidrLoop_covers lastOk_ipv4 stop.isLt _, minimal_cidrLoop_iff lastOk_ipv4 (by decide) stop.isLt⟩,
    ⟨_, rfl, cidrLoop_covers lastOk_ipv6 stop'.isLt _, minimal_cidrLoop_iff lastOk_ipv6 (by decide) stop'.isLt⟩⟩

/-- The whole IPv4 space is one block, and is given as two. -/
theorem whole_space_is_two_blocks :
    (∀ x, Cidr.Holds ⟨0, 32⟩ x ↔ 0 ≤ x ∧ x ≤ 2 ^ 32 - 1) ∧
      ipv4RangeToCidrs 0 0xffffffff = ["0.0.0.0/1".toList, "128.0.0.0/1".toList] := by
  refine ⟨fun x => by simp [Cidr.Holds]; omega, ?_⟩
  have hcidrs : ipv4Cidrs 0 0xffffffff = [⟨0, 31⟩, ⟨2 ^ 31, 31⟩] := by
    rw [ipv4Cidrs, cidrLoop_of_fit (by decide) (h := 31) (by decide), if_neg (by decide),
      cidrLoop_of_fit (by decide) (h := 31) (by decide), if_pos (by decide)]
    rfl
  rw [ipv4RangeToCidrs, hcidrs]
  decide

end Rove.AddrBook
