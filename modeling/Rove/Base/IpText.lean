/-
IP addresses read back from their text: a dotted quad as IPv4, and the
`::ffff:` spelling of an IPv4 address as the IPv6 address it is mapped to; and
what the readers do not take. (`Rove.Base.IpDisplay` has all IPv6 addresses.)
-/
import Rove.Base.IpAddr

namespace Rove

open List Option

/-! ## Octets and groups -/

theorem Ipv4Addr.octet_lt (a : Ipv4Addr) (i : Nat) : a.octet i < 256 := Nat.mod_lt _ (by omega)

theorem Ipv4Addr.new_octets (a : Ipv4Addr) : Ipv4Addr.new (a.octet 0) (a.octet 1) (a.octet 2) (a.octet 3) = a := by
  apply BitVec.eq_of_toNat_eq
  simp only [Ipv4Addr.new, Ipv4Addr.octet, BitVec.toNat_ofNat]
  omega

theorem Ipv4Addr.toNat_toIpv6Mapped (a : Ipv4Addr) : a.toIpv6Mapped.toNat = 0xffff * 2 ^ 32 + a.toNat := by
  rw [Ipv4Addr.toIpv6Mapped, BitVec.toNat_ofNat]
  omega

@[simp] theorem Ipv4Addr.toIpv4Mapped_toIpv6Mapped (a : Ipv4Addr) : a.toIpv6Mapped.toIpv4Mapped = some a := by
  unfold Ipv6Addr.toIpv4Mapped
  rw [Ipv4Addr.toNat_toIpv6Mapped, if_pos (by omega)]
  congr 1
  apply BitVec.eq_of_toNat_eq
  rw [BitVec.toNat_ofNat]
  omega

theorem Ipv6Addr.eq_toIpv6Mapped {a : Ipv6Addr} {v4 : Ipv4Addr}
    (h : a.toIpv4Mapped = some v4) : a = v4.toIpv6Mapped := by
  unfold Ipv6Addr.toIpv4Mapped at h
  split at h
  · next hmapped =>
    apply BitVec.eq_of_toNat_eq
    rw [Ipv4Addr.toNat_toIpv6Mapped, ← Option.some.inj h, BitVec.toNat_ofNat]
    omega
  · cases h

namespace IpText

/-! ## Reading a number -/

/-- The text does not go on with a digit. -/
def EndsNumber (radix : Nat) (s : Str) : Prop := ∀ c, s.head? = some c → isDigitOf radix c = false

variable {radix : Nat} {rest s : Str}

theorem takeWhile_digits {ds} (hds : ∀ c ∈ ds, isDigitOf radix c = true)
    (hrest : EndsNumber radix rest) : (ds ++ rest).takeWhile (isDigitOf radix) = ds := by
  rw [takeWhile_append_of_pos hds]
  cases rest with
  | nil => simp
  | cons c rest => simp [hrest c rfl]

theorem dropWhile_digits {radix ds rest} (hds : ∀ c ∈ ds, isDigitOf radix c = true)
    (hrest : EndsNumber radix rest) : (ds ++ rest).dropWhile (isDigitOf radix) = rest := by
  rw [dropWhile_append_of_pos hds]
  cases rest with
  | nil => simp
  | cons c rest => simp [hrest c rfl]

/-- Digits that the text does not continue are read as the number they denote. -/
theorem readNumber_append {radix maxDigits bound n zeros ds rest}
    (hds : ∀ c ∈ ds, isDigitOf radix c = true) (hrest : EndsNumber radix rest) (hne : ds ≠ [])
    (hlen : ds.length ≤ maxDigits) (hlead : ds.head? = some '0' → zeros = true ∨ ds.length ≤ 1)
    (hval : ofDigits radix 0 ds = some n) (hn : n < bound) :
    readNumber radix maxDigits zeros bound (ds ++ rest) = some (n, rest) := by
  unfold readNumber
  simp only [takeWhile_digits hds hrest, dropWhile_digits hds hrest, hval]
  rw [if_neg (by simpa using ⟨hlen, hne⟩), if_neg]
  · simp [hn]
  · simp only [Bool.and_eq_true, Bool.not_eq_true', beq_iff_eq, decide_eq_true_eq, not_and]
    intro hz h1
    have := hlead hz.2
    simp only [hz.1, Bool.false_eq_true, false_or] at this
    omega

theorem readNumber_eq_none {maxDigits bound zeros} (h : EndsNumber radix s) :
    readNumber radix maxDigits zeros bound s = none := by
  have hdigits : ([] ++ s).takeWhile (isDigitOf radix) = [] := takeWhile_digits (by simp) h
  rw [nil_append] at hdigits
  unfold readNumber
  simp [hdigits]

theorem isDigitOf_showNat {n} : ∀ c ∈ showNat n, isDigitOf 10 c = true := by
  intro c hc
  have h := isDigit_of_mem_showNat hc
  unfold isDigitOf toDigit
  rw [if_pos h]
  simp
  omega

/-- Decimal output of an octet has at most three digits and no leading zero. -/
theorem showNat_octet : ∀ n < 256, (showNat n).length ≤ 3 ∧
    ((showNat n).head? = some '0' → (showNat n).length ≤ 1) := by
  decide +kernel

theorem readNumber_showNat {n} (hn : n < 256) (hrest : EndsNumber 10 rest) :
    readNumber 10 3 false 256 (showNat n ++ rest) = some (n, rest) := by
  obtain ⟨hlen, hzero⟩ := showNat_octet n hn
  exact readNumber_append isDigitOf_showNat hrest (showNat_ne_nil n) hlen (fun h => .inr (hzero h))
    (ofDigits_showNat n) hn

theorem endsNumber_cons {c} (h : isDigitOf radix c = false) (s : Str) :
    EndsNumber radix (c :: s) := by
  intro d hd
  exact Option.some.inj hd ▸ h

theorem endsNumber_nil : EndsNumber radix [] := by
  intro c hc
  cases hc

/-! ## Reading an address -/

theorem readIpv4_toText (a : Ipv4Addr) (hrest : EndsNumber 10 rest) :
    readIpv4 (a.toText ++ rest) = some (a, rest) := by
  have hdot : ∀ s, EndsNumber 10 ('.' :: s) := endsNumber_cons (by decide)
  have hnum := fun i {s : Str} (hs : EndsNumber 10 s) => readNumber_showNat (a.octet_lt i) hs
  simp only [Ipv4Addr.toText, append_assoc, cons_append]
  unfold readIpv4
  simp only [readOctet, readSep, readGivenChar, if_true, bind_some, bind_eq_bind, hnum _ (hdot _),
    hnum 3 hrest, Nat.one_ne_zero, OfNat.ofNat_ne_zero, if_false, Ipv4Addr.new_octets]
  rfl

theorem parseIpAddr_toText (a : Ipv4Addr) : parseIpAddr a.toText = some (.v4 a) := by
  have h := readIpv4_toText a endsNumber_nil
  rw [append_nil] at h
  unfold parseIpAddr parseWith readIpAddr
  rw [h]

theorem readIpv4_eq_none (h : EndsNumber 10 s) : readIpv4 s = none := by
  unfold readIpv4 readOctet readSep
  simp [readNumber_eq_none h]

theorem readGroups_mapped (a : Ipv4Addr) (hrest : EndsNumber 10 rest) :
    readGroups 0 7 ("ffff:" ++ (a.toText ++ rest)) = ([65535, a.toNat / 65536, a.toNat % 65536], true, rest) := by
  have hf : EndsNumber 10 ("ffff:" ++ (a.toText ++ rest)) := endsNumber_cons (by decide) _
  have hnum : readNumber 16 4 true 65536 ("ffff:" ++ (a.toText ++ rest)) = some (65535, ':' :: (a.toText ++ rest)) := by
    have hd : ∀ c ∈ "ffff".toList, isDigitOf 16 c = true := all_eq_true.1 (by decide)
    have hcolon : EndsNumber 16 (':' :: (a.toText ++ rest)) := endsNumber_cons (by decide) _
    exact readNumber_append hd hcolon (by decide) (by decide) (by decide) (by decide) (by decide)
  rw [readGroups]
  simp only [readSep, if_true, bind_some, readIpv4_eq_none hf, hnum, ite_self]
  rw [readGroups]
  simp [readSep, readGivenChar, readIpv4_toText a hrest]

theorem ofGroups_mapped (a : Ipv4Addr) :
    Ipv6Addr.ofGroups ([] ++ replicate 5 0 ++ [65535, a.toNat / 65536, a.toNat % 65536]) = a.toIpv6Mapped := by
  apply BitVec.eq_of_toNat_eq
  rw [Ipv4Addr.toNat_toIpv6Mapped]
  simp only [Ipv6Addr.ofGroups, BitVec.toNat_ofNat, nil_append, replicate, cons_append,
    foldl_cons, foldl_nil]
  omega

/-- The mapped spelling of an IPv4 address is read as the mapped IPv6 address. -/
theorem readIpv6_mapped (a : Ipv4Addr) (hrest : EndsNumber 10 rest) :
    readIpv6 ("::ffff:" ++ (a.toText ++ rest)) = some (a.toIpv6Mapped, rest) := by
  have hcolons : EndsNumber 10 ("::ffff:" ++ (a.toText ++ rest)) := endsNumber_cons (by decide) _
  have hhead : readGroups 0 8 ("::ffff:" ++ (a.toText ++ rest)) = ([], false, "::ffff:" ++ (a.toText ++ rest)) := by
    have hhex : EndsNumber 16 ("::ffff:" ++ (a.toText ++ rest)) := endsNumber_cons (by decide) _
    rw [readGroups]
    simp only [readSep, if_true, bind_some, readIpv4_eq_none hcolons, readNumber_eq_none hhex, ite_self]
  unfold readIpv6
  rw [hhead]
  obtain ⟨t, ht, hg⟩ : ∃ t, "::ffff:" ++ (a.toText ++ rest) = ':' :: ':' :: t ∧
      readGroups 0 7 t = ([65535, a.toNat / 65536, a.toNat % 65536], true, rest) := ⟨_, rfl, readGroups_mapped a hrest⟩
  rw [ht, ← ofGroups_mapped]
  simp [readGivenChar, hg]

/-! ## What the readers accept -/

theorem readNumber_eq_some {n} (h : readNumber 10 3 false 256 s = some (n, rest)) :
    ∃ ds, s = ds ++ rest ∧ ds ≠ [] ∧ (∀ c ∈ ds, isDigitOf 10 c = true) ∧ (ds.head? = some '0' → ds.length ≤ 1) := by
  unfold readNumber at h
  dsimp only at h
  split at h
  · cases h
  · next hlen =>
    split at h
    · cases h
    · next hlead =>
      obtain ⟨m, -, hm⟩ := map_eq_some_iff.1 h
      cases hm
      refine ⟨s.takeWhile (isDigitOf 10), (takeWhile_append_dropWhile).symm, ?_, ?_, ?_⟩
      · intro hnil
        simp [hnil] at hlen
      · exact fun c hc => mem_takeWhile_imp hc
      · intro h0
        simp only [h0, Bool.not_false, beq_self_eq_true, Bool.and_self, Bool.true_and, decide_eq_true_eq] at hlead
        omega

/-- A digit string that a dotted quad may have between its dots. -/
def IsOctetText (ds : Str) : Prop :=
  ds ≠ [] ∧ (∀ c ∈ ds, isDigitOf 10 c = true) ∧ (ds.head? = some '0' → ds.length ≤ 1)

theorem readOctet_eq_some {i n} (h : readOctet i s = some (n, rest)) :
    ∃ ds, IsOctetText ds ∧ s = (if i = 0 then ds else '.' :: ds) ++ rest := by
  obtain ⟨s', hsep, hnum⟩ := bind_eq_some_iff.1 h
  obtain ⟨ds, rfl, hds⟩ := readNumber_eq_some hnum
  refine ⟨ds, hds, ?_⟩
  unfold readSep at hsep
  split at hsep
  · next hi => rw [if_pos hi, Option.some.inj hsep]
  · next hi =>
    rw [if_neg hi]
    unfold readGivenChar at hsep
    split at hsep
    · split at hsep
      · next hc => rw [hc, Option.some.inj hsep, cons_append]
      · cases hsep
    · cases hsep

/-- Only four octets with dots between them are read as an IPv4 address. -/
theorem readIpv4_eq_some {a} (h : readIpv4 s = some (a, rest)) :
    ∃ d₁ d₂ d₃ d₄, IsOctetText d₁ ∧ IsOctetText d₂ ∧ IsOctetText d₃ ∧ IsOctetText d₄ ∧
      s = d₁ ++ '.' :: (d₂ ++ '.' :: (d₃ ++ '.' :: (d₄ ++ rest))) := by
  obtain ⟨⟨n₁, s₁⟩, h₁, h⟩ := bind_eq_some_iff.1 h
  obtain ⟨⟨n₂, s₂⟩, h₂, h⟩ := bind_eq_some_iff.1 h
  obtain ⟨⟨n₃, s₃⟩, h₃, h⟩ := bind_eq_some_iff.1 h
  obtain ⟨⟨n₄, s₄⟩, h₄, h⟩ := bind_eq_some_iff.1 h
  cases h
  obtain ⟨d₁, hd₁, rfl⟩ := readOctet_eq_some h₁
  obtain ⟨d₂, hd₂, rfl⟩ := readOctet_eq_some h₂
  obtain ⟨d₃, hd₃, rfl⟩ := readOctet_eq_some h₃
  obtain ⟨d₄, hd₄, rfl⟩ := readOctet_eq_some h₄
  exact ⟨d₁, d₂, d₃, d₄, hd₁, hd₂, hd₃, hd₄, by simp⟩

theorem readIpv6_eq_none (h : ':' ∉ s) : readIpv6 s = none := by
  have hchar : ∀ t : Str, ':' ∉ t → readGivenChar ':' t = none := by
    intro t ht
    cases t with
    | nil => rfl
    | cons c t =>
      have hc : c ≠ ':' := fun hc => ht (by simp [hc])
      simp [readGivenChar, hc]
  unfold readIpv6
  rw [readGroups]
  cases hv4 : readIpv4 s with
  | some r => simp [readSep, hv4]
  | none =>
    cases hnum : readNumber 16 4 true 65536 s with
    | none => simp [readSep, hv4, hnum, hchar s h]
    | some r =>
      obtain ⟨g, rest⟩ := r
      have hrest : ':' ∉ rest := by
        unfold readNumber at hnum
        dsimp only at hnum
        split at hnum
        · cases hnum
        · split at hnum
          · cases hnum
          · obtain ⟨m, -, hm⟩ := map_eq_some_iff.1 hnum
            cases hm
            exact fun hmem => h ((dropWhile_sublist _).subset hmem)
      have hstop : readGroups 1 7 rest = ([], false, rest) := by
        rw [readGroups]
        simp [readSep, hchar rest hrest]
      simp [readSep, hv4, hnum, hstop, hchar rest hrest]

theorem ofGroups_group (a : Ipv6Addr) : Ipv6Addr.ofGroups ((List.range 8).map a.group) = a := by
  apply BitVec.eq_of_toNat_eq
  simp only [List.range, List.range.loop, map_cons, map_nil, Ipv6Addr.ofGroups,
    foldl_cons, foldl_nil, Ipv6Addr.group, BitVec.toNat_ofNat]
  omega

end IpText

open IpText

/-- No address starts with a character that is neither a digit nor a colon. -/
theorem parseIpAddr_cons {c : Char} (h10 : isDigitOf 10 c = false) (h16 : isDigitOf 16 c = false)
    (hcolon : c ≠ ':') (s : Str) :
    parseIpAddr (c :: s) = none := by
  have hgroups : readGroups 0 8 (c :: s) = ([], false, c :: s) := by
    have hdec : EndsNumber 10 (c :: s) := endsNumber_cons h10 _
    have hhex : EndsNumber 16 (c :: s) := endsNumber_cons h16 _
    rw [readGroups]
    simp only [readSep, if_true, bind_some, readIpv4_eq_none hdec, readNumber_eq_none hhex, ite_self]
  unfold parseIpAddr parseWith readIpAddr readIpv6
  rw [readIpv4_eq_none (endsNumber_cons h10 _), hgroups]
  simp [readGivenChar, hcolon]

theorem parseIpAddr_dot (s : Str) : parseIpAddr ('.' :: s) = none :=
  parseIpAddr_cons (by decide) (by decide) (by decide) s

end Rove
