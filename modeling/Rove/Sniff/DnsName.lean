/-
The older ways to write an IPv4 address, which `sniff.rs` keeps out of DNS
names: fewer than four parts, hexadecimal and octal numbers. The standard
library's parser takes none of them (`parseIpAddr_of_oldForm`), a resolver
may take them all.
-/
import Rove.Base.IpText

namespace Rove.Sniff

open List

def parseIpv4Number (part : Str) : Option Nat :=
  if part = [] then none
  else
    match (Str.stripPrefix "0x" part).or (Str.stripPrefix "0X" part) with
    | some hex => if hex = [] then some 0 else parseUnsigned 64 16 hex
    | none =>
      if part.length > 1 && part.head? == some '0' then (parseUnsigned 64 8 part).or (parseUnsigned 64 10 part)
      else parseUnsigned 64 10 part

/-- The loop of `is_legacy_ipv4_address`: the values of at most four parts. -/
def legacyParts : List Str → List Nat → Option (List Nat)
  | [], parts => some parts
  | part :: rest, parts =>
    if parts.length = 4 then none
    else (parseIpv4Number part).bind fun value => legacyParts rest (parts ++ [value])

def isLegacyIpv4Address (host : Str) : Bool :=
  match legacyParts (host.splitOn '.') [] with
  | some [a] => a ≤ 0xffffffff
  | some [a, b] => a ≤ 0xff && b ≤ 0x00ffffff
  | some [a, b, c] => a ≤ 0xff && b ≤ 0xff && c ≤ 0xffff
  | some [a, b, c, d] => a ≤ 0xff && b ≤ 0xff && c ≤ 0xff && d ≤ 0xff
  | _ => false

/-- The address such a spelling stands for: every part but the last is one
octet, and the last fills what is left. -/
def legacyAddr (host : Str) : Ipv4Addr :=
  match legacyParts (host.splitOn '.') [] with
  | some [a] => BitVec.ofNat 32 a
  | some [a, b] => BitVec.ofNat 32 (a * 2 ^ 24 + b)
  | some [a, b, c] => BitVec.ofNat 32 (a * 2 ^ 24 + b * 2 ^ 16 + c)
  | some [a, b, c, d] => Ipv4Addr.new a b c d
  | _ => 0

/-- The spelling is not a plain dotted quad: it has fewer than four parts, or a
part in hexadecimal or octal. -/
def OldForm (host : Str) : Prop :=
  (host.splitOn '.').length < 4 ∨
    ∃ part ∈ host.splitOn '.', ("0x" <+: part ∨ "0X" <+: part) ∨
      (part.length > 1 ∧ part.head? = some '0')

instance (host : Str) : Decidable (OldForm host) := inferInstanceAs (Decidable (_ ∨ _))

/-! ## Old spellings are no IP literals -/

theorem legacyParts_isSome {ps acc vs} (h : legacyParts ps acc = some vs) :
    ∀ part ∈ ps, (parseIpv4Number part).isSome = true := by
  induction ps generalizing acc with
  | nil => simp
  | cons p ps ih =>
    rw [legacyParts] at h
    split at h
    · cases h
    · obtain ⟨v, hv, h⟩ := Option.bind_eq_some_iff.1 h
      intro part hpart
      rcases mem_cons.1 hpart with rfl | hmem
      · simp [hv]
      · exact ih h part hmem

theorem colon_notMem_of_parseUnsigned {bits radix n s} (h : parseUnsigned bits radix s = some n) : ':' ∉ s := by
  intro hmem
  have hdigits := isDigitOf_of_ofDigits (parseUnsigned_eq_some h).1 ':' (mem_stripPlus (by decide) hmem)
  cases hdigits

theorem colon_notMem_of_parseIpv4Number {part} (h : (parseIpv4Number part).isSome = true) : ':' ∉ part := by
  obtain ⟨n, hn⟩ := Option.isSome_iff_exists.1 h
  unfold parseIpv4Number at hn
  split at hn
  · cases hn
  · split at hn
    · next hex hhex =>
      have hno : ':' ∉ hex := by
        split at hn
        · next hnil => simp [hnil]
        · exact colon_notMem_of_parseUnsigned hn
      have hpart : "0x" ++ hex = part ∨ "0X" ++ hex = part := by
        rcases Option.or_eq_some_iff.1 hhex with h | ⟨-, h⟩
        · exact .inl (isPrefixOf?_eq_some_iff_append_eq.1 h)
        · exact .inr (isPrefixOf?_eq_some_iff_append_eq.1 h)
      rcases hpart with rfl | rfl
      · simpa using hno
      · simpa using hno
    · split at hn
      · cases h8 : parseUnsigned 64 8 part with
        | some v => exact colon_notMem_of_parseUnsigned h8
        | none =>
          rw [h8] at hn
          exact colon_notMem_of_parseUnsigned hn
      · exact colon_notMem_of_parseUnsigned hn

theorem colon_notMem_of_legacy {host} (h : isLegacyIpv4Address host = true) : ':' ∉ host := by
  unfold isLegacyIpv4Address at h
  cases hp : legacyParts (host.splitOn '.') [] with
  | none => simp [hp] at h
  | some vs =>
    intro hmem
    obtain ⟨part, hpart, hc⟩ := Str.exists_mem_splitOn (show ':' ≠ '.' by decide) hmem
    exact colon_notMem_of_parseIpv4Number (legacyParts_isSome hp part hpart) hc

theorem parseIpAddr_of_oldForm {host} (h : isLegacyIpv4Address host = true) (hold : OldForm host) :
    parseIpAddr host = none := by
  have hv6 := IpText.readIpv6_eq_none (colon_notMem_of_legacy h)
  unfold parseIpAddr IpText.parseWith IpText.readIpAddr
  cases hv4 : IpText.readIpv4 host with
  | none => simp [hv6]
  | some r =>
    obtain ⟨a, rest⟩ := r
    cases rest with
    | cons c rest => simp
    | nil =>
      -- four octets, none of them old
      exfalso
      obtain ⟨d₁, d₂, d₃, d₄, h₁, h₂, h₃, h₄, rfl⟩ := IpText.readIpv4_eq_some hv4
      have hdot : ∀ {d : Str}, IpText.IsOctetText d → '.' ∉ d := by
        intro d hd hm
        exact absurd (hd.2.1 '.' hm) (by decide)
      have hparts : (d₁ ++ '.' :: (d₂ ++ '.' :: (d₃ ++ '.' :: (d₄ ++ [])))).splitOn '.' = [d₁, d₂, d₃, d₄] := by
        rw [splitOn_append_cons_self_of_not_mem (hdot h₁), splitOn_append_cons_self_of_not_mem (hdot h₂),
          splitOn_append_cons_self_of_not_mem (hdot h₃), append_nil, splitOn_eq_singleton (hdot h₄)]
      have hoctet : ∀ part ∈ [d₁, d₂, d₃, d₄], IpText.IsOctetText part := by
        simp [h₁, h₂, h₃, h₄]
      unfold OldForm at hold
      rw [hparts] at hold
      rcases hold with hlen | ⟨part, hpart, hform⟩
      · simp at hlen
      · obtain ⟨-, hdigits, hzero⟩ := hoctet part hpart
        rcases hform with (hx | hx) | ⟨hlen, hhead⟩
        · exact absurd (hdigits 'x' (hx.subset (by decide))) (by decide)
        · exact absurd (hdigits 'X' (hx.subset (by decide))) (by decide)
        · have := hzero hhead
          omega

end Rove.Sniff
