/-
The names `normalize_dns_name` gives back are a normal form. `Accepted` is what it
asks of a name once outer whitespace and trailing dots are off; it does not see
case (`accepted_toAsciiLowercase`), so a name in lower case passes again.

`atonNumber` is how `inet_aton` reads a part of an address: octal after a zero,
hexadecimal after `0x`.
-/
import Rove.Sniff.Host

namespace Rove

open List

variable {radix : Nat} {s : Str}

theorem toDigit_toLower (radix : Nat) (c : Char) : toDigit radix c.toLower = toDigit radix c := by
  unfold toDigit
  rw [Str.toNat_toLower]
  by_cases hc : 65 ≤ c.toNat ∧ c.toNat ≤ 90
  · have h₁ : ¬ c.toNat ≤ 57 := by omega
    have h₂ : 97 ≤ c.toNat + 32 ∧ c.toNat + 32 ≤ 122 := by omega
    have h₃ : ¬ 97 ≤ c.toNat := by omega
    have h₄ : ¬ c.toNat + 32 ≤ 57 := by omega
    simp [hc, h₁, h₂, h₃, h₄]
  · simp [hc]

theorem toLower_toLower (c : Char) : c.toLower.toLower = c.toLower := by
  refine Str.toLower_eq_self ?_
  rw [Str.toNat_toLower]
  split <;> omega

theorem ofDigits_toAsciiLowercase (acc : Nat) (s : Str) :
    ofDigits radix acc (Str.toAsciiLowercase s) = ofDigits radix acc s := by
  induction s generalizing acc with
  | nil => rfl
  | cons c s ih =>
    show (toDigit radix c.toLower).bind _ = (toDigit radix c).bind _
    rw [toDigit_toLower]
    congr 1
    funext d
    exact ih _

theorem toLower_eq_iff {c d : Char} (hd : ¬ (97 ≤ d.toNat ∧ d.toNat ≤ 122)) (hd' : ¬ (65 ≤ d.toNat ∧ d.toNat ≤ 90)) :
    c.toLower = d ↔ c = d :=
  ⟨Str.eq_of_toLower_eq hd, by rintro rfl; exact Str.toLower_eq_self hd'⟩

theorem stripPlus_toAsciiLowercase (s : Str) :
    stripPlus (Str.toAsciiLowercase s) = Str.toAsciiLowercase (stripPlus s) := by
  match s with
  | [] => rfl
  | [c] => simp [stripPlus, Str.toAsciiLowercase]
  | c :: d :: s =>
    by_cases hc : c = '+'
    · subst hc
      rfl
    · rw [stripPlus_of_head (s := c :: d :: s) (by simpa using hc), stripPlus_of_head]
      simpa [Str.toAsciiLowercase, toLower_eq_iff] using hc

theorem parseUnsigned_toAsciiLowercase (bits radix : Nat) (s : Str) :
    parseUnsigned bits radix (Str.toAsciiLowercase s) = parseUnsigned bits radix s := by
  have hnil : Str.toAsciiLowercase (stripPlus s) = [] ↔ stripPlus s = [] := map_eq_nil_iff
  simp only [parseUnsigned, stripPlus_toAsciiLowercase, ofDigits_toAsciiLowercase, hnil]

theorem splitOn_toAsciiLowercase (s : Str) :
    (Str.toAsciiLowercase s).splitOn '.' = (s.splitOn '.').map Str.toAsciiLowercase := by
  induction s with
  | nil => rfl
  | cons c s ih =>
    have hdot : (c.toLower == '.') = (c == '.') := by simp [toLower_eq_iff]
    show List.splitOnP _ (c.toLower :: Str.toAsciiLowercase s) = (List.splitOnP _ (c :: s)).map _
    rw [splitOnP_cons_eq_if_modifyHead, splitOnP_cons_eq_if_modifyHead, hdot]
    split
    · exact congrArg _ ih
    · rw [show List.splitOnP _ (Str.toAsciiLowercase s) = (List.splitOnP _ s).map _ from ih]
      cases List.splitOnP _ s <;> rfl

namespace Sniff

/-- How `inet_aton` reads one part of an address. -/
def atonNumber : Str → Option Nat
  | [] => none
  | '0' :: x :: digits => if x = 'x' ∨ x = 'X' then ofDigits 16 0 digits else ofDigits 8 0 (x :: digits)
  | part => ofDigits 10 0 part

/-- The last part fills what is left of the four bytes, each other part is one. -/
def AtonRange : List Nat → Prop
  | [a] => a < 2 ^ 32
  | [a, b] => a < 2 ^ 8 ∧ b < 2 ^ 24
  | [a, b, c] => a < 2 ^ 8 ∧ b < 2 ^ 8 ∧ c < 2 ^ 16
  | [a, b, c, d] => a < 2 ^ 8 ∧ b < 2 ^ 8 ∧ c < 2 ^ 8 ∧ d < 2 ^ 8
  | _ => False

/-- A spelling of an IPv4 address that `inet_aton` takes. -/
def IsAton (host : Str) : Prop :=
  ∃ values, List.Forall₂ (fun part value => atonNumber part = some value) (host.splitOn '.') values ∧ AtonRange values

structure IsLowerLabel (label : Str) : Prop where
  length : 1 ≤ label.length ∧ label.length ≤ 63
  chars : ∀ c ∈ label, (97 ≤ c.toNat ∧ c.toNat ≤ 122) ∨ (48 ≤ c.toNat ∧ c.toNat ≤ 57) ∨ c = '-'
  inner : label.head? ≠ some '-' ∧ label.getLast? ≠ some '-'

/-- What `normalize_dns_name` asks of a name without whitespace and dots around it. -/
structure Accepted (host : Str) : Prop where
  nonempty : host ≠ []
  length : (utf8Bytes host).length ≤ 253
  literal : parseIpAddr host = none
  legacy : isLegacyIpv4Address host = false
  labels : ∀ label ∈ host.splitOn '.', isDnsLabel label = true

variable {host : Str} {c : Char}

theorem parseUnsigned_of_ofDigits {bits n} (hne : s ≠ []) (h : ofDigits radix 0 s = some n) (hn : n < 2 ^ bits) :
    parseUnsigned bits radix s = some n := by
  simp [parseUnsigned, stripPlus_of_head (plain_of_ofDigits h), hne, h, hn]

theorem parseIpv4Number_singleton (c : Char) : parseIpv4Number [c] = parseUnsigned 64 10 [c] := by
  simp [parseIpv4Number, Str.stripPrefix, List.isPrefixOf?]

theorem parseIpv4Number_cons_cons (c d : Char) (digits : Str) : parseIpv4Number (c :: d :: digits) =
    if c = '0' then
      if d = 'x' ∨ d = 'X' then if digits = [] then some 0 else parseUnsigned 64 16 digits
      else (parseUnsigned 64 8 (c :: d :: digits)).or (parseUnsigned 64 10 (c :: d :: digits))
    else parseUnsigned 64 10 (c :: d :: digits) := by
  by_cases hc : c = '0'
  · subst hc
    by_cases hx : d = 'x'
    · simp [parseIpv4Number, Str.stripPrefix, List.isPrefixOf?, hx]
    · by_cases hX : d = 'X'
      · simp [parseIpv4Number, Str.stripPrefix, List.isPrefixOf?, hX]
      · simp [parseIpv4Number, Str.stripPrefix, List.isPrefixOf?, hx, hX, Ne.symm hx, Ne.symm hX]
  · simp [parseIpv4Number, Str.stripPrefix, List.isPrefixOf?, hc, Ne.symm hc]

theorem parseIpv4Number_of_aton {part value} (h : atonNumber part = some value) (hvalue : value < 2 ^ 64) :
    parseIpv4Number part = some value := by
  unfold atonNumber at h
  split at h
  · cases h
  · next x digits =>
    rw [parseIpv4Number_cons_cons, if_pos rfl]
    split at h
    · next hx =>
      rw [if_pos hx]
      split
      · next hnil =>
        subst hnil
        exact h
      · next hnil => exact parseUnsigned_of_ofDigits hnil h hvalue
    · next hx =>
      have hoctal : ofDigits 8 0 ('0' :: x :: digits) = some value := h
      simp [hx, parseUnsigned_of_ofDigits (by simp) hoctal hvalue]
  · next hnil hzero =>
    have hparse : parseUnsigned 64 10 part = some value := parseUnsigned_of_ofDigits hnil h hvalue
    match part with
    | [] => exact absurd rfl hnil
    | [c] => rwa [parseIpv4Number_singleton]
    | c :: d :: digits =>
      rw [parseIpv4Number_cons_cons, if_neg fun hc => hzero d digits (by rw [hc]), hparse]

theorem legacyParts_of_aton {ps vs} (acc : List Nat) (h : List.Forall₂ (fun p v => atonNumber p = some v) ps vs)
    (hv : ∀ v ∈ vs, v < 2 ^ 64) (hlen : acc.length + vs.length ≤ 4) : legacyParts ps acc = some (acc ++ vs) := by
  induction h generalizing acc with
  | nil => simp [legacyParts]
  | cons hp _ ih =>
    obtain ⟨hv, hvs⟩ := forall_mem_cons.1 hv
    simp only [length_cons] at hlen
    rw [legacyParts, if_neg (by omega), parseIpv4Number_of_aton hp hv, Option.bind_some, ih _ hvs (by simp; omega)]
    simp

theorem isLegacy_of_aton (h : IsAton host) : isLegacyIpv4Address host = true := by
  obtain ⟨values, hparts, hrange⟩ := h
  have hall : (∀ v ∈ values, v < 2 ^ 64) ∧ values.length ≤ 4 := by
    unfold AtonRange at hrange
    split at hrange <;> simp_all <;> omega
  rw [isLegacyIpv4Address, legacyParts_of_aton [] hparts hall.1 (by simpa using hall.2)]
  unfold AtonRange at hrange
  split at hrange <;> simp_all <;> omega

/-! ## Case -/

theorem isAsciiAlphanumeric_toLower (c : Char) : isAsciiAlphanumeric c.toLower = isAsciiAlphanumeric c := by
  rw [Bool.eq_iff_iff]
  simp only [isAsciiAlphanumeric, Str.toNat_toLower, Bool.or_eq_true, Bool.and_eq_true, decide_eq_true_eq]
  split <;> omega

theorem isDnsLabel_toAsciiLowercase (label : Str) : isDnsLabel (Str.toAsciiLowercase label) = isDnsLabel label := by
  have hdash : ∀ c : Char, (c.toLower == '-') = (c == '-') := by simp [toLower_eq_iff]
  simp [isDnsLabel, Str.toAsciiLowercase, Option.any_map, Function.comp_def, isAsciiAlphanumeric_toLower, hdash]

theorem parseIpv4Number_toAsciiLowercase (part : Str) :
    parseIpv4Number (Str.toAsciiLowercase part) = parseIpv4Number part := by
  have hzero : ∀ c : Char, c.toLower = '0' ↔ c = '0' := fun c => toLower_eq_iff (by decide) (by decide)
  match part with
  | [] => rfl
  | [c] =>
    rw [parseIpv4Number_singleton]
    exact (parseIpv4Number_singleton _).trans (parseUnsigned_toAsciiLowercase 64 10 [c])
  | c :: d :: digits =>
    have hlower : Str.toAsciiLowercase (c :: d :: digits) = c.toLower :: d.toLower :: Str.toAsciiLowercase digits := rfl
    have hx : (d.toLower = 'x' ∨ d.toLower = 'X') ↔ d = 'x' ∨ d = 'X' := by
      simp only [← Char.toNat_inj, Str.toNat_toLower]
      simp
      split <;> omega
    have hnil : Str.toAsciiLowercase digits = [] ↔ digits = [] := map_eq_nil_iff
    have h8 := parseUnsigned_toAsciiLowercase 64 8 (c :: d :: digits)
    have h10 := parseUnsigned_toAsciiLowercase 64 10 (c :: d :: digits)
    rw [hlower] at h8 h10
    simp only [hlower, parseIpv4Number_cons_cons, h8, h10, hx, hzero, hnil, parseUnsigned_toAsciiLowercase]

theorem legacyParts_toAsciiLowercase (ps : List Str) (acc : List Nat) :
    legacyParts (ps.map Str.toAsciiLowercase) acc = legacyParts ps acc := by
  induction ps generalizing acc with
  | nil => rfl
  | cons p ps ih => simp [legacyParts, parseIpv4Number_toAsciiLowercase, ih]

theorem isLegacy_toAsciiLowercase (host : Str) :
    isLegacyIpv4Address (Str.toAsciiLowercase host) = isLegacyIpv4Address host := by
  rw [isLegacyIpv4Address, isLegacyIpv4Address, splitOn_toAsciiLowercase, legacyParts_toAsciiLowercase]

theorem mem_label (h : ∀ label ∈ host.splitOn '.', isDnsLabel label = true) (hc : c ∈ host) :
    c = '.' ∨ isAsciiAlphanumeric c = true ∨ c = '-' := by
  by_cases hdot : c = '.'
  · exact .inl hdot
  · obtain ⟨label, hlabel, hmem⟩ := Str.exists_mem_splitOn hdot hc
    have hall := h label hlabel
    simp only [isDnsLabel, Bool.and_eq_true, all_eq_true, Bool.or_eq_true, beq_iff_eq] at hall
    exact .inr (hall.1.1.2 c hmem)

theorem ascii_of_labels (h : ∀ label ∈ host.splitOn '.', isDnsLabel label = true) (hc : c ∈ host) : c.toNat < 128 := by
  rcases mem_label h hc with rfl | hc | rfl
  · decide
  · simp [isAsciiAlphanumeric] at hc
    omega
  · decide

/-- An address without a colon has no letters. -/
theorem toLower_of_parseIpAddr {a} (hcolon : ':' ∉ s) (h : parseIpAddr s = some a) (hc : c ∈ s ∨ c.toLower ∈ s) :
    c.toLower = c := by
  have hdigit : ∀ d ∈ s, d = '.' ∨ isDigitOf 10 d = true := by
    intro d hd
    unfold parseIpAddr IpText.parseWith IpText.readIpAddr at h
    rw [IpText.readIpv6_eq_none hcolon] at h
    cases hv4 : IpText.readIpv4 s with
    | none => simp [hv4] at h
    | some r =>
      obtain ⟨v4, rest⟩ := r
      obtain ⟨d₁, d₂, d₃, d₄, h₁, h₂, h₃, h₄, rfl⟩ := IpText.readIpv4_eq_some hv4
      cases rest with
      | cons x rest => simp [hv4] at h
      | nil =>
        have h₁ := h₁.2.1 d
        have h₂ := h₂.2.1 d
        have h₃ := h₃.2.1 d
        have h₄ := h₄.2.1 d
        simp at hd
        tauto
  have hletter : ∀ d ∈ s, ¬ (65 ≤ d.toNat ∧ d.toNat ≤ 90) ∧ ¬ (97 ≤ d.toNat ∧ d.toNat ≤ 122) := by
    intro d hd
    rcases hdigit d hd with rfl | hd
    · decide
    · obtain ⟨v, hv⟩ := Option.isSome_iff_exists.1 hd
      have := Option.filter_eq_some_iff.1 hv
      grind
  refine Str.toLower_eq_self fun hupper => ?_
  rcases hc with hc | hc
  · exact (hletter c hc).1 hupper
  · have hn := Str.toNat_toLower c
    rw [if_pos hupper] at hn
    have := (hletter _ hc).2
    omega

theorem accepted_toAsciiLowercase : Accepted (Str.toAsciiLowercase host) ↔ Accepted host := by
  have hlabels : (∀ label ∈ (Str.toAsciiLowercase host).splitOn '.', isDnsLabel label = true) ↔
      ∀ label ∈ host.splitOn '.', isDnsLabel label = true := by
    simp [splitOn_toAsciiLowercase, isDnsLabel_toAsciiLowercase]
  by_cases hl : ∀ label ∈ host.splitOn '.', isDnsLabel label = true
  · have hlength : (utf8Bytes (Str.toAsciiLowercase host)).length = (utf8Bytes host).length := by
      rw [length_utf8Bytes_ascii fun c => ascii_of_labels (hlabels.2 hl),
        length_utf8Bytes_ascii fun c => ascii_of_labels hl, Str.toAsciiLowercase, length_map]
    -- an address in either case is all digits, so both are the same text
    have hliteral : parseIpAddr (Str.toAsciiLowercase host) = none ↔ parseIpAddr host = none := by
      have hcolon : ∀ {t : Str}, (∀ label ∈ t.splitOn '.', isDnsLabel label = true) → ':' ∉ t := fun ht hmem => by
        simpa [isAsciiAlphanumeric] using mem_label ht hmem
      have hself : ∀ {t a}, t = host ∨ t = Str.toAsciiLowercase host → parseIpAddr t = some a →
          Str.toAsciiLowercase host = host := by
        intro t a ht ha
        have hall : ∀ c ∈ host, c.toLower = c := by
          intro c hc
          rcases ht with rfl | rfl
          · exact toLower_of_parseIpAddr (hcolon hl) ha (.inl hc)
          · exact toLower_of_parseIpAddr (hcolon (hlabels.2 hl)) ha (.inr (mem_map_of_mem hc))
        exact (map_congr_left hall).trans (map_id _)
      rw [← not_iff_not, ← ne_eq, ← ne_eq, Option.ne_none_iff_exists', Option.ne_none_iff_exists']
      refine ⟨fun h => ?_, fun h => ?_⟩
      · obtain ⟨a, ha⟩ := h
        exact ⟨a, hself (.inr rfl) ha ▸ ha⟩
      · obtain ⟨a, ha⟩ := h
        exact ⟨a, (hself (.inl rfl) ha).symm ▸ ha⟩
    have hnonempty : Str.toAsciiLowercase host = [] ↔ host = [] := map_eq_nil_iff
    have hlegacy := isLegacy_toAsciiLowercase host
    refine ⟨fun h => ⟨?_, ?_, ?_, ?_, hl⟩, fun h => ⟨?_, ?_, ?_, ?_, hlabels.2 hl⟩⟩
    · exact fun hnil => h.nonempty (hnonempty.2 hnil)
    · exact hlength ▸ h.length
    · exact hliteral.1 h.literal
    · exact hlegacy ▸ h.legacy
    · exact fun hnil => h.nonempty (hnonempty.1 hnil)
    · exact hlength.symm ▸ h.length
    · exact hliteral.2 h.literal
    · exact hlegacy.symm ▸ h.legacy
  · exact ⟨fun h => absurd (hlabels.1 h.labels) hl, fun h => absurd h.labels hl⟩

/-- The name without whitespace and dots around it. -/
def bareName (s : Str) : Str := Str.trimEndMatches '.' (Str.trim s)

theorem normalizeDnsName_eq_some {n : Str} :
    normalizeDnsName s = some n ↔ Accepted (bareName s) ∧ Str.toAsciiLowercase (bareName s) = n := by
  show (if _ then _ else _) = _ ↔ Accepted (bareName s) ∧ _
  rw [show Str.trimEndMatches '.' (Str.trim s) = bareName s from rfl]
  generalize bareName s = host
  by_cases hl : ∀ label ∈ host.splitOn '.', isDnsLabel label = true
  · have hascii : host.all (fun c => c.toNat < 128) = true := by
      simpa using fun c => ascii_of_labels hl
    have hall : (host.splitOn '.').all isDnsLabel = true := by simpa using hl
    simp only [hascii, hall, if_true, Bool.not_true]
    split
    · next hbad =>
      refine ⟨fun h => (nomatch h), fun h => ?_⟩
      obtain ⟨⟨h₁, h₂, h₃, h₄, -⟩, -⟩ := h
      simp [h₁, h₃, h₄] at hbad
      omega
    · next hgood =>
      simp only [not_or, Nat.not_lt, Bool.not_eq_true, Option.isSome_eq_false_iff, Option.isNone_iff_eq_none] at hgood
      obtain ⟨h₁, h₂, -, h₃, h₄⟩ := hgood
      simp [show Accepted host from ⟨h₁, by omega, h₃, h₄, hl⟩]
  · have hall : (host.splitOn '.').all isDnsLabel = false := by simpa using hl
    simp only [hall]
    refine ⟨fun h => ?_, fun h => absurd h.1.labels hl⟩
    split at h <;> cases h

theorem bareName_of_accepted (h : Accepted host) : bareName host = host := by
  have hws : ∀ c ∈ host, Str.isWhitespace c = false := by
    intro c hc
    rcases mem_label h.labels hc with rfl | hc | rfl
    · decide
    · simp only [isAsciiAlphanumeric, Bool.or_eq_true, Bool.and_eq_true, decide_eq_true_eq] at hc
      simp only [Str.isWhitespace, Bool.or_eq_false_iff, Bool.and_eq_false_iff,
        decide_eq_false_iff_not, beq_eq_false_iff_ne]
      omega
    · decide
  rw [bareName, show Str.trim host = host from @Str.trim_append_word [] host (by simp) hws]
  refine Str.rdropWhile_eq_self_of_last fun c hc => ?_
  by_contra hdot
  obtain rfl : c = '.' := by simpa using hdot
  obtain ⟨front, rfl⟩ : ∃ front, host = front ++ ['.'] := ⟨_, (dropLast_append_getLast? '.' hc).symm⟩
  have hempty := h.labels [] (by
    rw [splitOn_append_cons_self]
    simp)
  cases hempty

theorem isLowerLabel_of_lower {label : Str} (h : isDnsLabel label = true) :
    IsLowerLabel (Str.toAsciiLowercase label) := by
  have hall := h
  rw [← isDnsLabel_toAsciiLowercase] at hall
  simp only [isDnsLabel, Bool.and_eq_true, all_eq_true, Bool.or_eq_true, beq_iff_eq, decide_eq_true_eq] at hall
  obtain ⟨⟨⟨⟨hne, hlen⟩, hchars⟩, hfirst⟩, hlast⟩ := hall
  refine ⟨⟨length_pos_iff.2 hne, hlen⟩, fun c hc => ?_, fun hdash => ?_, fun hdash => ?_⟩
  · rcases hchars c hc with halnum | rfl
    · -- a letter in lower case is none in upper case
      obtain ⟨d, -, rfl⟩ := mem_map.1 hc
      simp only [isAsciiAlphanumeric, Bool.or_eq_true, Bool.and_eq_true, decide_eq_true_eq] at halnum
      have := Str.toNat_toLower d
      split at this <;> omega
    · exact .inr (.inr rfl)
  · simp [hdash, isAsciiAlphanumeric] at hfirst
  · simp [hdash, isAsciiAlphanumeric] at hlast

/-- The text is the name with whitespace around it and dots after it. -/
def Dressed (s name : Str) : Prop :=
  ∃ lead k trail, (∀ c ∈ lead ++ trail, Str.isWhitespace c = true) ∧ s = lead ++ (name ++ replicate k '.') ++ trail

theorem rdropWhile_append_of_pos {p : Char → Bool} {t : Str} (ht : ∀ c ∈ t, p c = true) (s : Str) :
    (s ++ t).rdropWhile p = s.rdropWhile p := by
  rw [List.rdropWhile, List.rdropWhile, reverse_append, dropWhile_append_of_pos (by simpa using ht)]

theorem bareName_of_dressed {name : Str} (hlast : ∀ c, name.getLast? = some c → Str.isWhitespace c = false)
    (h : Dressed s name) : bareName s = (name.dropWhile Str.isWhitespace).rdropWhile (· == '.') := by
  obtain ⟨lead, k, trail, hws, rfl⟩ := h
  rw [forall_mem_append] at hws
  have hdots : (name ++ replicate k '.').dropWhile Str.isWhitespace =
      name.dropWhile Str.isWhitespace ++ replicate k '.' := by
    rw [dropWhile_append]
    split
    · next hempty =>
      rw [isEmpty_iff.1 hempty]
      cases k <;> simp [replicate_succ, show Str.isWhitespace '.' = false from rfl]
    · rfl
  have htrim : Str.trim (lead ++ (name ++ replicate k '.') ++ trail) =
      name.dropWhile Str.isWhitespace ++ replicate k '.' := by
    rw [Str.trim, ← Str.trimBy_rdropWhile, rdropWhile_append_of_pos hws.2, Str.trimBy_rdropWhile, Str.trimBy,
      dropWhile_append_of_pos hws.1, hdots]
    refine Str.rdropWhile_eq_self_of_last fun c hc => ?_
    cases k with
    | zero =>
      obtain ⟨blank, hname⟩ := dropWhile_suffix Str.isWhitespace (l := name)
      refine hlast c ?_
      rw [replicate_zero, append_nil] at hc
      rw [← hname, getLast?_append, hc, Option.some_or]
    | succ k =>
      rw [getLast?_append, getLast?_replicate, if_neg (by simp), Option.some_or] at hc
      cases hc
      rfl
  rw [bareName, htrim]
  exact rdropWhile_append_of_pos (by simp) _

theorem isWhitespace_toLower (c : Char) : Str.isWhitespace c.toLower = Str.isWhitespace c := by
  rw [Bool.eq_iff_iff]
  simp only [Str.isWhitespace, Bool.or_eq_true, Bool.and_eq_true, decide_eq_true_eq, beq_iff_eq, Str.toNat_toLower]
  split <;> omega

theorem toAsciiLowercase_dropWhile (name : Str) :
    Str.toAsciiLowercase ((name.dropWhile Str.isWhitespace).rdropWhile (· == '.')) =
      ((Str.toAsciiLowercase name).dropWhile Str.isWhitespace).rdropWhile (· == '.') := by
  have hdot : ∀ c : Char, (c.toLower == '.') = (c == '.') := by simp [toLower_eq_iff]
  simp [Str.toAsciiLowercase, List.rdropWhile, ← map_reverse, dropWhile_map, Function.comp_def,
    isWhitespace_toLower, hdot]

theorem normalizeDnsName_congr {s' : Str} (h : Str.toAsciiLowercase (bareName s) = Str.toAsciiLowercase (bareName s')) :
    normalizeDnsName s = normalizeDnsName s' := by
  refine Option.ext fun n => ?_
  rw [normalizeDnsName_eq_some, normalizeDnsName_eq_some, ← accepted_toAsciiLowercase, h, accepted_toAsciiLowercase]

/-- What comes back is a name in normal form, no address in any spelling. And
case, whitespace around a name and dots after it do not matter, as long as the
whitespace is outside the dots. -/
theorem normalizeDnsName_canonical (s : Str) :
    (∀ n, normalizeDnsName s = some n → normalizeDnsName n = some n ∧
      (∀ label ∈ n.splitOn '.', IsLowerLabel label) ∧ n.length ≤ 253 ∧ parseIpAddr n = none ∧ ¬ IsAton n) ∧
    ∀ s' name name', Dressed s name → Dressed s' name' → Str.eqIgnoreAsciiCase name name' = true →
      (∀ c, name.getLast? = some c → Str.isWhitespace c = false) → normalizeDnsName s' = normalizeDnsName s := by
  refine ⟨fun n hn => ?_, fun s' name name' hs hs' hcase hlast => ?_⟩
  · obtain ⟨hacc, rfl⟩ := normalizeDnsName_eq_some.1 hn
    generalize bareName s = host at hacc
    have hlower := accepted_toAsciiLowercase.2 hacc
    refine ⟨?_, ?_, ?_, hlower.literal, fun haton => ?_⟩
    · rw [normalizeDnsName_eq_some, bareName_of_accepted hlower]
      exact ⟨hlower, by
        rw [Str.toAsciiLowercase, Str.toAsciiLowercase, map_map]
        exact map_congr_left fun c _ => toLower_toLower c⟩
    · intro label hlabel
      rw [splitOn_toAsciiLowercase] at hlabel
      obtain ⟨part, hpart, rfl⟩ := mem_map.1 hlabel
      exact isLowerLabel_of_lower (hacc.labels part hpart)
    · rw [← length_utf8Bytes_ascii fun c => ascii_of_labels hlower.labels]
      exact hlower.length
    · exact absurd (isLegacy_of_aton haton) (by simp [hlower.legacy])
  · have heq : Str.toAsciiLowercase name = Str.toAsciiLowercase name' := by simpa [Str.eqIgnoreAsciiCase] using hcase
    have hlast' : ∀ c, name'.getLast? = some c → Str.isWhitespace c = false := by
      intro c hc
      have hlower : (Str.toAsciiLowercase name).getLast? = some c.toLower := by
        rw [heq, Str.toAsciiLowercase, getLast?_map, hc, Option.map_some]
      obtain ⟨d, hd, hdc⟩ := Str.getLast?_toAsciiLowercase hlower
      rw [← isWhitespace_toLower, ← hdc, isWhitespace_toLower]
      exact hlast d hd
    refine normalizeDnsName_congr ?_
    rw [bareName_of_dressed hlast hs, bareName_of_dressed hlast' hs', toAsciiLowercase_dropWhile,
      toAsciiLowercase_dropWhile, heq]

theorem normalizeDnsName_canonical_sample :
    normalizeDnsName " Rove.Example. " = some "rove.example".toList ∧ ¬ IsAton "rove.example" ∧
      normalizeDnsName "rove.example" = normalizeDnsName " Rove.Example. " := by
  have hn : normalizeDnsName " Rove.Example. " = some "rove.example".toList := by decide +kernel
  have hdressed : Dressed " Rove.Example. " "Rove.Example" :=
    ⟨[' '], 1, [' '], forall_mem_cons.2 ⟨rfl, forall_mem_singleton.2 rfl⟩, rfl⟩
  have hbare : Dressed "rove.example" "rove.example" := ⟨[], 0, [], by simp, rfl⟩
  have hlast : ∀ c, "Rove.Example".toList.getLast? = some c → Str.isWhitespace c = false := by
    intro c hc
    obtain rfl : 'e' = c := Option.some.inj hc
    rfl
  obtain ⟨hall, hsame⟩ := normalizeDnsName_canonical " Rove.Example. "
  exact ⟨hn, (hall _ hn).2.2.2.2, hsame _ _ _ hdressed hbare (by decide) hlast⟩

/-- Whitespace between the name and its dots is refused, whitespace alone is not. -/
theorem space_before_dot_refused :
    normalizeDnsName "rove.example " = some "rove.example".toList ∧ normalizeDnsName "rove.example ." = none := by
  decide +kernel

end Sniff

end Rove
