/-
Keys as text (`parse_psk`). The length is counted in bytes, the text is cut every
two bytes and each piece is read by `u8::from_str_radix`, which takes a `+`: so some
texts are keys that are no hexadecimal digits, and some cut a character in two.

`parsePsk_exact_iff`: for which texts the function is what its comment says.
-/
import Mathlib.Data.Nat.Find
import Rove.Subnetra.Config

namespace Rove.Subnetra

open List

/-- The bytes that hexadecimal digits denote, two digits a byte. -/
def hexBytes : Str → Option Bytes
  | [] => some []
  | [_] => none
  | a :: b :: s =>
    match toDigit 16 a, toDigit 16 b with
    | some x, some y => (hexBytes s).map (UInt8.ofNat (x * 16 + y) :: ·)
    | _, _ => none

/-- What a slice off a character boundary says before the process ends. -/
def slicePanic : String := "byte index is not a char boundary"

/-- What the comment of `parse_psk` says: 64 hexadecimal digits and nothing else
are a key, of the bytes they denote. And it does not panic. -/
def ReadsExactly (s : Str) : Prop :=
  (∀ key, parsePsk s = .ok key ↔ (Str.trim s).length = keyLen * 2 ∧ hexBytes (Str.trim s) = some key) ∧
    parsePsk s ≠ .error slicePanic

/-- A piece of two bytes that `u8::from_str_radix` reads. -/
def PairReads (t : Str) (i : Nat) : Prop :=
  ∃ a b, slicePair t (i * 2) = some [a, b] ∧ (isDigitOf 16 a = true ∨ a = '+') ∧ isDigitOf 16 b = true

/-- A text of 64 bytes is all digits, or has a piece that is not read before
any piece that is no text. -/
def PlainKey (t : Str) : Prop :=
  (utf8Bytes t).length = keyLen * 2 → (∀ c ∈ t, isDigitOf 16 c = true) ∨
    ∃ i < keyLen, ¬ PairReads t i ∧ ∀ j ≤ i, slicePair t (j * 2) ≠ none

variable {t : Str} {i : Nat}

theorem toNat_lt_of_isDigitOf {c} (h : isDigitOf 16 c = true) : c.toNat < 128 := by
  by_contra hc
  have h₁ : ¬ (48 ≤ c.toNat ∧ c.toNat ≤ 57) := by omega
  have h₂ : ¬ (97 ≤ c.toNat ∧ c.toNat ≤ 122) := by omega
  have h₃ : ¬ (65 ≤ c.toNat ∧ c.toNat ≤ 90) := by omega
  simp [isDigitOf, toDigit, h₁, h₂, h₃] at h

theorem toDigit_lt {c d} (h : toDigit 16 c = some d) : d < 16 := by
  simpa using (Option.filter_eq_some_iff.1 h).2

theorem parseUnsigned_pair {a b x y} (ha : toDigit 16 a = some x) (hb : toDigit 16 b = some y) :
    parseUnsigned 8 16 [a, b] = some (x * 16 + y) := by
  have hdigits : ofDigits 16 0 [a, b] = some (x * 16 + y) := by simp [ofDigits, ha, hb]
  have := toDigit_lt ha
  have := toDigit_lt hb
  simp only [parseUnsigned, stripPlus_of_head (plain_of_ofDigits hdigits), hdigits]
  simp
  omega

theorem exists_pskByte_iff (hi : i * 2 + 2 ≤ (utf8Bytes t).length) :
    (∃ b, pskByte t i = .ok b) ↔ PairReads t i := by
  refine ⟨fun h => ?_, fun h => ?_⟩
  · obtain ⟨byte, h⟩ := h
    unfold pskByte at h
    split at h
    · cases h
    · next digits hslice =>
      split at h
      · cases h
      · next n hparse =>
        have hbytes := congrArg List.length (fromUtf8_eq_some_iff.1 hslice)
        rw [length_take, length_drop, Nat.min_eq_left (by omega)] at hbytes
        obtain ⟨hn, hne, -⟩ := parseUnsigned_eq_some hparse
        have hdigit := isDigitOf_of_ofDigits hn
        match digits, hslice with
        | [], _ => simp at hbytes
        | [c], _ =>
          -- one character of two bytes is no digit
          have hc := hdigit c (by simp [stripPlus])
          rw [utf8Bytes_cons, encode_ascii (toNat_lt_of_isDigitOf hc)] at hbytes
          simp at hbytes
        | [a, b], hslice =>
          by_cases ha : a = '+'
          · subst ha
            exact ⟨'+', b, hslice, .inr rfl, hdigit b (by simp [stripPlus])⟩
          · rw [stripPlus_of_head (by simpa using ha)] at hdigit
            exact ⟨a, b, hslice, .inl (hdigit a (by simp)), hdigit b (by simp)⟩
        | a :: b :: c :: rest, _ =>
          simp only [utf8Bytes_cons, length_append, String.length_utf8EncodeChar] at hbytes
          have := a.utf8Size_pos
          have := b.utf8Size_pos
          have := c.utf8Size_pos
          omega
  · obtain ⟨a, b, hslice, ha, hb⟩ := h
    obtain ⟨y, hy⟩ := Option.isSome_iff_exists.1 hb
    unfold pskByte
    rw [hslice]
    rcases ha with ha | rfl
    · obtain ⟨x, hx⟩ := Option.isSome_iff_exists.1 ha
      simp [parseUnsigned_pair hx hy]
    · have := toDigit_lt hy
      have hplus : parseUnsigned 8 16 ['+', b] = some y := by
        simp [parseUnsigned, stripPlus, ofDigits, hy]
        omega
      simp [hplus]

/-- The loop ends at its first piece that is not read. -/
theorem mapM_pskByte_error {f : Nat → Res UInt8} {n e} (hi : i < n) (hok : ∀ j < i, ∃ b, f j = .ok b)
    (he : f i = .error e) : (List.range n).mapM f = .error e := by
  obtain ⟨m, rfl⟩ : ∃ m, n = i + (m + 1) := ⟨n - i - 1, by omega⟩
  obtain ⟨bs, hbs⟩ := Res.exists_mapM_eq_ok (l := List.range i) (f := f) fun j hj => hok j (mem_range.1 hj)
  rw [range_add, mapM_append, hbs, range_succ_eq_map]
  simp [mapM_cons, he, bind, Except.bind]

theorem utf8Bytes_pair {a b : Char} (ha : isDigitOf 16 a = true) (hb : isDigitOf 16 b = true) (t : Str) :
    utf8Bytes (a :: b :: t) = utf8Bytes [a, b] ++ utf8Bytes t ∧ (utf8Bytes [a, b]).length = 2 := by
  simp [encode_ascii (toNat_lt_of_isDigitOf ha), encode_ascii (toNat_lt_of_isDigitOf hb)]

theorem slicePair_cons {a b : Char} (ha : isDigitOf 16 a = true) (hb : isDigitOf 16 b = true) (t : Str) :
    slicePair (a :: b :: t) 0 = some [a, b] ∧ ∀ i, slicePair (a :: b :: t) ((i + 1) * 2) = slicePair t (i * 2) := by
  obtain ⟨hbytes, hlen⟩ := utf8Bytes_pair ha hb t
  refine ⟨?_, fun i => ?_⟩
  · rw [slicePair, hbytes, drop_zero, ← hlen, take_left, fromUtf8_utf8Bytes]
  · rw [slicePair, slicePair, hbytes, show (i + 1) * 2 = (utf8Bytes [a, b]).length + i * 2 by omega, ← drop_drop,
      drop_left]

/-- Digits are read two by two. -/
theorem mapM_pskByte_digits (n : Nat) {t : Str} (hlen : t.length = n * 2) (ht : ∀ c ∈ t, isDigitOf 16 c = true) :
    ∃ key, (List.range n).mapM (pskByte t) = .ok key ∧ hexBytes t = some key := by
  induction n generalizing t with
  | zero =>
    obtain rfl := length_eq_zero_iff.1 hlen
    exact ⟨[], rfl, rfl⟩
  | succ n ih =>
    match t with
    | [] => simp at hlen
    | [_] => simp at hlen; omega
    | a :: b :: t =>
      simp only [forall_mem_cons] at ht
      obtain ⟨ha, hb, ht⟩ := ht
      obtain ⟨x, hx⟩ := Option.isSome_iff_exists.1 ha
      obtain ⟨y, hy⟩ := Option.isSome_iff_exists.1 hb
      obtain ⟨hzero, hsucc⟩ := slicePair_cons ha hb t
      obtain ⟨key, hkey, hhex⟩ := ih (by simp at hlen; omega) ht
      have hfirst : pskByte (a :: b :: t) 0 = .ok (UInt8.ofNat (x * 16 + y)) := by
        simp [pskByte, hzero, parseUnsigned_pair hx hy]
      have hrest : ∀ i, pskByte (a :: b :: t) (i + 1) = pskByte t i := by simp [pskByte, hsucc]
      refine ⟨UInt8.ofNat (x * 16 + y) :: key, ?_, by simp [hexBytes, hx, hy, hhex]⟩
      rw [range_succ_eq_map, mapM_cons, hfirst, mapM_map]
      simp [Function.comp_def, hrest, hkey, pure, Except.pure]

theorem isDigitOf_of_hexBytes {key} (h : hexBytes t = some key) : ∀ c ∈ t, isDigitOf 16 c = true := by
  fun_induction hexBytes t generalizing key with
  | case1 => simp
  | case2 => cases h
  | case3 a b s x y hx hy ih =>
    obtain ⟨rest, hrest, -⟩ := Option.map_eq_some_iff.1 h
    simpa [isDigitOf, hx, hy] using ih hrest
  | case4 => cases h

theorem length_utf8Bytes_digits (h : ∀ c ∈ t, isDigitOf 16 c = true) : (utf8Bytes t).length = t.length :=
  length_utf8Bytes_ascii fun c hc => toNat_lt_of_isDigitOf (h c hc)

theorem pskByte_of_not_reads (hi : i * 2 + 2 ≤ (utf8Bytes t).length) (h : ¬ PairReads t i) :
    pskByte t i = .error (if slicePair t (i * 2) = none then slicePanic else "psk contains non-hex characters") := by
  rw [← exists_pskByte_iff hi] at h
  unfold pskByte at h ⊢
  generalize slicePair t (i * 2) = piece at h ⊢
  cases piece with
  | none => rfl
  | some digits =>
    cases hparse : parseUnsigned 8 16 digits with
    | none => simp [hparse]
    | some n => simp [hparse] at h

theorem parsePsk_of_length {s : Str} (h : (utf8Bytes (Str.trim s)).length = keyLen * 2) :
    parsePsk s = (List.range keyLen).mapM (pskByte (Str.trim s)) := by
  simp [parsePsk, ensure, h]

theorem parsePsk_of_length_ne {s : Str} (h : (utf8Bytes (Str.trim s)).length ≠ keyLen * 2) :
    ∃ e, parsePsk s = .error e ∧ e ≠ slicePanic := by
  refine ⟨_, by simp only [parsePsk, ensure, if_neg h]; rfl, fun he => ?_⟩
  have := congrArg (fun s => s.toList.head?) he
  simp [slicePanic, toString] at this

/-- Which texts the function reads as its comment says: those of 64 bytes that
are all digits, or in which a piece that is neither two digits nor a sign and a
digit comes before any cut inside a character, and those of any other length. -/
theorem parsePsk_exact_iff (s : Str) : ReadsExactly s ↔ PlainKey (Str.trim s) := by
  unfold ReadsExactly PlainKey
  by_cases hlen : (utf8Bytes (Str.trim s)).length = keyLen * 2
  · rw [parsePsk_of_length hlen]
    generalize Str.trim s = t at hlen ⊢
    have hpiece : ∀ {i}, i < keyLen → i * 2 + 2 ≤ (utf8Bytes t).length := by omega
    simp only [hlen, true_imp_iff]
    by_cases hdigits : ∀ c ∈ t, isDigitOf 16 c = true
    · have htlen : t.length = keyLen * 2 := (length_utf8Bytes_digits hdigits).symm.trans hlen
      obtain ⟨key, hkey, hhex⟩ := mapM_pskByte_digits keyLen htlen hdigits
      simp only [hkey, hhex, htlen, Except.ok.injEq, Option.some.injEq, true_and, implies_true]
      exact ⟨fun _ => .inl hdigits, fun _ => by simp⟩
    · have hnone : ∀ key, hexBytes t ≠ some key := fun key hhex => hdigits (isDigitOf_of_hexBytes hhex)
      simp only [hdigits, false_or, hnone, and_false, iff_false]
      by_cases hall : ∀ i < keyLen, PairReads t i
      · -- signs among the digits: a key that the comment does not allow
        obtain ⟨key, hkey⟩ := Res.exists_mapM_eq_ok (l := List.range keyLen) (f := pskByte t) fun i hi =>
          (exists_pskByte_iff (hpiece (mem_range.1 hi))).2 (hall i (mem_range.1 hi))
        refine ⟨fun h => absurd hkey (h.1 key), fun h => ?_⟩
        obtain ⟨i, hi, hnot, -⟩ := h
        exact absurd (hall i hi) hnot
      · obtain ⟨i, ⟨hi, hnot⟩, hmin⟩ : ∃ i, (i < keyLen ∧ ¬ PairReads t i) ∧
          ∀ j < i, ¬ (j < keyLen ∧ ¬ PairReads t j) := by
          have hex : ∃ i, i < keyLen ∧ ¬ PairReads t i := by simpa using hall
          classical
          exact ⟨Nat.find hex, Nat.find_spec hex, fun j hj => Nat.find_min hex hj⟩
        have hbefore : ∀ j < i, PairReads t j := fun j hj => by_contra fun hj' => hmin j hj ⟨by omega, hj'⟩
        have hslice : ∀ j < i, slicePair t (j * 2) ≠ none := by
          intro j hj
          obtain ⟨a, b, h, -⟩ := hbefore j hj
          simp [h]
        have herr := mapM_pskByte_error hi (fun j hj => (exists_pskByte_iff (hpiece (by omega))).2 (hbefore j hj))
          (pskByte_of_not_reads (hpiece hi) hnot)
        simp only [herr]
        by_cases hcut : slicePair t (i * 2) = none
        · -- the first piece that is not read is no text
          refine ⟨fun h => absurd (by rw [if_pos hcut]) h.2, fun h => ?_⟩
          obtain ⟨k, -, hk, hcuts⟩ := h
          have hik : i ≤ k := by
            by_contra hlt
            exact hk (hbefore k (by omega))
          exact absurd hcut (hcuts i hik)
        · refine ⟨fun _ => ⟨i, hi, hnot, fun j hj => ?_⟩, fun _ => ⟨by simp, ?_⟩⟩
          · rcases Nat.lt_or_eq_of_le hj with hj | rfl
            · exact hslice j hj
            · exact hcut
          · rw [if_neg hcut]
            decide
  · obtain ⟨e, he, hne⟩ := parsePsk_of_length_ne hlen
    refine ⟨fun _ h => absurd h hlen, fun _ => ?_⟩
    rw [he]
    refine ⟨fun key => ⟨fun h => (nomatch h), fun h => ?_⟩, fun h => hne (Except.error.inj h)⟩
    exact absurd ((length_utf8Bytes_digits (isDigitOf_of_hexBytes h.2)).trans h.1) hlen

/-- Thirty-two times `+f` is a key, and a letter of two bytes at an odd offset
ends the process. -/
theorem signs_are_a_key :
    parsePsk ((replicate 32 ['+', 'f']).flatten) = .ok (replicate 32 15) ∧
      parsePsk ('a' :: 'é' :: replicate 61 'a') = .error slicePanic := by
  decide +kernel

end Rove.Subnetra
