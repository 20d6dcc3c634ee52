/-
Integers as text: `char::to_digit`, `from_str_radix`/`parse` of the unsigned
integer types, and decimal output.
-/
import Rove.Base.Str

namespace Rove

/-- `char::to_digit(radix)`, for a radix up to 36. -/
def toDigit (radix : Nat) (c : Char) : Option Nat :=
  let v :=
    if 48 ≤ c.toNat ∧ c.toNat ≤ 57 then some (c.toNat - 48)
    else if 97 ≤ c.toNat ∧ c.toNat ≤ 122 then some (c.toNat - 87)
    else if 65 ≤ c.toNat ∧ c.toNat ≤ 90 then some (c.toNat - 55)
    else none
  v.filter (· < radix)

/-- Is the character a digit of this radix? -/
def isDigitOf (radix : Nat) (c : Char) : Bool := (toDigit radix c).isSome

/-- The number a sequence of digits denotes, most significant digit first. -/
def ofDigits (radix : Nat) (acc : Nat) : Str → Option Nat
  | [] => some acc
  | c :: s => (toDigit radix c).bind fun d => ofDigits radix (acc * radix + d) s

/-- Text without a leading `+` that something follows. -/
def stripPlus : Str → Str
  | '+' :: c :: rest => c :: rest
  | s => s

/-- `uN::from_str_radix`, and `str::parse::<uN>` for radix 10: digits, after an
optional `+`, denoting a number below `2 ^ bits`. -/
def parseUnsigned (bits radix : Nat) (s : Str) : Option Nat :=
  if stripPlus s = [] then none else (ofDigits radix 0 (stripPlus s)).filter (· < 2 ^ bits)

/-- Decimal output of an unsigned integer. -/
def showNat (n : Nat) : Str := Nat.toDigits 10 n

variable {radix : Nat} {c : Char} {s : Str}

theorem toDigit_digitChar {d} (hradix : radix ≤ 16) (h : d < radix) :
    toDigit radix d.digitChar = some d := by
  have hall : ∀ d < 16, toDigit 16 d.digitChar = some d := by decide
  have hd := hall d (by omega)
  unfold toDigit at hd ⊢
  obtain ⟨hv, -⟩ := Option.filter_eq_some_iff.1 hd
  rw [hv]
  simp [h]

theorem ofDigits_append (radix acc : Nat) (s t : Str) :
    ofDigits radix acc (s ++ t) = (ofDigits radix acc s).bind fun a => ofDigits radix a t := by
  induction s generalizing acc with
  | nil => rfl
  | cons c s ih =>
    simp only [List.cons_append, ofDigits]
    cases toDigit radix c with
    | none => rfl
    | some d => exact ih _

theorem ofDigits_toDigits (hone : 1 < radix) (hradix : radix ≤ 16) (n : Nat) :
    ofDigits radix 0 (Nat.toDigits radix n) = some n := by
  induction n using Nat.strong_induction_on with
  | _ n ih =>
    rw [Nat.toDigits_eq_if hone]
    split
    · next h => simp [ofDigits, toDigit_digitChar hradix h]
    · next h =>
      have hd : n % radix < radix := Nat.mod_lt _ (by omega)
      have hlt : n / radix < n := Nat.div_lt_self (by omega) hone
      rw [ofDigits_append, ih _ hlt]
      simp only [Option.bind_some, ofDigits, toDigit_digitChar hradix hd, Option.some.injEq]
      exact Nat.div_add_mod' n radix

theorem ofDigits_showNat (n : Nat) : ofDigits 10 0 (showNat n) = some n :=
  ofDigits_toDigits (by decide) (by decide) n

theorem showNat_ne_nil (n : Nat) : showNat n ≠ [] := Nat.toDigits_ne_nil

theorem isDigit_of_mem_showNat {n} (h : c ∈ showNat n) :
    48 ≤ c.toNat ∧ c.toNat ≤ 57 := by
  have hd := Nat.isDigit_of_mem_toDigits (by omega) (Nat.le_refl 10) h
  simp only [Char.isDigit, Bool.and_eq_true, decide_eq_true_eq, ge_iff_le] at hd
  exact ⟨hd.1, hd.2⟩

theorem isWhitespace_of_isDigitOf (h : isDigitOf radix c = true) : Str.isWhitespace c = false := by
  have hrange : (48 ≤ c.toNat ∧ c.toNat ≤ 57) ∨ (97 ≤ c.toNat ∧ c.toNat ≤ 122) ∨ (65 ≤ c.toNat ∧ c.toNat ≤ 90) := by
    by_contra hnot
    simp only [not_or] at hnot
    simp [isDigitOf, toDigit, hnot] at h
  simp only [Str.isWhitespace, Bool.or_eq_false_iff, Bool.and_eq_false_iff,
    decide_eq_false_iff_not, beq_eq_false_iff_ne]
  omega

theorem isWhitespace_of_mem_showNat {n} (h : c ∈ showNat n) : Str.isWhitespace c = false := by
  obtain ⟨hlo, hhi⟩ := isDigit_of_mem_showNat h
  simp only [Str.isWhitespace, Bool.or_eq_false_iff, Bool.and_eq_false_iff,
    decide_eq_false_iff_not, beq_eq_false_iff_ne]
  omega

theorem stripPlus_of_head (h : s.head? ≠ some '+') : stripPlus s = s := by
  unfold stripPlus
  split
  · exact absurd rfl h
  · rfl

theorem mem_stripPlus (hc : c ≠ '+') (h : c ∈ s) : c ∈ stripPlus s := by
  unfold stripPlus
  split
  · exact (List.mem_cons.1 h).resolve_left hc
  · exact h

theorem parseUnsigned_showNat {bits n} (h : n < 2 ^ bits) :
    parseUnsigned bits 10 (showNat n) = some n := by
  have hplus : (showNat n).head? ≠ some '+' := by
    intro hs
    have := isDigit_of_mem_showNat (List.mem_of_head? hs)
    simp at this
  unfold parseUnsigned
  simp [stripPlus_of_head hplus, showNat_ne_nil n, ofDigits_showNat, h]

theorem parseUnsigned_eq_some {bits n} (h : parseUnsigned bits radix s = some n) :
    ofDigits radix 0 (stripPlus s) = some n ∧ stripPlus s ≠ [] ∧ n < 2 ^ bits := by
  unfold parseUnsigned at h
  split at h
  · cases h
  · next hne =>
    obtain ⟨hd, hlt⟩ := Option.filter_eq_some_iff.1 h
    exact ⟨hd, hne, by simpa using hlt⟩

theorem isDigitOf_of_ofDigits {acc n} (h : ofDigits radix acc s = some n) :
    ∀ c ∈ s, isDigitOf radix c = true := by
  induction s generalizing acc with
  | nil => simp
  | cons c s ih =>
    obtain ⟨d, hd, h⟩ := Option.bind_eq_some_iff.1 h
    intro c' hc'
    rcases List.mem_cons.1 hc' with rfl | hmem
    · simp [isDigitOf, hd]
    · exact ih h c' hmem

theorem isDigitOf_plus (radix : Nat) : isDigitOf radix '+' = false := rfl

theorem plain_of_ofDigits {acc n} (h : ofDigits radix acc s = some n) : s.head? ≠ some '+' := fun hplus =>
  absurd (isDigitOf_of_ofDigits h '+' (List.mem_of_head? hplus)) (Bool.eq_false_iff.1 (isDigitOf_plus radix))

theorem eq_of_parseUnsigned {bits m n} (h : parseUnsigned bits radix s = some m)
    (hn : ofDigits radix 0 s = some n) : m = n := by
  obtain ⟨hm, -⟩ := parseUnsigned_eq_some h
  rw [stripPlus_of_head (plain_of_ofDigits hn), hn] at hm
  exact (Option.some.inj hm).symm

end Rove
