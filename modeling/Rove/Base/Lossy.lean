/-
Lossy decoding around an ASCII byte, and of a text that is cut off. No sequence goes
on over an ASCII byte, so a text may be cut there and its parts decoded one by one,
well-formed or not.
-/
import Rove.Base.Utf8

namespace Rove

open List

variable {bs : Bytes} {c : Char} {b : UInt8}

theorem decodeChar_append {rest} (h : decodeChar bs = some (c, rest)) (later : Bytes) :
    decodeChar (bs ++ later) = some (c, rest ++ later) := by
  rw [encode_of_decodeChar h, append_assoc, decodeChar_encode]

theorem length_lt_of_decodeChar {rest} (h : decodeChar bs = some (c, rest)) :
    rest.length < bs.length := by
  rw [encode_of_decodeChar h]
  exact length_le_of_encode c rest

/-- A sequence that is cut off does not become whole by an ASCII byte. -/
theorem decodeChar_append_ascii (hne : bs ≠ []) (h : decodeChar bs = none) (hb : b.toNat < 128)
    (rest : Bytes) : decodeChar (bs ++ b :: rest) = none := by
  cases hdecode : decodeChar (bs ++ b :: rest) with
  | none => rfl
  | some found =>
    obtain ⟨c, later⟩ := found
    have heq := encode_of_decodeChar hdecode
    rcases append_eq_append_iff.1 heq with ⟨more, hencode, hmore⟩ | ⟨more, hbs, -⟩
    · -- the bytes are the start of one encoding
      cases more with
      | nil =>
        rw [append_nil] at hencode
        have hwhole := decodeChar_encode c []
        rw [hencode, append_nil, h] at hwhole
        cases hwhole
      | cons b' more =>
        obtain ⟨rfl, -⟩ := List.cons.inj hmore
        have hchar := toNat_eq_of_mem_encode hb (show b ∈ String.utf8EncodeChar c by rw [hencode]; simp)
        have hlen := congrArg List.length hencode
        rw [encode_ascii (by omega), length_append] at hlen
        have hpos := length_pos_of_ne_nil hne
        simp only [length_cons, length_nil] at hlen
        omega
    · rw [hbs, decodeChar_encode] at h
      cases h

theorem isCont_of_ascii (hb : b.toNat < 128) : isCont b = false := by
  have hall : ∀ n : Fin 128, isCont (UInt8.ofNat n) = false := by decide
  simpa using hall ⟨b.toNat, hb⟩

theorem secondOk_of_ascii (b0 : UInt8) (hb : b.toNat < 128) : secondOk b0 b = false := by
  have hlow : ∀ bound : UInt8, 128 ≤ bound.toNat → decide (bound ≤ b) = false := by
    intro bound hbound
    rw [decide_eq_false_iff_not, UInt8.le_iff_toNat_le]
    omega
  simp [secondOk, isCont_of_ascii hb, hlow 0xA0 (by decide), hlow 0x80 (by decide), hlow 0x90 (by decide)]

theorem invalidLen_append_ascii (hne : bs ≠ []) (hb : b.toNat < 128) (rest : Bytes) :
    invalidLen (bs ++ b :: rest) = invalidLen bs := by
  match bs, hne with
  | [x], _ =>
    show invalidLen (x :: b :: rest) = 1
    rw [invalidLen, secondOk_of_ascii x hb, if_neg Bool.false_ne_true]
  | [x, y], _ =>
    show invalidLen (x :: y :: b :: rest) = _
    rw [invalidLen, invalidLen]
    simp [isCont_of_ascii hb]
  | x :: y :: z :: zs, _ => rfl

theorem invalidLen_bounds (hne : bs ≠ []) : 0 < invalidLen bs ∧ invalidLen bs ≤ bs.length := by
  match bs, hne with
  | [x], _ => exact ⟨Nat.one_pos, Nat.le_refl _⟩
  | [x, y], _ =>
    rw [invalidLen]
    simp only [head?_nil, Option.any_none, Bool.and_false, Bool.false_eq_true, if_false, length_cons,
      length_nil]
    split <;> omega
  | x :: y :: z :: zs, _ =>
    rw [invalidLen]
    simp only [length_cons]
    split
    · split <;> omega
    · omega

theorem decodeLossy_fuel {fuel} (h : bs.length ≤ fuel) : decodeLossy fuel bs = fromUtf8Lossy bs := by
  suffices hall : ∀ n fuel fuel' (bs : Bytes), bs.length ≤ n → n ≤ fuel → n ≤ fuel' →
    decodeLossy fuel bs = decodeLossy fuel' bs from
    hall bs.length _ _ bs (Nat.le_refl _) h (Nat.le_refl _)
  intro n
  induction n with
  | zero =>
    intro fuel fuel' bs hlen _ _
    obtain rfl := eq_nil_of_length_eq_zero (Nat.le_zero.1 hlen)
    cases fuel <;> cases fuel' <;> rfl
  | succ n ih =>
    intro fuel fuel' bs hlen hfuel hfuel'
    obtain ⟨fuel, rfl⟩ := Nat.exists_eq_add_one_of_ne_zero (show fuel ≠ 0 by omega)
    obtain ⟨fuel', rfl⟩ := Nat.exists_eq_add_one_of_ne_zero (show fuel' ≠ 0 by omega)
    rw [decodeLossy, decodeLossy]
    by_cases hnil : bs = []
    · rw [if_pos hnil, if_pos hnil]
    · rw [if_neg hnil, if_neg hnil]
      cases hdecode : decodeChar bs with
      | some found =>
        obtain ⟨c, rest⟩ := found
        have hlt := length_lt_of_decodeChar hdecode
        exact congrArg (c :: ·) (ih fuel fuel' rest (by omega) (by omega) (by omega))
      | none =>
        obtain ⟨hpos, hle⟩ := invalidLen_bounds hnil
        exact congrArg (_ :: ·) (ih fuel fuel' _ (by rw [length_drop]; omega) (by omega) (by omega))

theorem fromUtf8Lossy_of_decodeChar {rest} (h : decodeChar bs = some (c, rest)) :
    fromUtf8Lossy bs = c :: fromUtf8Lossy rest := by
  have hlt := length_lt_of_decodeChar h
  obtain ⟨n, hn⟩ := Nat.exists_eq_add_one_of_ne_zero (show bs.length ≠ 0 by omega)
  have hne : bs ≠ [] := ne_nil_of_length_pos (by omega)
  rw [fromUtf8Lossy, hn, decodeLossy, if_neg hne, h]
  exact congrArg (c :: ·) (decodeLossy_fuel (by omega))

theorem fromUtf8Lossy_of_invalid (hne : bs ≠ []) (h : decodeChar bs = none) :
    fromUtf8Lossy bs = Char.ofNat 0xFFFD :: fromUtf8Lossy (bs.drop (invalidLen bs)) := by
  obtain ⟨n, hn⟩ := Nat.exists_eq_add_one_of_ne_zero (Nat.ne_zero_of_lt (length_pos_of_ne_nil hne))
  obtain ⟨hpos, hle⟩ := invalidLen_bounds hne
  rw [fromUtf8Lossy, hn, decodeLossy, if_neg hne, h]
  exact congrArg (_ :: ·) (decodeLossy_fuel (by rw [length_drop]; omega))

theorem fromUtf8Lossy_append_ascii (bs : Bytes) {c} (hc : c.toNat < 128) (rest : Bytes) :
    fromUtf8Lossy (bs ++ UInt8.ofNat c.toNat :: rest) = fromUtf8Lossy bs ++ c :: fromUtf8Lossy rest := by
  have hb : (UInt8.ofNat c.toNat).toNat < 128 := by
    have hlt : c.toNat < 256 := by omega
    rwa [UInt8.toNat_ofNat_of_lt' hlt]
  induction hn : bs.length using Nat.strong_induction_on generalizing bs with
  | _ n ih =>
    by_cases hnil : bs = []
    · subst hnil
      have hdecode := decodeChar_encode c rest
      rw [encode_ascii hc] at hdecode
      exact fromUtf8Lossy_of_decodeChar hdecode
    · cases hdecode : decodeChar bs with
      | some found =>
        obtain ⟨d, later⟩ := found
        have hlt := length_lt_of_decodeChar hdecode
        rw [fromUtf8Lossy_of_decodeChar hdecode, fromUtf8Lossy_of_decodeChar (decodeChar_append hdecode _),
          ih later.length (by omega) later rfl]
        rfl
      | none =>
        obtain ⟨hpos, hle⟩ := invalidLen_bounds hnil
        rw [fromUtf8Lossy_of_invalid hnil hdecode,
          fromUtf8Lossy_of_invalid (append_ne_nil_of_left_ne_nil hnil _)
          (decodeChar_append_ascii hnil hdecode hb rest), invalidLen_append_ascii hnil hb,
          drop_append_of_le_length hle, ih _ (by rw [length_drop]; omega) _ rfl]
        rfl

/-! ## A text that is cut off -/

theorem fromUtf8Lossy_append_utf8 (s : Str) (rest : Bytes) :
    fromUtf8Lossy (utf8Bytes s ++ rest) = s ++ fromUtf8Lossy rest := by
  induction s with
  | nil => rfl
  | cons c s ih =>
    have hdecode := decodeChar_encode c (utf8Bytes s ++ rest)
    rw [utf8Bytes_cons, append_assoc, fromUtf8Lossy_of_decodeChar hdecode, ih]
    rfl

theorem fromUtf8Lossy_utf8Bytes (s : Str) : fromUtf8Lossy (utf8Bytes s) = s := by
  have hall := fromUtf8Lossy_append_utf8 s []
  rwa [append_nil, show fromUtf8Lossy [] = [] from rfl, append_nil] at hall

/-- The bytes of a text are cut at the end of a character or within one. -/
theorem exists_take_utf8Bytes {s n} (h : n < (utf8Bytes s).length) :
    ∃ t c u k, s = t ++ c :: u ∧ n = (utf8Bytes t).length + k ∧ k < (String.utf8EncodeChar c).length ∧
      (utf8Bytes s).take n = utf8Bytes t ++ (String.utf8EncodeChar c).take k := by
  induction s generalizing n with
  | nil => simp at h
  | cons d s ih =>
    rw [utf8Bytes_cons] at h ⊢
    by_cases hin : n < (String.utf8EncodeChar d).length
    · exact ⟨[], d, s, n, rfl, by simp, hin, by simp [take_append_of_le_length (Nat.le_of_lt hin)]⟩
    · rw [length_append] at h
      obtain ⟨t, c, u, k, rfl, hn, hk, htake⟩ := @ih (n - (String.utf8EncodeChar d).length) (by omega)
      refine ⟨d :: t, c, u, k, rfl, ?_, hk, ?_⟩
      · rw [utf8Bytes_cons, length_append]
        omega
      · rw [take_append, take_of_length_le (Nat.le_of_not_lt hin), htake, utf8Bytes_cons, append_assoc]

theorem decodeChar_take_encode {k} (h : k < (String.utf8EncodeChar c).length) :
    decodeChar ((String.utf8EncodeChar c).take k) = none := by
  cases hdecode : decodeChar ((String.utf8EncodeChar c).take k) with
  | none => rfl
  | some found =>
    obtain ⟨d, rest⟩ := found
    have hall := decodeChar_append hdecode ((String.utf8EncodeChar c).drop k)
    have hwhole := decodeChar_encode c []
    rw [take_append_drop] at hall
    rw [append_nil, hall] at hwhole
    have hnil := (Prod.mk.inj (Option.some.inj hwhole)).2
    have hdrop := congrArg List.length (append_eq_nil_iff.1 hnil).2
    rw [length_drop, length_nil] at hdrop
    omega

/-- A text that was cut reads as itself only if it was cut within a last U+FFFD,
which is what stands for a character that is cut. -/
theorem fromUtf8Lossy_take_eq_iff {s n} (h : n < (utf8Bytes s).length) :
    fromUtf8Lossy ((utf8Bytes s).take n) = s ↔ ∃ t, s = t ++ [Char.ofNat 0xFFFD] ∧ (utf8Bytes t).length < n := by
  have hlen : (String.utf8EncodeChar (Char.ofNat 0xFFFD)).length = 3 := by decide
  constructor
  · intro heq
    obtain ⟨t, c, u, k, rfl, rfl, hk, htake⟩ := exists_take_utf8Bytes h
    rw [htake, fromUtf8Lossy_append_utf8] at heq
    have htail := append_cancel_left heq
    cases k with
    | zero => cases htail
    | succ k =>
      have hne : (String.utf8EncodeChar c).take (k + 1) ≠ [] := by
        intro hnil
        have hzero := congrArg List.length hnil
        rw [length_take, length_nil] at hzero
        omega
      rw [fromUtf8Lossy_of_invalid hne (decodeChar_take_encode hk)] at htail
      obtain ⟨rfl, hrest⟩ := List.cons.inj htail
      have hend : u = [] := by
        rw [← hrest]
        obtain rfl | rfl : k = 0 ∨ k = 1 := by omega
        · decide +kernel
        · decide +kernel
      exact ⟨t, by rw [hend], by omega⟩
  · intro hex
    obtain ⟨t, rfl, ht⟩ := hex
    simp only [utf8Bytes_append, utf8Bytes_cons, utf8Bytes_nil, append_nil, length_append, hlen] at h ⊢
    rw [take_append, take_of_length_le (Nat.le_of_lt ht), fromUtf8Lossy_append_utf8]
    congr 1
    obtain hcut | hcut : n - (utf8Bytes t).length = 1 ∨ n - (utf8Bytes t).length = 2 := by omega
    · rw [hcut]
      decide +kernel
    · rw [hcut]
      decide +kernel

end Rove
