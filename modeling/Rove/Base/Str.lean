/-
Strings as lists of characters, with the operations of Rust's `str` that
text-handling code is written in: trimming, splitting, prefixes, ASCII case.

A character is a Unicode scalar value, as Rust's `char` is, and comparison
is by code point, which is the order of the UTF-8 bytes Rust compares.
Whatever depends on the bytes themselves is in `Rove.Base.Utf8`.
-/
import Mathlib.Algebra.Ring.Nat
import Mathlib.Data.List.DropRight
import Mathlib.Data.List.Infix
import Mathlib.Data.List.Lex
import Mathlib.Data.Char
import Mathlib.Data.List.SplitBy

namespace Rove

open List

/-- A Rust `str`: its characters. -/
abbrev Str := List Char

/-- A string literal stands for its characters. -/
instance : Coe String Str := ⟨String.toList⟩

instance : LawfulBEq Str := inferInstanceAs (LawfulBEq (List Char))

namespace Str

/-- `char::is_whitespace`: the Unicode `White_Space` property. -/
def isWhitespace (c : Char) : Bool :=
  (0x9 ≤ c.toNat && c.toNat ≤ 0xD) || c.toNat == 0x20 || c.toNat == 0x85 || c.toNat == 0xA0 ||
  c.toNat == 0x1680 || (0x2000 ≤ c.toNat && c.toNat ≤ 0x200A) || c.toNat == 0x2028 ||
  c.toNat == 0x2029 || c.toNat == 0x202F || c.toNat == 0x205F || c.toNat == 0x3000

/-- `trim_matches` with a predicate: both ends. -/
def trimBy (p : Char → Bool) (s : Str) : Str := (s.dropWhile p).rdropWhile p

def trim (s : Str) : Str := trimBy isWhitespace s

/-- `str::trim_matches(c)`. -/
def trimMatches (c : Char) (s : Str) : Str := trimBy (· == c) s

/-- `str::trim_end_matches(c)`. -/
def trimEndMatches (c : Char) (s : Str) : Str := s.rdropWhile (· == c)

def toAsciiLowercase (s : Str) : Str := s.map Char.toLower

def eqIgnoreAsciiCase (s t : Str) : Bool := toAsciiLowercase s == toAsciiLowercase t

def stripPrefix (pre s : Str) : Option Str := pre.isPrefixOf? s

/-- `str::contains` of a substring. -/
def contains (s needle : Str) : Bool := decide (needle <:+: s)

/-- `str::split_once(c)`: what stands before and after the first `c`. -/
def splitOnce (c : Char) : Str → Option (Str × Str)
  | [] => none
  | x :: s => if x = c then some ([], s) else (splitOnce c s).map fun (a, b) => (x :: a, b)

/-- `str::rsplit_once(c)`: what stands before and after the last `c`. -/
def rsplitOnce (c : Char) (s : Str) : Option (Str × Str) :=
  (splitOnce c s.reverse).map fun (a, b) => (b.reverse, a.reverse)

def splitWhitespace (s : Str) : List Str := (s.splitOnP isWhitespace).filter (· ≠ [])

/-- One character of `Debug` output of a string. -/
def debugChar (c : Char) : String :=
  if c == '"' then "\\\"" else if c == '\\' then "\\\\"
  else if c == '\n' then "\\n" else if c == '\r' then "\\r" else if c == '\t' then "\\t"
  else if c.toNat == 0 then "\\0"
  else if c.toNat < 32 || c.toNat == 127 then
    "\\u\x7b" ++ String.ofList (Nat.toDigits 16 c.toNat) ++ "\x7d"
  else c.toString

/-- `Debug` output of a string, as error texts quote it. -/
def debug (s : Str) : String := "\"" ++ String.join (s.map debugChar) ++ "\""

/-- `Display` output of a string. -/
def display (s : Str) : String := String.ofList s

/-- `[..].join(sep)`. -/
def join (sep : Str) (parts : List Str) : Str := sep.intercalate parts

/-! ## Order -/

theorem compare_eq_lt_iff (s t : Str) : compare s t = .lt ↔ s < t := by
  induction s generalizing t with
  | nil => cases t <;> simp
  | cons x s ih =>
    cases t with
    | nil => simp
    | cons y t =>
      rw [List.compare_cons_cons, Ordering.then_eq_lt, ih, List.cons_lt_cons_iff, compare_lt_iff_lt, compare_eq_iff_eq]

theorem compare_eq_gt_iff (s t : Str) : compare s t = .gt ↔ t < s := by
  rw [Std.OrientedCmp.gt_iff_lt, compare_eq_lt_iff]

theorem lt_append_cons (s : Str) (c : Char) (t : Str) : s < s ++ c :: t := by
  induction s with
  | nil => simp
  | cons x s ih => exact cons_lt_cons_iff.2 (.inr ⟨rfl, ih⟩)

/-- The texts that extend `p` by the character `a` are those from `p` and `a`
up to, but without, `p` and the character after `a`. -/
theorem append_prefix_iff_between {a b} (hab : b.toNat = a.toNat + 1) (p s : Str) :
    p ++ [a] <+: s ↔ ¬ s < p ++ [a] ∧ s < p ++ [b] := by
  induction p generalizing s with
  | nil =>
    cases s with
    | nil => simp
    | cons x s =>
      have hchar : x = a ↔ ¬ x < a ∧ x < b := by
        rw [Char.ext_iff, ← UInt32.toNat_inj]
        show x.toNat = a.toNat ↔ ¬ x.toNat < a.toNat ∧ x.toNat < b.toNat
        omega
      simp only [nil_append, cons_prefix_cons, nil_prefix, and_true, cons_lt_cons_iff,
        not_lt_nil, and_false, or_false]
      rw [eq_comm]
      exact hchar
  | cons y p ih =>
    cases s with
    | nil => simp
    | cons x s =>
      simp only [cons_append, cons_prefix_cons, cons_lt_cons_iff, not_or, not_and]
      rw [ih]
      rcases lt_trichotomy x y with h | rfl | h
      · simp [h, h.ne']
      · simp
      · simp [h.ne, h.ne', h.not_gt]

/-! ## Splitting -/

variable {c : Char} {s : Str} {p : Char → Bool}

theorem exists_mem_splitOn {sep} (hne : c ≠ sep) (h : c ∈ s) : ∃ part ∈ s.splitOn sep, c ∈ part := by
  by_contra hno
  have hjoin : [sep].intercalate (s.splitOn sep) = s := intercalate_splitOn sep
  rw [← hjoin] at h
  have hparts : ∀ parts : List Str, c ∈ [sep].intercalate parts → ∃ part ∈ parts, c ∈ part := by
    intro parts
    induction parts with
    | nil => simp
    | cons p ps ih =>
      cases ps with
      | nil => simp
      | cons q qs =>
        intro hc
        rw [intercalate_cons_cons, append_assoc, mem_append, mem_append, mem_singleton] at hc
        rcases hc with hc | hc | hc
        · exact ⟨p, by simp, hc⟩
        · exact absurd hc hne
        · obtain ⟨part, hpart, hc⟩ := ih hc
          exact ⟨part, mem_cons_of_mem _ hpart, hc⟩
  exact hno (hparts _ h)

theorem splitOnce_append (t : Str) (h : c ∉ s) : splitOnce c (s ++ c :: t) = some (s, t) := by
  induction s with
  | nil => simp [splitOnce]
  | cons x s ih =>
    obtain ⟨hx, hs⟩ := not_or.1 (fun hm => h (mem_cons.2 hm))
    simp [splitOnce, Ne.symm hx, ih hs]

theorem rsplitOnce_append {t} (s : Str) (h : c ∉ t) : rsplitOnce c (s ++ c :: t) = some (s, t) := by
  have hrev : (s ++ c :: t).reverse = t.reverse ++ c :: s.reverse := by simp
  rw [rsplitOnce, hrev, splitOnce_append _ (by simpa using h)]
  simp

theorem splitOnce_eq_append {a b} (h : splitOnce c s = some (a, b)) : s = a ++ c :: b := by
  induction s generalizing a with
  | nil => cases h
  | cons y s ih =>
    rw [splitOnce] at h
    split at h
    · next hy =>
      cases h
      rw [hy]
      rfl
    · obtain ⟨⟨a', b'⟩, h', hab⟩ := Option.map_eq_some_iff.1 h
      cases hab
      rw [ih h']
      rfl

theorem rsplitOnce_eq_append {a b} (h : rsplitOnce c s = some (a, b)) : s = a ++ c :: b := by
  obtain ⟨⟨a', b'⟩, h', hab⟩ := Option.map_eq_some_iff.1 h
  cases hab
  have := splitOnce_eq_append h'
  rw [← reverse_reverse s, this]
  simp

theorem splitOnce_eq_none (h : c ∉ s) : splitOnce c s = none := by
  induction s with
  | nil => rfl
  | cons x s ih =>
    obtain ⟨hx, hs⟩ := not_or.1 (fun hm => h (mem_cons.2 hm))
    simp [splitOnce, Ne.symm hx, ih hs]

theorem exists_splitOnce (h : c ∈ s) :
    ∃ a b, s = a ++ c :: b ∧ c ∉ a ∧ splitOnce c s = some (a, b) := by
  obtain ⟨a, b, rfl, ha⟩ := eq_append_cons_of_mem h
  exact ⟨a, b, rfl, ha, splitOnce_append b ha⟩

theorem stripPrefix_eq_some {pre rest} : stripPrefix pre s = some rest ↔ s = pre ++ rest := by
  rw [stripPrefix, isPrefixOf?_eq_some_iff_append_eq]
  exact eq_comm

theorem join_cons_cons (sep s t : Str) (ts : List Str) : join sep (s :: t :: ts) = s ++ sep ++ join sep (t :: ts) := by
  simp [join, List.intercalate]

theorem join_append_singleton {sep ts} (h : ts ≠ []) (s : Str) :
    join sep (ts ++ [s]) = join sep ts ++ sep ++ s := by
  induction ts with
  | nil => exact absurd rfl h
  | cons t ts ih =>
    cases ts with
    | nil => simp [join, List.intercalate]
    | cons u ts =>
      have hih := ih (by simp)
      rw [cons_append] at hih
      rw [cons_append, cons_append, join_cons_cons, hih, join_cons_cons]
      simp only [append_assoc]

/-! ## Words -/

@[simp] theorem splitWhitespace_nil : splitWhitespace [] = [] := rfl

theorem splitWhitespace_append_cons (s t : Str) {w} (hw : isWhitespace w = true) :
    splitWhitespace (s ++ w :: t) = splitWhitespace s ++ splitWhitespace t := by
  rw [splitWhitespace, splitOnP_append_cons s t hw, filter_append]
  rfl

theorem splitWhitespace_append_singleton (s : Str) {w} (hw : isWhitespace w = true) :
    splitWhitespace (s ++ [w]) = splitWhitespace s := by
  rw [splitWhitespace_append_cons s [] hw, splitWhitespace_nil, append_nil]

theorem splitWhitespace_word {t} (hne : t ≠ []) (ht : ∀ c ∈ t, isWhitespace c = false) :
    splitWhitespace t = [t] := by
  simp [splitWhitespace, splitOnP_eq_singleton ht, hne]

theorem ne_nil_of_mem_splitWhitespace {t} (h : t ∈ splitWhitespace s) : t ≠ [] := by
  simpa using (mem_filter.1 h).2

theorem splitOnP_parts {part} (h : part ∈ s.splitOnP p) (hc : c ∈ part) :
    p c = false := by
  induction s generalizing part with
  | nil =>
    rw [splitOnP_nil, mem_singleton] at h
    rw [h] at hc
    cases hc
  | cons x s ih =>
    rw [splitOnP_cons_eq_if_modifyHead] at h
    split at h
    · rcases mem_cons.1 h with rfl | h
      · cases hc
      · exact ih h hc
    · next hx =>
      obtain ⟨q, qs, hq⟩ := exists_cons_of_ne_nil (splitOnP_ne_nil p s)
      rw [hq, modifyHead_cons, mem_cons] at h
      rcases h with rfl | h
      · rcases mem_cons.1 hc with rfl | hc
        · simpa using hx
        · exact ih (hq ▸ mem_cons_self) hc
      · exact ih (hq ▸ mem_cons_of_mem _ h) hc

theorem not_mem_of_mem_splitOn {part} (h : part ∈ s.splitOn c) : c ∉ part := by
  intro hc
  have := splitOnP_parts h hc
  simp at this

theorem isWhitespace_of_mem_word {t} (h : t ∈ splitWhitespace s) (hc : c ∈ t) :
    isWhitespace c = false := splitOnP_parts (mem_filter.1 h).1 hc

/-! ## Trimming -/

theorem dropWhile_eq_self_of_head (h : ∀ c, s.head? = some c → p c = false) :
    s.dropWhile p = s := by
  cases s with
  | nil => rfl
  | cons a s => simp [List.dropWhile, h a rfl]

theorem rdropWhile_eq_self_of_last (h : ∀ c, s.getLast? = some c → p c = false) :
    s.rdropWhile p = s := by
  rw [List.rdropWhile, dropWhile_eq_self_of_head, reverse_reverse]
  intro c hc
  exact h c (by rwa [head?_reverse] at hc)

theorem trimBy_eq_self (hhead : ∀ c, s.head? = some c → p c = false)
    (hlast : ∀ c, s.getLast? = some c → p c = false) : trimBy p s = s := by
  rw [trimBy, dropWhile_eq_self_of_head hhead, rdropWhile_eq_self_of_last hlast]

theorem getLast?_rdropWhile (h : (s.rdropWhile p).getLast? = some c) :
    p c = false := by
  rw [List.rdropWhile, getLast?_reverse] at h
  have := head?_dropWhile_not p s.reverse
  rwa [h] at this

theorem head?_trimBy (h : (trimBy p s).head? = some c) : p c = false := by
  obtain ⟨t, ht⟩ := rdropWhile_prefix p (s.dropWhile p)
  have hd : (s.dropWhile p).head? = some c := by
    rw [← ht, head?_append]
    simp only [trimBy] at h
    simp [h]
  have := head?_dropWhile_not p s
  rwa [hd] at this

theorem trimBy_ne_nil (hc : c ∈ s) (hp : p c = false) : trimBy p s ≠ [] := by
  have hdrop : s.dropWhile p ≠ [] := fun hnil => by
    rw [dropWhile_eq_nil_iff.1 hnil c hc] at hp
    cases hp
  obtain ⟨x, xs, hxs⟩ := exists_cons_of_ne_nil hdrop
  have hx := head?_dropWhile_not p s
  rw [hxs] at hx
  rw [trimBy, hxs]
  intro hnil
  have := rdropWhile_eq_nil_iff.1 hnil x mem_cons_self
  rw [show p x = false from hx] at this
  cases this

theorem trimBy_trimBy (p : Char → Bool) (s : Str) : trimBy p (trimBy p s) = trimBy p s :=
  trimBy_eq_self (fun _ h => head?_trimBy h) (fun _ h => getLast?_rdropWhile h)

/-! ## Letters -/

theorem toNat_toLower (c : Char) : c.toLower.toNat = if 65 ≤ c.toNat ∧ c.toNat ≤ 90 then c.toNat + 32 else c.toNat := by
  have hiff : (c.val ≥ 'A'.val ∧ c.val ≤ 'Z'.val) ↔ 65 ≤ c.toNat ∧ c.toNat ≤ 90 := by
    rfl
  delta Char.toLower
  split
  · next h =>
    have hc := hiff.1 h
    rw [if_pos hc]
    show (c.val + 32).toNat = c.val.toNat + 32
    exact Nat.mod_eq_of_lt (show c.toNat + 32 < _ by omega)
  · next h => rw [if_neg fun hc => h (hiff.2 hc)]

theorem toLower_eq_self (h : ¬ (65 ≤ c.toNat ∧ c.toNat ≤ 90)) : c.toLower = c := by
  apply Char.toNat_inj.1
  rw [toNat_toLower, if_neg h]

theorem toLower_of_isWhitespace (h : isWhitespace c = true) : c.toLower = c := by
  refine toLower_eq_self fun hletter => ?_
  simp only [isWhitespace, Bool.or_eq_true, Bool.and_eq_true, decide_eq_true_eq, beq_iff_eq] at h
  omega

theorem eq_of_toLower_eq {d} (hd : ¬ (97 ≤ d.toNat ∧ d.toNat ≤ 122)) (h : c.toLower = d) : c = d := by
  have hn := toNat_toLower c
  rw [h] at hn
  apply Char.toNat_inj.1
  split at hn
  · omega
  · exact hn.symm

theorem head?_toAsciiLowercase (h : (toAsciiLowercase s).head? = some c) :
    ∃ d, s.head? = some d ∧ d.toLower = c := by
  rwa [toAsciiLowercase, head?_map, Option.map_eq_some_iff] at h

theorem getLast?_toAsciiLowercase (h : (toAsciiLowercase s).getLast? = some c) :
    ∃ d, s.getLast? = some d ∧ d.toLower = c := by
  rwa [toAsciiLowercase, getLast?_map, Option.map_eq_some_iff] at h

/-- Lower case does not bring a trimmed character that is no letter back. -/
theorem trimMatches_toAsciiLowercase (hc : ¬ (97 ≤ c.toNat ∧ c.toNat ≤ 122)) (s : Str) :
    trimMatches c (toAsciiLowercase (trimMatches c s)) = toAsciiLowercase (trimMatches c s) := by
  refine trimBy_eq_self (fun x hx => ?_) fun x hx => ?_
  · obtain ⟨d, hd, rfl⟩ := head?_toAsciiLowercase hx
    have hne := head?_trimBy hd
    rw [beq_eq_false_iff_ne] at hne ⊢
    exact fun h => hne (eq_of_toLower_eq hc h)
  · obtain ⟨d, hd, rfl⟩ := getLast?_toAsciiLowercase hx
    have hne := getLast?_rdropWhile hd
    rw [beq_eq_false_iff_ne] at hne ⊢
    exact fun h => hne (eq_of_toLower_eq hc h)

/-! ## Trimming an append -/

theorem trim_append {lead s} (hlead : ∀ c ∈ lead, isWhitespace c = true)
    (hhead : ∀ c, s.head? = some c → isWhitespace c = false)
    (hlast : ∀ c, s.getLast? = some c → isWhitespace c = false) :
    trim (lead ++ s) = s := by
  rw [trim, trimBy, dropWhile_append_of_pos hlead]
  exact trimBy_eq_self hhead hlast

theorem trim_append_word {lead w} (hlead : ∀ c ∈ lead, isWhitespace c = true)
    (hw : ∀ c ∈ w, isWhitespace c = false) : trim (lead ++ w) = w :=
  trim_append hlead (fun c hc => hw c (mem_of_head? hc)) fun c hc => hw c (mem_of_getLast? hc)

theorem rdropWhile_append_left (h : ∀ c, s.getLast? = some c → p c = false) (t : Str) :
    (s ++ t).rdropWhile p = s ++ t.rdropWhile p := by
  have hself : (s.reverse.dropWhile p) = s.reverse :=
    dropWhile_eq_self_of_head fun c hc => h c (by rwa [head?_reverse] at hc)
  rw [List.rdropWhile, List.rdropWhile, reverse_append, dropWhile_append, hself]
  split
  · next hempty => simp [isEmpty_iff.1 hempty]
  · simp

theorem trimBy_rdropWhile (p : Char → Bool) (s : Str) : trimBy p (s.rdropWhile p) = trimBy p s := by
  induction s with
  | nil => rfl
  | cons c s ih =>
    by_cases hc : p c = true
    · have hcons : (c :: s).rdropWhile p = [] ∨ (c :: s).rdropWhile p = c :: s.rdropWhile p := by
        rw [List.rdropWhile, reverse_cons, dropWhile_append]
        split
        · simp [List.dropWhile, hc]
        · simp [List.rdropWhile]
      have hdrop : trimBy p (c :: s) = trimBy p s := by simp [trimBy, List.dropWhile, hc]
      rcases hcons with hnil | hcons
      · have hall : ∀ d ∈ s, p d = true := fun d hd => rdropWhile_eq_nil_iff.1 hnil d (mem_cons_of_mem _ hd)
        rw [hnil, hdrop, ← ih, rdropWhile_eq_nil_iff.2 hall]
      · rw [hcons, hdrop, ← ih]
        simp [trimBy, List.dropWhile, hc]
    · have hself : ([c] ++ s).rdropWhile p = [c] ++ s.rdropWhile p :=
        rdropWhile_append_left (fun d hd => by simp at hd; simpa [← hd] using hc) s
      rw [singleton_append, singleton_append] at hself
      rw [hself, trimBy, trimBy, dropWhile_cons_of_neg hc, dropWhile_cons_of_neg hc, hself,
        ← singleton_append, rdropWhile_append_left (fun d hd => by simp at hd; simpa [← hd] using hc),
        rdropWhile_eq_self_of_last fun _ => getLast?_rdropWhile]

theorem trimBy_infix (p : Char → Bool) (s : Str) : trimBy p s <:+: s :=
  (List.rdropWhile_prefix p _).isInfix.trans (dropWhile_suffix p).isInfix

theorem mem_of_mem_trimBy (h : c ∈ trimBy p s) : c ∈ s :=
  (dropWhile_suffix p).subset ((List.rdropWhile_prefix p _).subset h)

@[simp] theorem trim_trim (s : Str) : trim (trim s) = trim s := trimBy_trimBy isWhitespace s

end Str

end Rove
