/-
Lines that end in CR LF: taking a text apart into them, putting it together,
and where the first blank line is.
-/
import Rove.Base.FindSub

namespace Rove.Str

open List

/-- `str::split("\r\n")`. -/
def splitCrlf : Str → List Str
  | [] => [[]]
  | '\r' :: '\n' :: s => [] :: splitCrlf s
  | c :: s => (splitCrlf s).modifyHead (c :: ·)

def joinCrlf (ls : List Str) : Str := ls.flatMap (· ++ ['\r', '\n'])

def IsLine (s : Str) : Prop := splitCrlf s = [s]

theorem joinCrlf_cons (l : Str) (ls : List Str) : joinCrlf (l :: ls) = l ++ '\r' :: '\n' :: joinCrlf ls := by
  simp [joinCrlf]

theorem splitCrlf_cons_of_not {c s} (h : ¬ (c = '\r' ∧ s.head? = some '\n')) :
    splitCrlf (c :: s) = (splitCrlf s).modifyHead (c :: ·) := by
  refine splitCrlf.eq_3 c s fun s' hc hs => h ⟨hc, ?_⟩
  rw [hs]
  rfl

theorem crlf_cases (c : Char) (s : Str) :
    (∃ t, c = '\r' ∧ s = '\n' :: t) ∨ ¬ (c = '\r' ∧ s.head? = some '\n') := by
  by_cases h : c = '\r' ∧ s.head? = some '\n'
  · obtain ⟨t, ht⟩ := head?_eq_some_iff.1 h.2
    exact .inl ⟨t, h.1, ht⟩
  · exact .inr h

theorem splitCrlf_ne_nil (s : Str) : splitCrlf s ≠ [] := by
  fun_induction splitCrlf s with
  | case1 => simp
  | case2 s ih => simp
  | case3 c s h ih => simpa using ih

theorem exists_splitCrlf (s : Str) : ∃ l ls, splitCrlf s = l :: ls :=
  exists_cons_of_ne_nil (splitCrlf_ne_nil s)

/-! ## Lines -/

theorem isLine_nil : IsLine [] := rfl

theorem isLine_cons_iff {c s} :
    IsLine (c :: s) ↔ ¬ (c = '\r' ∧ s.head? = some '\n') ∧ IsLine s := by
  unfold IsLine
  rcases crlf_cases c s with ⟨t, rfl, rfl⟩ | h
  · simp [splitCrlf]
  · obtain ⟨l, ls, hs⟩ := exists_splitCrlf s
    simp [splitCrlf_cons_of_not h, hs, h]

theorem isLine_of_not_mem {s} (h : '\n' ∉ s) : IsLine s := by
  induction s with
  | nil => exact isLine_nil
  | cons c s ih =>
    obtain ⟨_, hs⟩ := not_or.1 fun hm => h (mem_cons.2 hm)
    exact isLine_cons_iff.2 ⟨fun hcs => hs (mem_of_head? hcs.2), ih hs⟩

/-! ## Taking apart and putting together -/

theorem splitCrlf_append_crlf (s t : Str) : splitCrlf (s ++ '\r' :: '\n' :: t) = splitCrlf s ++ splitCrlf t := by
  fun_induction splitCrlf s with
  | case1 => rfl
  | case2 s ih => simp [splitCrlf, ih]
  | case3 c s hc ih =>
    have hnot : ¬ (c = '\r' ∧ (s ++ '\r' :: '\n' :: t).head? = some '\n') := by
      intro h
      cases s with
      | nil => exact absurd h.2 (by simp)
      | cons d s => exact hc s h.1 (by rw [show d = '\n' by simpa using h.2])
    obtain ⟨m, ms, hs⟩ := exists_splitCrlf s
    rw [cons_append, splitCrlf_cons_of_not hnot, ih, hs]
    rfl

theorem splitCrlf_joinCrlf_append {ls} (hls : ∀ l ∈ ls, IsLine l) (t : Str) :
    splitCrlf (joinCrlf ls ++ t) = ls ++ splitCrlf t := by
  induction ls with
  | nil => rfl
  | cons l ls ih =>
    rw [forall_mem_cons] at hls
    rw [joinCrlf_cons, append_assoc, cons_append, cons_append, splitCrlf_append_crlf, hls.1, ih hls.2]
    rfl

/-! ## The first blank line -/

/-- The lines before the first blank one. -/
def headLines (s : Str) : List Str := (splitCrlf s).takeWhile (· ≠ [])

theorem headLines_joinCrlf {ls} (hls : ∀ l ∈ ls, IsLine l ∧ l ≠ []) :
    headLines (joinCrlf ls ++ ['\r', '\n']) = ls := by
  rw [headLines, splitCrlf_joinCrlf_append fun l hl => (hls l hl).1]
  have hall : ∀ l ∈ ls, decide (l ≠ []) = true := fun l hl => by simpa using (hls l hl).2
  rw [takeWhile_append_of_pos hall]
  simp [splitCrlf]

/-- `\r\n\r\n`. -/
def blankEnd : Str := ['\r', '\n', '\r', '\n']

theorem findSub_blankEnd_line {l} (hl : IsLine l) (t : Str) :
    findSub blankEnd (l ++ '\r' :: '\n' :: t) =
      if ['\r', '\n'] <+: t then some l.length else (findSub blankEnd t).map (· + (l.length + 2)) := by
  induction l with
  | nil =>
    have hiff : blankEnd <+: '\r' :: '\n' :: t ↔ ['\r', '\n'] <+: t := by
      simp [blankEnd, cons_prefix_cons]
    have hnext : findSub blankEnd ('\n' :: t) = (findSub blankEnd t).map (· + 1) := by
      rw [findSub, if_neg]
      simp [blankEnd, cons_prefix_cons]
    rw [nil_append, findSub, hnext, Option.map_map]
    by_cases h : ['\r', '\n'] <+: t
    · rw [if_pos ⟨by simp [blankEnd], hiff.2 h⟩, if_pos h]
      rfl
    · rw [if_neg fun h' => h (hiff.1 h'.2), if_neg h]
      rfl
  | cons c l ih =>
    obtain ⟨hc, hl⟩ := isLine_cons_iff.1 hl
    have hnot : ¬ blankEnd <+: c :: (l ++ '\r' :: '\n' :: t) := by
      intro h
      obtain ⟨hcr, h⟩ := cons_prefix_cons.1 h
      cases l with
      | nil => exact absurd (cons_prefix_cons.1 h).1 (by decide)
      | cons d l => exact hc ⟨hcr.symm, by rw [← (cons_prefix_cons.1 h).1]; rfl⟩
    rw [cons_append, findSub, if_neg fun h => hnot h.2, ih hl]
    split
    · rfl
    · rw [Option.map_map]
      refine congrArg (Option.map · _) (funext fun i => ?_)
      simp only [Function.comp, length_cons]
      omega

/-- The first blank line is the one after the lines that are not blank. -/
theorem findSub_blankEnd {ls} (hne : ls ≠ []) (hls : ∀ l ∈ ls, IsLine l ∧ l ≠ []) (t : Str) :
    ∃ body, joinCrlf ls = body ++ ['\r', '\n'] ∧ splitCrlf body = ls ∧
      findSub blankEnd (joinCrlf ls ++ '\r' :: '\n' :: t) = some body.length := by
  induction ls with
  | nil => exact absurd rfl hne
  | cons l ls ih =>
    rw [forall_mem_cons] at hls
    obtain ⟨⟨hl, _⟩, hrest⟩ := hls
    have hfind := findSub_blankEnd_line hl (joinCrlf ls ++ '\r' :: '\n' :: t)
    rw [joinCrlf_cons, append_assoc, cons_append, cons_append, hfind]
    cases ls with
    | nil => exact ⟨l, rfl, hl, if_pos ⟨t, rfl⟩⟩
    | cons m ms =>
      obtain ⟨body, hjoin, hsplit, hfound⟩ := ih (cons_ne_nil _ _) hrest
      obtain ⟨hm, hmne⟩ := hrest m mem_cons_self
      have hnot : ¬ ['\r', '\n'] <+: joinCrlf (m :: ms) ++ '\r' :: '\n' :: t := by
        intro h
        cases m with
        | nil => exact hmne rfl
        | cons c m =>
          obtain ⟨hc, h⟩ := cons_prefix_cons.1 h
          cases m with
          | nil => exact absurd (cons_prefix_cons.1 h).1 (by decide)
          | cons d m =>
            exact (isLine_cons_iff.1 hm).1 ⟨hc.symm, by rw [← (cons_prefix_cons.1 h).1]; rfl⟩
      refine ⟨l ++ '\r' :: '\n' :: body, by rw [hjoin]; simp, ?_, ?_⟩
      · rw [splitCrlf_append_crlf, hl, hsplit]
        rfl
      · rw [if_neg hnot, hfound]
        simp only [Option.map_some, length_append, length_cons]
        congr 1
        omega

end Rove.Str
