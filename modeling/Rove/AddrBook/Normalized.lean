/-
Texts as the lines of a book give them, normalised. `validate` asks that trimming
a stored text again leaves it as it is: that neither of its ends is a dot or white
space (`isNormalizedMatchText_iff`). A suffix is stored with its labels reversed,
which puts no dot at an end (`reverseLabels_ends`).
-/
import Rove.AddrBook.Compiled

namespace Rove.AddrBook

open List
open Policy (Rule suffixOf revLabels)

/-! ## Normalised rules -/

theorem any_isAsciiUppercase_normalizeDomain (host : Str) : (normalizeDomain host).any isAsciiUppercase = false := by
  rw [any_eq_false]
  intro c hc
  obtain ⟨d, -, rfl⟩ := mem_map.1 hc
  have hd := Str.toNat_toLower d
  simp only [isAsciiUppercase, Bool.and_eq_true, decide_eq_true_eq]
  split at hd <;> omega

theorem join_reverse_perm (sep : Str) (parts : List Str) : (Str.join sep parts.reverse).Perm (Str.join sep parts) := by
  induction parts with
  | nil => exact List.Perm.refl _
  | cons part parts ih =>
    cases parts with
    | nil => exact List.Perm.refl _
    | cons next parts =>
      rw [reverse_cons, Str.join_append_singleton (by simp), Str.join_cons_cons, append_assoc part]
      exact perm_append_comm.trans ((perm_append_comm.trans (ih.append_left sep)).append_left part)

theorem reverseLabels_perm (name : Str) : (reverseLabels name).Perm name := by
  have hjoin : Str.join ['.'] (name.splitOn '.') = name := intercalate_splitOn '.'
  have hperm := join_reverse_perm ['.'] (name.splitOn '.')
  rwa [hjoin] at hperm

theorem suffixOf_suffix (host : Str) : suffixOf host <:+ normalizeDomain host := by
  have hnorm : Policy.normalize host = normalizeDomain host := rfl
  rw [suffixOf, hnorm]
  cases hstrip : Str.stripPrefix "*." (normalizeDomain host) with
  | none => exact suffix_rfl
  | some rest =>
    rw [Str.stripPrefix_eq_some.1 hstrip]
    exact suffix_append _ _

/-- A rule whose texts are normalised, as those of a line are. -/
def IsNormalized : Rule → Prop
  | .full name => ∃ host, name = normalizeDomain host
  | .keyword word => ∃ host, word = normalizeDomain host
  | .suffix name => ∃ host, name = suffixOf host
  | _ => True

/-! ## Texts that trimming leaves as they are -/

/-- Neither end is a dot or white space. -/
def EndsClear (text : Str) : Prop :=
  (∀ c, text.head? = some c → c ≠ '.' ∧ Str.isWhitespace c = false) ∧
    ∀ c, text.getLast? = some c → c ≠ '.' ∧ Str.isWhitespace c = false

theorem isNormalizedMatchText_iff {text} (hlower : text.any isAsciiUppercase = false) :
    isNormalizedMatchText text = true ↔ EndsClear text := by
  simp only [isNormalizedMatchText, hlower, Bool.not_false, Bool.and_true, beq_iff_eq]
  constructor
  · intro h
    -- what is left after trimming twice is all of it, so each trimming leaves all of it
    have hsub : text.Sublist (Str.trim text) := by
      conv_lhs => rw [h]
      exact (Str.trimBy_infix _ _).sublist
    have htrim : Str.trim text = text := (Str.trimBy_infix _ _).sublist.antisymm hsub
    refine ⟨fun c hc => ⟨?_, ?_⟩, fun c hc => ⟨?_, ?_⟩⟩
    · rw [h] at hc
      simpa using Str.head?_trimBy hc
    · rw [← htrim] at hc
      exact Str.head?_trimBy hc
    · rw [h] at hc
      simpa using Str.getLast?_rdropWhile hc
    · rw [← htrim] at hc
      exact Str.getLast?_rdropWhile hc
  · intro h
    have htrim : Str.trim text = text := Str.trimBy_eq_self (fun c hc => (h.1 c hc).2) fun c hc => (h.2 c hc).2
    rw [htrim]
    exact (Str.trimBy_eq_self (fun c hc => by simpa using (h.1 c hc).1) fun c hc => by simpa using (h.2 c hc).1).symm

/-- Joined labels begin with a dot if and only if the first label is empty. -/
theorem head_join_iff {label labels} (hdot : '.' ∉ label) (hne : Str.join ['.'] (label :: labels) ≠ []) :
    (∀ c, (Str.join ['.'] (label :: labels)).head? = some c → c ≠ '.') ↔ label ≠ [] := by
  have hjoin : ∃ rest, Str.join ['.'] (label :: labels) = label ++ rest ∧ (rest = [] ∨ rest.head? = some '.') := by
    cases labels with
    | nil => exact ⟨[], by simp [Str.join, List.intercalate], .inl rfl⟩
    | cons next labels => exact ⟨_, by rw [Str.join_cons_cons, append_assoc], .inr rfl⟩
  obtain ⟨rest, hjoin, hrest⟩ := hjoin
  rw [hjoin] at hne ⊢
  cases label with
  | nil =>
    have hhead := hrest.resolve_left (by simpa using hne)
    simp [hhead]
  | cons x label =>
    have hx : x ≠ '.' := fun heq => hdot (heq ▸ mem_cons_self)
    simp [hx]

/-- They end with one if and only if the last label is. -/
theorem last_join_iff {label labels} (hdot : '.' ∉ label) (hne : Str.join ['.'] (labels ++ [label]) ≠ []) :
    (∀ c, (Str.join ['.'] (labels ++ [label])).getLast? = some c → c ≠ '.') ↔ label ≠ [] := by
  have hjoin : ∃ rest, Str.join ['.'] (labels ++ [label]) = rest ++ label ∧ (rest = [] ∨ rest.getLast? = some '.') := by
    by_cases hl : labels = []
    · exact ⟨[], by simp [hl, Str.join, List.intercalate], .inl rfl⟩
    · exact ⟨_, Str.join_append_singleton hl label, .inr (by simp)⟩
  obtain ⟨rest, hjoin, hrest⟩ := hjoin
  rw [hjoin] at hne ⊢
  rcases eq_nil_or_concat label with rfl | ⟨label, x, rfl⟩
  · have hlast := hrest.resolve_left (by simpa using hne)
    simp [hlast]
  · have hx : x ≠ '.' := fun heq => hdot (by simp [heq])
    simp [hx]

theorem reverseLabels_ends {name : Str} (hhead : ∀ c, name.head? = some c → c ≠ '.')
    (hlast : ∀ c, name.getLast? = some c → c ≠ '.') :
    (∀ c, (reverseLabels name).head? = some c → c ≠ '.') ∧ ∀ c, (reverseLabels name).getLast? = some c → c ≠ '.' := by
  by_cases hne : name = []
  · subst hne
    exact ⟨hhead, hlast⟩
  have hdots : ∀ label ∈ name.splitOn '.', '.' ∉ label := fun label hlabel => Str.not_mem_of_mem_splitOn hlabel
  have hrevne : reverseLabels name ≠ [] := fun hnil => hne (perm_nil.1 (hnil ▸ reverseLabels_perm name).symm)
  have hlabels : name.splitOn '.' ≠ [] := splitOn_ne_nil '.' name
  have hjoin : Str.join ['.'] (name.splitOn '.') = name := intercalate_splitOn '.'
  -- the first label of one text is the last of the other
  obtain ⟨init, last, hinit⟩ : ∃ init last, name.splitOn '.' = init ++ [last] :=
    ⟨_, _, (dropLast_append_getLast hlabels).symm⟩
  obtain ⟨first, rest, hfirst⟩ := exists_cons_of_ne_nil hlabels
  have hdotFirst : '.' ∉ first := hdots first (by simp [hfirst])
  have hdotLast : '.' ∉ last := hdots last (by simp [hinit])
  have hrevInit : reverseLabels name = Str.join ['.'] (last :: init.reverse) := by
    rw [reverseLabels, hinit, reverse_append, reverse_singleton, singleton_append]
  have hrevFirst : reverseLabels name = Str.join ['.'] (rest.reverse ++ [first]) := by
    rw [reverseLabels, hfirst, reverse_cons]
  have hfirstNe : first ≠ [] := by
    rw [← hjoin, hfirst] at hne hhead
    exact (head_join_iff hdotFirst hne).1 hhead
  have hlastNe : last ≠ [] := by
    rw [← hjoin, hinit] at hne hlast
    exact (last_join_iff hdotLast hne).1 hlast
  constructor
  · rw [hrevInit] at hrevne ⊢
    exact (head_join_iff hdotLast hrevne).2 hlastNe
  · rw [hrevFirst] at hrevne ⊢
    exact (last_join_iff hdotFirst hrevne).2 hfirstNe

end Rove.AddrBook
