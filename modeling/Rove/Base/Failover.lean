/-
Trying candidates one after the other until one works, as long as there is time
for another. The loop keeps the candidates it tried: a first part of those it was
given, of which all but the last failed.
-/
import Mathlib.Data.List.Basic

namespace Rove.Failover

variable {α β γ ε : Type}

/-- The candidates tried from attempt `n` on, and what came of them: the candidate
that worked and the number of attempts, or that number and the last error. -/
def run (budget : Nat → Option γ) (attempt : Nat → γ → α → Except ε β) :
    List α → Nat → Option ε → List α × Except (Nat × Option ε) (α × β × Nat)
  | [], n, last => ([], .error (n, last))
  | a :: as, n, last =>
    match budget n with
    | none => ([], .error (n, last))
    | some limit =>
      match attempt n limit a with
      | .ok b => ([a], .ok (a, b, n + 1))
      | .error e => (a :: (run budget attempt as (n + 1) (some e)).1, (run budget attempt as (n + 1) (some e)).2)

/-- The candidate at each place was given its time and failed, the first of them at
attempt `n`. -/
def AllFail (budget : Nat → Option γ) (attempt : Nat → γ → α → Except ε β) (n : Nat) (tried : List α) : Prop :=
  ∀ i a, tried[i]? = some a → ∃ limit e, budget (n + i) = some limit ∧ attempt (n + i) limit a = .error e

variable {budget : Nat → Option γ} {attempt : Nat → γ → α → Except ε β}

theorem allFail_nil {n} : AllFail budget attempt n [] := by
  intro i a h
  simp at h

theorem AllFail.cons {n a as limit e} (hbudget : budget n = some limit)
    (ha : attempt n limit a = .error e) (has : AllFail budget attempt (n + 1) as) :
    AllFail budget attempt n (a :: as) := by
  intro i b h
  cases i with
  | zero =>
    obtain rfl : a = b := by simpa using h
    exact ⟨limit, e, hbudget, ha⟩
  | succ i =>
    obtain ⟨limit, e, hbudget, hb⟩ := has i b (by simpa using h)
    have hn : n + 1 + i = n + (i + 1) := by omega
    exact ⟨limit, e, hn ▸ hbudget, hn ▸ hb⟩

theorem tried_initial (as : List α) (n : Nat) (last : Option ε) : (run budget attempt as n last).1 <+: as := by
  induction as generalizing n last with
  | nil => simp [run]
  | cons a as ih =>
    rw [run]
    split
    · exact List.nil_prefix
    · split
      · exact List.prefix_append [a] as
      · exact List.cons_prefix_cons.2 ⟨rfl, ih _ _⟩

/-- A candidate that works is the last one tried, and the first that worked. -/
theorem run_ok {as n last a b m}
    (h : (run budget attempt as n last).2 = .ok (a, b, m)) :
    ∃ failed limit, (run budget attempt as n last).1 = failed ++ [a] ∧ m = n + failed.length + 1 ∧
      AllFail budget attempt n failed ∧ budget (n + failed.length) = some limit ∧
      attempt (n + failed.length) limit a = .ok b := by
  induction as generalizing n last with
  | nil => cases h
  | cons c as ih =>
    rw [run] at h ⊢
    cases hbudget : budget n with
    | none =>
      rw [hbudget] at h
      cases h
    | some limit =>
      cases hc : attempt n limit c with
      | ok b' =>
        simp only [hbudget, hc, Except.ok.injEq, Prod.mk.injEq] at h
        obtain ⟨rfl, rfl, rfl⟩ := h
        exact ⟨[], limit, by simp [hc], rfl, allFail_nil, hbudget, hc⟩
      | error e =>
        simp only [hbudget, hc] at h
        obtain ⟨failed, limit', htried, hm, hfail, hbudget', ha⟩ := ih h
        have hn : n + (c :: failed).length = n + 1 + failed.length := by simp; omega
        refine ⟨c :: failed, limit', ?_, by omega, hfail.cons hbudget hc, ?_, ?_⟩
        · simp only [hc, htried, List.cons_append]
        · rw [hn]
          exact hbudget'
        · rw [hn]
          exact ha

/-- When none works, the number is that of the candidates tried, and there was no
candidate or no time left. -/
theorem run_error {as n last last' m}
    (h : (run budget attempt as n last).2 = .error (m, last')) :
    m = n + (run budget attempt as n last).1.length ∧ AllFail budget attempt n (run budget attempt as n last).1 ∧
      ((run budget attempt as n last).1 = as ∨ budget m = none) := by
  induction as generalizing n last with
  | nil =>
    simp only [run, Except.error.injEq, Prod.mk.injEq] at h
    exact ⟨by simp [run, h.1], allFail_nil, .inl rfl⟩
  | cons c as ih =>
    rw [run] at h ⊢
    cases hbudget : budget n with
    | none =>
      simp only [hbudget, Except.error.injEq, Prod.mk.injEq] at h
      exact ⟨by simp [h.1], allFail_nil, .inr (h.1 ▸ hbudget)⟩
    | some limit =>
      cases hc : attempt n limit c with
      | ok b =>
        simp only [hbudget, hc] at h
        cases h
      | error e =>
        simp only [hbudget, hc] at h
        obtain ⟨hm, hfail, hend⟩ := ih h
        simp only [hc]
        refine ⟨by simp; omega, hfail.cons hbudget hc, ?_⟩
        cases hend with
        | inl hall => exact .inl (by rw [hall])
        | inr hnone => exact .inr hnone

end Rove.Failover
