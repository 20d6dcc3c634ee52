/-
Runs of a component that takes its inputs one at a time: each step gives a new
state and an answer. What one step keeps, a whole run keeps; an invariant may
speak about the inputs and answers so far.
-/
import Mathlib.Data.List.Basic

namespace Rove

variable {σ ι ο : Type} (step : σ → ι → σ × ο)

/-- The state after a sequence of inputs. -/
def runState : σ → List ι → σ
  | s, [] => s
  | s, i :: is => runState (step s i).1 is

/-- The inputs of a run, each with its answer. -/
def runTrace : σ → List ι → List (ι × ο)
  | _, [] => []
  | s, i :: is => (i, (step s i).2) :: runTrace (step s i).1 is

variable {step}

theorem runState_append (s : σ) (is js : List ι) :
    runState step s (is ++ js) = runState step (runState step s is) js := by
  induction is generalizing s with
  | nil => rfl
  | cons i is ih => exact ih _

/-- An invariant of the state and the history holds at the end of every run. -/
theorem run_induction {Inv : σ → List (ι × ο) → Prop}
    (hstep : ∀ s hist i, Inv s hist → Inv (step s i).1 (hist ++ [(i, (step s i).2)])) {s : σ} {hist : List (ι × ο)}
    (h : Inv s hist) (is : List ι) : Inv (runState step s is) (hist ++ runTrace step s is) := by
  induction is generalizing s hist with
  | nil => simpa [runTrace, runState] using h
  | cons i is ih =>
    have := ih (hstep s hist i h)
    rwa [List.append_assoc] at this

/-- What holds of the state and is kept by every step holds after every run. -/
theorem runState_induction {Inv : σ → Prop} (hstep : ∀ s i, Inv s → Inv (step s i).1) {s : σ} (h : Inv s)
    (is : List ι) : Inv (runState step s is) := by
  induction is generalizing s with
  | nil => exact h
  | cons i is ih => exact ih (hstep s i h)

/-- What holds of the state and is kept by every step on an input with a
property, holds through a run over such inputs; and so does what each such step
says about its input and answer. -/
theorem runTrace_induction {Inv : σ → Prop} {P : ι → Prop} {Q : ι × ο → Prop}
    (hstep : ∀ s i, Inv s → P i → Inv (step s i).1 ∧ Q (i, (step s i).2)) {s : σ} (h : Inv s) {is : List ι}
    (his : ∀ i ∈ is, P i) : ∀ e ∈ runTrace step s is, Q e := by
  induction is generalizing s with
  | nil => exact fun e he => absurd he List.not_mem_nil
  | cons i is ih =>
    obtain ⟨hnext, hout⟩ := hstep s i h (his i List.mem_cons_self)
    intro e he
    rcases List.mem_cons.1 he with rfl | he
    · exact hout
    · exact ih hnext (fun j hj => his j (List.mem_cons_of_mem _ hj)) e he

variable (step) in
/-- What holds of every step of a run, of the state and the input it takes. -/
def EveryStep (P : σ → ι → Prop) : σ → List ι → Prop
  | _, [] => True
  | s, i :: is => P s i ∧ EveryStep P (step s i).1 is

instance {P : σ → ι → Prop} [∀ s i, Decidable (P s i)] : ∀ (s : σ) (is : List ι), Decidable (EveryStep step P s is)
  | _, [] => .isTrue trivial
  | s, i :: is => @instDecidableAnd _ _ _ (instDecidableEveryStep (step s i).1 is)

/-- Two properties of steps that come to the same where an invariant holds, one
of which keeps the invariant, come to the same for runs. -/
theorem everyStep_iff {Inv : σ → Prop} {P C : σ → ι → Prop} (hiff : ∀ s i, Inv s → (P s i ↔ C s i))
    (hkeep : ∀ s i, Inv s → C s i → Inv (step s i).1) {s : σ} (h : Inv s) (is : List ι) :
    EveryStep step P s is ↔ EveryStep step C s is := by
  induction is generalizing s with
  | nil => exact Iff.rfl
  | cons i is ih =>
    constructor
    · rintro ⟨hp, hrest⟩
      have hc := (hiff s i h).1 hp
      exact ⟨hc, (ih (hkeep s i h hc)).1 hrest⟩
    · rintro ⟨hc, hrest⟩
      exact ⟨(hiff s i h).2 hc, (ih (hkeep s i h hc)).2 hrest⟩

/-- A place in the trace is a place in the inputs, and its answer was given in the
state that the inputs before it lead to. -/
theorem runTrace_eq_append_cons {s is before after i o}
    (h : runTrace step s is = before ++ (i, o) :: after) :
    ∃ is₁ is₂, is = is₁ ++ i :: is₂ ∧ before = runTrace step s is₁ ∧ o = (step (runState step s is₁) i).2 := by
  induction before generalizing s is with
  | nil =>
    cases is with
    | nil => cases h
    | cons j is =>
      obtain ⟨hhead, -⟩ := List.cons.inj h
      cases hhead
      exact ⟨[], is, rfl, rfl, rfl⟩
  | cons e before ih =>
    cases is with
    | nil => cases h
    | cons j is =>
      obtain ⟨rfl, htail⟩ := List.cons.inj h
      obtain ⟨is₁, is₂, rfl, rfl, ho⟩ := ih htail
      exact ⟨j :: is₁, is₂, rfl, rfl, ho⟩

/-- An answer in the trace was given in the state that the inputs before it lead to. -/
theorem mem_runTrace {s is i o} (h : (i, o) ∈ runTrace step s is) :
    ∃ before after, is = before ++ i :: after ∧ o = (step (runState step s before) i).2 := by
  obtain ⟨before, after, htrace⟩ := List.append_of_mem h
  obtain ⟨is₁, is₂, his, -, ho⟩ := runTrace_eq_append_cons htrace
  exact ⟨is₁, is₂, his, ho⟩

end Rove
