/-
Fallible computations: `anyhow::Result` as `Except String`, with what the
proofs need to take a computation that succeeded apart.
-/
import Mathlib.Data.List.Forall2

namespace Rove

open List

/-- `anyhow::Result<T>`: a value or an error text. -/
abbrev Res (α : Type) := Except String α

/-- `anyhow::ensure!`, or `if !c { return Err(e) }`. -/
def ensure {ε : Type} (c : Prop) [Decidable c] (e : ε) : Except ε Unit := if c then .ok () else .error e

/-- `TryFromIntError`, as it prints. -/
def tryFromIntError : String := "out of range integral type conversion attempted"

namespace Res

variable {ε α β : Type}

variable {f : α → Except ε β} {b : β} {l : List α}

theorem bind_eq_ok {x} :
    (x >>= f) = .ok b ↔ ∃ a, x = .ok a ∧ f a = .ok b := by
  cases x with
  | error e => exact ⟨fun h => (nomatch h), fun h => (nomatch h.choose_spec.1)⟩
  | ok a =>
    refine ⟨fun h => ⟨a, rfl, h⟩, fun h => ?_⟩
    obtain ⟨a', h₁, h₂⟩ := h
    cases h₁
    exact h₂

theorem exists_of_isOk {x : Except ε α} (h : x.isOk = true) : ∃ a, x = .ok a := by
  cases x with
  | error e => cases h
  | ok a => exact ⟨a, rfl⟩

@[simp] theorem ok_bind (a : α) (f : α → Except ε β) : ((.ok a : Except ε α) >>= f) = f a := rfl

@[simp] theorem pure_eq_ok {a b} : (pure a : Except ε α) = .ok b ↔ a = b := by
  refine ⟨fun h => Except.ok.inj h, fun h => ?_⟩
  rw [h]
  rfl

@[simp] theorem throw_ne_ok {e b} : (throw e : Except ε α) = .ok b ↔ False := by
  exact ⟨fun h => (nomatch h), False.elim⟩

theorem map_eq_ok {x : Except ε α} {f : α → β} : (f <$> x) = .ok b ↔ ∃ a, x = .ok a ∧ f a = b := by
  cases x with
  | error e => exact ⟨fun h => (nomatch h), fun h => (nomatch h.choose_spec.1)⟩
  | ok a =>
    refine ⟨fun h => ⟨a, rfl, Except.ok.inj h⟩, fun h => ?_⟩
    obtain ⟨a', h₁, h₂⟩ := h
    cases h₁
    exact congrArg Except.ok h₂

@[simp] theorem mapError_eq_ok {x : Res α} {f : String → String} {a : α} :
    x.mapError f = .ok a ↔ x = .ok a := by
  cases x with
  | error e => exact ⟨fun h => (nomatch h), fun h => (nomatch h)⟩
  | ok b => rfl

@[simp] theorem ensure_eq_ok {c : Prop} [Decidable c] {e : ε} {u : Unit} :
    ensure c e = .ok u ↔ c := by
  unfold ensure
  split
  · next h => exact ⟨fun _ => h, fun _ => rfl⟩
  · next h => exact ⟨fun h' => (nomatch h'), fun h' => absurd h' h⟩

theorem unit_bind_eq_ok {x : Except ε Unit} {f : Unit → Except ε β} :
    (x >>= f) = .ok b ↔ x = .ok () ∧ f () = .ok b := by
  rw [bind_eq_ok]
  refine ⟨fun h => ?_, fun h => ⟨(), h⟩⟩
  obtain ⟨_, hx, hf⟩ := h
  exact ⟨hx, hf⟩

theorem ensure_bind_eq_ok {c : Prop} [Decidable c] {e : ε} {f : Unit → Except ε β} :
    (ensure c e >>= f) = .ok b ↔ c ∧ f () = .ok b := by
  rw [unit_bind_eq_ok, ensure_eq_ok]

theorem forM_eq_ok {xs : List α} {f : α → Except ε Unit} {u : Unit} :
    xs.forM f = .ok u ↔ ∀ x ∈ xs, f x = .ok () := by
  induction xs with
  | nil => simp [List.forM]
  | cons x xs ih =>
    rw [List.forM, bind_eq_ok, forall_mem_cons]
    refine ⟨fun h => ?_, fun h => ⟨(), h.1, ih.2 h.2⟩⟩
    obtain ⟨_, hx, hxs⟩ := h
    exact ⟨hx, ih.1 hxs⟩

theorem mapM_eq_ok {l'} :
    l.mapM f = .ok l' ↔ List.Forall₂ (fun a b => f a = .ok b) l l' := by
  induction l generalizing l' with
  | nil =>
    rw [mapM_nil, pure_eq_ok, forall₂_nil_left_iff]
    exact eq_comm
  | cons a l ih =>
    rw [mapM_cons, forall₂_cons_left_iff]
    simp only [bind_eq_ok, pure_eq_ok, ih]
    refine ⟨fun h => ?_, fun h => ?_⟩
    · obtain ⟨b, hb, bs, hbs, rfl⟩ := h
      exact ⟨b, bs, hb, hbs, rfl⟩
    · obtain ⟨b, bs, hb, hbs, rfl⟩ := h
      exact ⟨b, hb, bs, hbs, rfl⟩

theorem exists_mapM_eq_ok (h : ∀ a ∈ l, ∃ b, f a = .ok b) : ∃ l', l.mapM f = .ok l' := by
  simp only [mapM_eq_ok]
  induction l with
  | nil => exact ⟨[], List.Forall₂.nil⟩
  | cons a l ih =>
    obtain ⟨⟨b, hb⟩, hl⟩ := forall_mem_cons.1 h
    obtain ⟨l', hl'⟩ := ih hl
    exact ⟨b :: l', List.Forall₂.cons hb hl'⟩

theorem mapM_eq_map {g} (h : ∀ a ∈ l, f a = .ok (g a)) :
    l.mapM f = .ok (l.map g) :=
  mapM_eq_ok.2 (forall₂_map_right_iff.2 (forall₂_same.2 h))

end Res

end Rove
