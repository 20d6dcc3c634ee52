/-
A vector of slots that hands out the first free one: a value keeps its place
until it is removed, and then the place may go to another value.
-/
import Mathlib.Data.List.Basic

namespace Rove

/-- Slots, each free or holding a value. -/
structure Slots (α : Type) where
  slots : List (Option α)

namespace Slots

variable {α : Type}

def empty : Slots α := ⟨[]⟩

def get? (s : Slots α) (h : Nat) : Option α := (s.slots[h]?).join

/-- The first free slot of a list, which may be the one after its end. -/
def freeIdx : List (Option α) → Nat
  | [] => 0
  | none :: _ => 0
  | some _ :: l => freeIdx l + 1

def fill : List (Option α) → α → List (Option α)
  | [], a => [some a]
  | none :: l, a => some a :: l
  | some b :: l, a => some b :: fill l a

def next (s : Slots α) : Nat := freeIdx s.slots

def add (s : Slots α) (a : α) : Slots α := ⟨fill s.slots a⟩

def modify (s : Slots α) (h : Nat) (f : α → α) : Slots α := ⟨s.slots.modify h (Option.map f)⟩

def remove (s : Slots α) (h : Nat) : Slots α := ⟨s.slots.set h none⟩

theorem get?_next (s : Slots α) : s.get? s.next = none := by
  obtain ⟨l⟩ := s
  show (l[freeIdx l]?).join = none
  induction l with
  | nil => rfl
  | cons o l ih =>
    cases o with
    | none => rfl
    | some b => exact ih

theorem get?_add (s : Slots α) (a : α) (k : Nat) : (s.add a).get? k = if k = s.next then some a else s.get? k := by
  obtain ⟨l⟩ := s
  show ((fill l a)[k]?).join = if k = freeIdx l then some a else (l[k]?).join
  induction l generalizing k with
  | nil => cases k <;> simp [fill, freeIdx]
  | cons o l ih =>
    cases o with
    | none => cases k <;> simp [fill, freeIdx]
    | some b =>
      cases k with
      | zero => simp [fill, freeIdx]
      | succ k => simp [fill, freeIdx, ih k]

theorem get?_modify (s : Slots α) (h k : Nat) (f : α → α) :
    (s.modify h f).get? k = if k = h then (s.get? k).map f else s.get? k := by
  show ((s.slots.modify h (Option.map f))[k]?).join = if k = h then ((s.slots[k]?).join).map f else (s.slots[k]?).join
  rw [List.getElem?_modify]
  by_cases hk : k = h
  · subst hk
    cases s.slots[k]? with
    | none => simp
    | some o => simp
  · cases s.slots[k]? with
    | none => simp
    | some o => simp [hk, Ne.symm hk]

theorem get?_remove (s : Slots α) (h k : Nat) : (s.remove h).get? k = if k = h then none else s.get? k := by
  show ((s.slots.set h none)[k]?).join = if k = h then none else (s.slots[k]?).join
  rw [List.getElem?_set]
  by_cases hk : k = h
  · subst hk
    rw [if_pos rfl, if_pos rfl]
    split
    · rfl
    · rfl
  · rw [if_neg hk, if_neg (Ne.symm hk)]

end Slots

end Rove
