/-
The connections an engine counts (`acquire_connection` and the destructor of
`ConnectionPermit` in `engine.rs`). Permits are taken and dropped on any task; both
hold the lock of the table for the whole of what they do, so that what can happen is
a sequence of the two.

`permits_counted`: the table says at any time how many permits each user has.
A counter is a number without bound, since a permit that is counted takes memory.
-/
import Mathlib.Data.List.Perm.Basic
import Rove.Base.Run
import Rove.Engine

namespace Rove.Engine

/-- The table, and the permits that are live, by the user each was given to. -/
structure Permits where
  active : HashMap Str Nat := ∅
  live : List Str := []

/-- `drop` of a permit of `username`. -/
def dropPermit (active : HashMap Str Nat) (username : Str) : HashMap Str Nat :=
  match active.get? username with
  | none => active
  | some count => if count > 1 then active.insert username (count - 1) else active.erase username

inductive Event where
  | acquire (username : Str) (maxConnections : BitVec 64)
  /-- The `i`th of the live permits goes out of scope. -/
  | drop (i : Nat)

namespace Permits

/-- One call or drop, with what the call answers. -/
def step (s : Permits) : Event → Permits × Except EngineError Unit
  | .acquire username maxConnections =>
    match acquireConnection s.active username maxConnections with
    | .ok active => (⟨active, username :: s.live⟩, .ok ())
    | .error e => (s, .error e)
  | .drop i =>
    match s.live[i]? with
    | some username => (⟨dropPermit s.active username, s.live.eraseIdx i⟩, .ok ())
    | none => (s, .ok ())

/-- A table that counts the live permits, and has no entry where there are none. -/
def Counts (s : Permits) : Prop :=
  ∀ user, s.active.get? user = if s.live.count user = 0 then none else some (s.live.count user)

variable {s : Permits}

theorem Counts.getD (h : s.Counts) (user : Str) : (s.active.get? user).getD 0 = s.live.count user := by
  rw [h user]
  split
  · next hnone => rw [hnone, Option.getD_none]
  · rw [Option.getD_some]

theorem Counts.containsKey_iff (h : s.Counts) (user : Str) :
    s.active.containsKey user = true ↔ 0 < s.live.count user := by
  rw [HashMap.containsKey, h user]
  split
  · next hnone => simp [hnone]
  · next hsome => simpa using Nat.pos_of_ne_zero hsome

/-- A call is let through as long as its limit, if there is one, is not reached. -/
theorem Counts.acquireConnection_eq (h : s.Counts) (username : Str) (maxConnections : BitVec 64) :
    acquireConnection s.active username maxConnections =
      if 0 < maxConnections.toNat ∧ maxConnections.toNat ≤ s.live.count username then
        .error (.connectionLimitExceeded (s.live.count username) maxConnections.toNat)
      else .ok (s.active.insert username (s.live.count username + 1)) := by
  simp only [acquireConnection, h.getD, gt_iff_lt, ge_iff_le]

theorem Counts.insert (h : s.Counts) (username : Str) :
    Counts ⟨s.active.insert username (s.live.count username + 1), username :: s.live⟩ := by
  intro user
  simp only [HashMap.get?_insert, List.count_cons]
  by_cases heq : user = username
  · subst heq
    simp
  · have hne : ¬ username = user := fun h => heq h.symm
    simp only [heq, if_false, beq_iff_eq, hne, Nat.add_zero]
    exact h user

theorem count_eraseIdx {live : List Str} {i : Nat} {username : Str} (h : live[i]? = some username) (user : Str) :
    live.count user = (live.eraseIdx i).count user + if user = username then 1 else 0 := by
  obtain ⟨hi, rfl⟩ := List.getElem?_eq_some_iff.1 h
  have hperm := (List.getElem_cons_eraseIdx_perm hi).count_eq user
  simp only [List.count_cons, beq_iff_eq] at hperm
  simp only [← hperm, eq_comm (a := user)]

theorem Counts.drop (h : s.Counts) {i : Nat} {username : Str} (hi : s.live[i]? = some username) :
    Counts ⟨dropPermit s.active username, s.live.eraseIdx i⟩ := by
  intro user
  have hcount := count_eraseIdx hi user
  have hself := count_eraseIdx hi username
  rw [if_pos rfl] at hself
  have hpos : ¬ s.live.count username = 0 := by omega
  rw [dropPermit, h username, if_neg hpos]
  -- a user with other permits keeps the entry, the last permit takes it along
  dsimp only
  split
  · next hmore =>
    rw [HashMap.get?_insert]
    by_cases heq : user = username
    · subst heq
      have hleft : ¬ (s.live.eraseIdx i).count user = 0 := by omega
      rw [if_pos rfl, if_neg hleft, hself, Nat.add_sub_cancel]
    · rw [if_neg heq, h user, hcount, if_neg heq, Nat.add_zero]
  · next hlast =>
    rw [HashMap.get?_erase]
    by_cases heq : user = username
    · subst heq
      have hleft : (s.live.eraseIdx i).count user = 0 := by omega
      rw [if_pos rfl, if_pos hleft]
    · rw [if_neg heq, h user, hcount, if_neg heq, Nat.add_zero]

theorem Counts.step (h : s.Counts) (event : Event) : (s.step event).1.Counts := by
  cases event with
  | acquire username maxConnections =>
    simp only [Permits.step, h.acquireConnection_eq]
    split
    · next hok =>
      split at hok
      · cases hok
      · cases hok
        exact h.insert username
    · exact h
  | drop i =>
    simp only [Permits.step]
    split
    · next username hi => exact h.drop hi
    · exact h

/-- After any sequence of calls and drops, the counter of a user is the number of its
live permits, there is an entry if and only if that number is positive, and a call
with a limit succeeds if and only if the number is below it. -/
theorem permits_counted (events : List Event) (user : Str) :
    let s := runState step {} events
    (s.active.get? user).getD 0 = s.live.count user ∧
      (s.active.containsKey user = true ↔ 0 < s.live.count user) ∧
      ∀ maxConnections : BitVec 64, maxConnections ≠ 0 →
        ((s.step (.acquire user maxConnections)).2 = .ok () ↔ s.live.count user < maxConnections.toNat) := by
  intro s
  have hempty : Counts {} := fun user => rfl
  have hcounts : s.Counts := @runState_induction _ _ _ step Counts (fun _ event h => h.step event) _ hempty events
  refine ⟨hcounts.getD user, hcounts.containsKey_iff user, fun maxConnections hlimit => ?_⟩
  have hpos : 0 < maxConnections.toNat := Nat.pos_of_ne_zero fun hzero => hlimit (BitVec.eq_of_toNat_eq hzero)
  simp only [step, hcounts.acquireConnection_eq, hpos, true_and]
  by_cases hfull : maxConnections.toNat ≤ s.live.count user
  · simp only [if_pos hfull, reduceCtorEq, false_iff]
    omega
  · simp only [if_neg hfull, true_iff]
    omega

end Permits

end Rove.Engine
