/-
The engine of `engine.rs` as the listeners use it: whether a user, or the identity
bound to a listener, may be served, and the permits that count its connections.
-/
import Rove.Model.Snapshot
import Rove.Util.SecretEq

namespace Rove.Model

/-- `>` of `NaiveDate`. -/
def NaiveDate.isAfter (date other : NaiveDate) : Bool :=
  decide (other.year < date.year) ||
    (decide (date.year = other.year) &&
      (decide (other.month < date.month) || (decide (date.month = other.month) && decide (other.day < date.day))))

end Rove.Model

namespace Rove.Engine

open Model (Snapshot User NaiveDate)

structure AuthOk where
  upRate : BitVec 64
  downRate : BitVec 64
  maxConnections : BitVec 64

/-- The errors of `ProxyError` that the engine returns. -/
inductive EngineError where
  | authFailed
  | expired
  | connectionLimitExceeded (current max : Nat)

/-- `authenticate`, under the snapshot that is served today. -/
def authenticate (snap : Snapshot) (today : NaiveDate) (username password : Str) : Except EngineError AuthOk :=
  match snap.users.get? username with
  | none => .error .authFailed
  | some user =>
    if !Util.constantTimeEq user.password password then .error .authFailed
    else if user.expire.any today.isAfter then .error .expired
    else .ok ⟨user.upRate, user.downRate, user.maxConnections⟩

/-- `authenticate_bound_identity`, under the snapshot that is served today. -/
def authenticateBoundIdentity (snap : Snapshot) (today : NaiveDate) (username : Str) : Except EngineError AuthOk :=
  match snap.users.get? username with
  | none => .error .authFailed
  | some user =>
    if user.expire.any today.isAfter then .error .expired
    else .ok ⟨user.upRate, user.downRate, user.maxConnections⟩

/-- `acquire_connection`: the connections counted, with one more. -/
def acquireConnection (active : HashMap Str Nat) (username : Str) (maxConnections : BitVec 64) :
    Except EngineError (HashMap Str Nat) :=
  let current := (active.get? username).getD 0
  if maxConnections.toNat > 0 ∧ current ≥ maxConnections.toNat then
    .error (.connectionLimitExceeded current maxConnections.toNat)
  else .ok (active.insert username (current + 1))

/-- Who is let in: a user of the snapshot with the right password, up to the day of expiry. -/
theorem authenticate_isOk_iff {snap today username password} :
    (∃ auth, authenticate snap today username password = .ok auth) ↔
      ∃ user, snap.users.get? username = some user ∧ user.password = password ∧
      user.expire.any today.isAfter = false := by
  rw [authenticate]
  cases snap.users.get? username with
  | none => simp
  | some user =>
    by_cases hpassword : user.password = password
    · obtain rfl := hpassword
      have heq : Util.constantTimeEq user.password user.password = true := Util.constantTimeEq_iff.2 rfl
      cases hexpire : user.expire.any today.isAfter <;> simp [heq, hexpire]
    · have hne : Util.constantTimeEq user.password password = false := by
        rw [Bool.eq_false_iff, ne_eq, Util.constantTimeEq_iff]
        exact hpassword
      simp [hpassword, hne]

theorem authenticateBoundIdentity_eq_ok {snap today username auth}
    (h : authenticateBoundIdentity snap today username = .ok auth) :
    ∃ user, snap.users.get? username = some user ∧ (∀ expire, user.expire = some expire →
      today.isAfter expire = false) ∧ auth.maxConnections = user.maxConnections := by
  rw [authenticateBoundIdentity] at h
  split at h
  · cases h
  · next user huser =>
    split at h
    · cases h
    · next hexpire =>
      cases h
      refine ⟨user, huser, fun expire hsome => ?_, rfl⟩
      rw [hsome] at hexpire
      simpa using hexpire

theorem acquireConnection_eq_ok {active active' username maxConnections}
    (h : acquireConnection active username maxConnections = .ok active') :
    maxConnections = 0 ∨ (active.get? username).getD 0 < maxConnections.toNat := by
  rw [acquireConnection] at h
  split at h
  · cases h
  · next hfree =>
    by_cases hzero : maxConnections = 0
    · exact .inl hzero
    · refine .inr ?_
      have hpos : 0 < maxConnections.toNat := by
        by_contra hnot
        exact hzero (BitVec.eq_of_toNat_eq (by simp at hnot ⊢; omega))
      omega

end Rove.Engine
