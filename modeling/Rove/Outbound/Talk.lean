/-
A conversation with a peer over a byte stream. The peer is what it will send
and how long the stream takes writes; a conversation writes, reads, and ends
with a value or an error. What was written up to then is kept.
-/
import Rove.Util.HttpHead

namespace Rove.Outbound

/-- `ProxyError`, as far as establishing a connection goes. -/
inductive ProxyError where
  | blocked (target : String)
  | upstream (message : String)
  | dns (message : String)
  | dial (message : String)
  | tls (message : String)
  | reverseUnavailable (message : String)
  | reverseOpen (message : String)
  | reverseHopConnect (message : String)
  | chainExhausted (chain : Str) (attempts : Nat) (last : ProxyError)
  | io (message : String)
  deriving DecidableEq

/-- A stream as this side finds it: what its reads return, and after how many
writes it breaks, if it does. -/
structure Wire where
  reads : List Bytes
  breaksAfter : Option Nat := none

/-- A conversation: what it writes, and its value with the stream left over. -/
def Talk (α : Type) := Wire → List Bytes × Except ProxyError (α × Wire)

namespace Talk

variable {α β : Type}

protected def pure (a : α) : Talk α := fun w => ([], .ok (a, w))

/-- Go on with what the first part returned; an error ends the conversation. -/
protected def bind (x : Talk α) (f : α → Talk β) : Talk β := fun w =>
  match x w with
  | (out, .error e) => (out, .error e)
  | (out, .ok (a, w)) => (out ++ (f a w).1, (f a w).2)

instance : Monad Talk where
  pure := Talk.pure
  bind := Talk.bind

def fail (e : ProxyError) : Talk α := fun _ => ([], .error e)

/-- `write_all`. A write that fails may have got through in part. -/
def writeAll (bs : Bytes) : Talk Unit := fun w =>
  match w.breaksAfter with
  | none => ([bs], .ok ((), w))
  | some 0 => ([bs], .error (.io "Broken pipe (os error 32)"))
  | some (n + 1) => ([bs], .ok ((), { w with breaksAfter := some n }))

/-- `read_exact` of `n` bytes. -/
def readExact (n : Nat) : Talk Bytes := fun w =>
  let bs := w.reads.flatten
  if n ≤ bs.length then ([], .ok (bs.take n, { w with reads := [bs.drop n] })) else ([], .error (.io "early eof"))

/-- `read_http_head` of at most `cap` bytes. -/
def readHttpHead (cap : Nat) : Talk Bytes := fun w =>
  match Util.readHttpHead cap w.reads with
  | .ok (head, reads) => ([], .ok (head, { w with reads }))
  | .error e => ([], .error (.io e))

variable {x : Talk α} {f : α → Talk β} {w : Wire} {bs : Bytes}

theorem mem_bind_left (h : bs ∈ (x w).1) :
    bs ∈ ((x >>= f) w).1 := by
  show bs ∈ (Talk.bind x f w).1
  unfold Talk.bind
  rcases hx : x w with ⟨out, e | ⟨a, w'⟩⟩
  · simpa [hx] using h
  · rw [hx] at h
    exact List.mem_append_left _ h

theorem bind_eq_ok {w'' b} (h : ((x >>= f) w).2 = .ok (b, w'')) :
    ∃ a w', (x w).2 = .ok (a, w') ∧ (f a w').2 = .ok (b, w'') := by
  change (Talk.bind x f w).2 = _ at h
  unfold Talk.bind at h
  rcases hx : x w with ⟨out, e | ⟨a, w'⟩⟩
  · rw [hx] at h
    cases h
  · rw [hx] at h
    exact ⟨a, w', rfl, h⟩

theorem bind_of_ok {w' a} (h : (x w).2 = .ok (a, w')) :
    ((x >>= f) w).2 = (f a w').2 := by
  change (Talk.bind x f w).2 = _
  unfold Talk.bind
  rcases hx : x w with ⟨out, e | ⟨a', w''⟩⟩
  · rw [hx] at h
    cases h
  · rw [hx] at h
    cases h
    rfl

theorem bind_apply_ok {w' out a} (h : x w = (out, .ok (a, w'))) :
    (x >>= f) w = (out ++ (f a w').1, (f a w').2) := by
  show Talk.bind x f w = _
  rw [Talk.bind, h]

theorem bind_apply_error {out e}
    (h : x w = (out, .error e)) : (x >>= f) w = (out, .error e) := by
  show Talk.bind x f w = _
  rw [Talk.bind, h]

protected theorem bind_assoc {γ : Type} (x : Talk α) (f : α → Talk β) (g : β → Talk γ) (w : Wire) :
    ((x >>= f) >>= g) w = (x >>= fun a => f a >>= g) w := by
  rcases hx : x w with ⟨out, e | ⟨a, w'⟩⟩
  · rw [bind_apply_error (bind_apply_error hx), bind_apply_error hx]
  · have hxf : (x >>= f) w = (out ++ (f a w').1, (f a w').2) := bind_apply_ok hx
    rw [bind_apply_ok hx]
    rcases hf : f a w' with ⟨out', e | ⟨b, w''⟩⟩
    · rw [hf] at hxf
      rw [bind_apply_error hxf, bind_apply_error hf]
    · rw [hf] at hxf
      rw [bind_apply_ok hxf, bind_apply_ok hf, List.append_assoc]

theorem writeAll_holds (bs : Bytes) (reads : List Bytes) :
    writeAll bs ⟨reads, none⟩ = ([bs], .ok ((), ⟨reads, none⟩)) := rfl

theorem readExact_append {reads later} (h : reads.flatten = bs ++ later) (breaksAfter : Option Nat) :
    readExact bs.length ⟨reads, breaksAfter⟩ = ([], .ok (bs, ⟨[later], breaksAfter⟩)) := by
  simp only [readExact, h, List.length_append, Nat.le_add_right, if_true, List.take_left, List.drop_left]

theorem readExact_short {n reads} (h : reads.flatten.length < n) (breaksAfter : Option Nat) :
    readExact n ⟨reads, breaksAfter⟩ = ([], .error (.io "early eof")) := by
  simp only [readExact, Nat.not_le.2 h, if_false]

theorem exists_writeAll (bs : Bytes) (h : w.breaksAfter ≠ some 0) :
    ∃ w', (writeAll bs w).2 = .ok ((), w') ∧ w'.reads = w.reads := by
  rw [writeAll]
  split
  · exact ⟨w, rfl, rfl⟩
  · next hbroken => exact absurd hbroken h
  · exact ⟨_, rfl, rfl⟩

theorem writeAll_eq_ok {w' u} (h : (writeAll bs w).2 = .ok (u, w')) : w'.reads = w.reads := by
  rw [writeAll] at h
  split at h
  · cases h
    rfl
  · cases h
  · cases h
    rfl

theorem readHttpHead_eq_ok {cap w'} (h : (readHttpHead cap w).2 = .ok (bs, w')) :
    ∃ head, Util.readHttpHeadWithRemainder cap w.reads = .ok head ∧ bs = head.head ++ head.remainder ∧
      w'.reads = head.unread := by
  rw [readHttpHead, Util.readHttpHead] at h
  cases hr : Util.readHttpHeadWithRemainder cap w.reads with
  | error e =>
    rw [hr] at h
    cases h
  | ok head =>
    rw [hr] at h
    cases h
    exact ⟨head, rfl, rfl, rfl⟩

theorem readHttpHead_of_ok {cap head}
    (h : Util.readHttpHeadWithRemainder cap w.reads = .ok head) :
    (readHttpHead cap w).2 = .ok (head.head ++ head.remainder, { w with reads := head.unread }) := by
  rw [readHttpHead, Util.readHttpHead, h]
  rfl

theorem mem_writeAll (bs : Bytes) (w : Wire) : bs ∈ (writeAll bs w).1 := by
  unfold writeAll
  split <;> simp

/-- A conversation that only listens. -/
def Quiet (x : Talk α) : Prop := ∀ w, (x w).1 = []

theorem quiet_pure {a} : Quiet (pure a : Talk α) := fun _ => rfl

theorem quiet_fail {e} : Quiet (fail e : Talk α) := fun _ => rfl

theorem quiet_readExact {n} : Quiet (readExact n) := by
  intro w
  simp only [readExact]
  split
  · rfl
  · rfl

theorem Quiet.bind (h : Quiet x) (hf : ∀ a, Quiet (f a)) : Quiet (x >>= f) := by
  intro w
  rcases hx : x w with ⟨out, e | ⟨a, w'⟩⟩
  · rw [bind_apply_error hx]
    exact (congrArg Prod.fst hx).symm.trans (h w)
  · have hout : out = [] := (congrArg Prod.fst hx).symm.trans (h w)
    rw [bind_apply_ok hx, hout, hf a w']
    rfl

end Talk

end Rove.Outbound
