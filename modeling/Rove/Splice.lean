/-
The bytes of a tunnel (`splice` of `io.rs`) and where the three callers of it
record them. A copy loop counts every chunk it has written out, however it
ends; but when a tunnel fails with an error that is no benign close, the callers
record nothing for it. `traffic_recorded_iff` says that the totals are right
exactly if no such tunnel had written anything.

A direction is what its reads return, each with the outcome of writing it;
throttling only delays it. Counters are `u64` and wrap.
-/
import Mathlib.Algebra.Order.BigOperators.Group.List
import Mathlib.Algebra.Order.Group.Nat
import Rove.Base.HashMap
import Rove.Base.Utf8

namespace Rove.Splice

open List

/-- One more than the largest `u64`. -/
def u64Size : Nat := 2 ^ 64

inductive ErrorKind where
  | brokenPipe
  | connectionReset
  | notConnected
  | unexpectedEof
  | other (kind : Nat)

def isBenignSpliceClose : ErrorKind → Bool
  | .brokenPipe | .connectionReset | .notConnected | .unexpectedEof => true
  | .other _ => false

/-- One direction of a tunnel: what was read, and how writing it went, up to the
last read, which found the end or failed. -/
structure Direction where
  chunks : List (Bytes × Option ErrorKind)
  lastRead : Option ErrorKind

structure CopyReport where
  bytes : Nat
  error : Option ErrorKind

/-- The loop of `copy_throttled_report` and `copy_unlimited_report`. -/
def copyLoop (lastRead : Option ErrorKind) : Nat → List (Bytes × Option ErrorKind) → CopyReport
  | total, [] => ⟨total, lastRead⟩
  | total, (chunk, write) :: chunks =>
    if chunk = [] then ⟨total, none⟩
    else
      match write with
      | some error => ⟨total, some error⟩
      | none => copyLoop lastRead ((total + chunk.length) % u64Size) chunks

def copyReport (d : Direction) : CopyReport := copyLoop d.lastRead 0 d.chunks

structure SpliceStats where
  bytesUp : Nat := 0
  bytesDown : Nat := 0
  deriving DecidableEq

def splice (up down : Direction) : Except ErrorKind SpliceStats :=
  let stats := ⟨(copyReport up).bytes, (copyReport down).bytes⟩
  match (copyReport up).error, (copyReport down).error with
  | none, none => .ok stats
  | some error, none => if isBenignSpliceClose error then .ok stats else .error error
  | none, some error => if isBenignSpliceClose error then .ok stats else .error error
  | some upError, some downError =>
    if isBenignSpliceClose upError && isBenignSpliceClose downError then .ok stats else .error upError

/-- Whose tunnel it is. The inbound knows its listener and the egress, which is not `block`. -/
inductive TunnelKind where
  | http (listener egress : Str)
  | hop (listener : Str)
  | reverseHop

structure Tunnel where
  kind : TunnelKind
  up : Direction
  down : Direction

/-- `TrafficStats`, and the bytes in the access log. -/
structure Recorded where
  listeners : HashMap Str SpliceStats := ∅
  egress : HashMap Str SpliceStats := ∅
  accessLog : List SpliceStats := []

/-- `TrafficStats::record`: get or insert the row, and add to it. -/
def recordRow (rows : HashMap Str SpliceStats) (name : Str) (stats : SpliceStats) : HashMap Str SpliceStats :=
  let row := (rows.get? name).getD {}
  rows.insert name ⟨(row.bytesUp + stats.bytesUp) % u64Size, (row.bytesDown + stats.bytesDown) % u64Size⟩

namespace Tunnel

/-- What the callers take from the result of `splice`. -/
def bytes (t : Tunnel) : SpliceStats :=
  match splice t.up t.down with
  | .ok stats => stats
  | .error _ => ⟨0, 0⟩

def listenerRow (t : Tunnel) : Option Str :=
  match t.kind with
  | .http listener _ | .hop listener => some listener
  | .reverseHop => none

def egressRow (t : Tunnel) : Str :=
  match t.kind with
  | .http _ egress => egress
  | .hop _ => "direct"
  | .reverseHop => "reverse"

/-- What is recorded when a tunnel has finished. -/
def finish (r : Recorded) (t : Tunnel) : Recorded where
  listeners := match t.listenerRow with
    | some listener => recordRow r.listeners listener t.bytes
    | none => r.listeners
  egress := recordRow r.egress t.egressRow t.bytes
  accessLog := r.accessLog ++ [t.bytes]

end Tunnel

/-! ## What was written -/

/-- A chunk after which the loop goes on. -/
def wrote (c : Bytes × Option ErrorKind) : Bool := c.1 ≠ [] && c.2.isNone

/-- The bytes of the chunks that were written completely. -/
def Direction.delivered (d : Direction) : Nat := ((d.chunks.takeWhile wrote).map (·.1.length)).sum

/-- The error that ended the direction: of the first write that failed, or of the last read. -/
def Direction.fault (d : Direction) : Option ErrorKind :=
  match d.chunks.dropWhile wrote with
  | [] => d.lastRead
  | (chunk, write) :: _ => if chunk = [] then none else write

/-- The tunnel failed in a direction, with an error that is no benign close. -/
def Tunnel.Failed (t : Tunnel) : Prop :=
  (∃ e, t.up.fault = some e ∧ isBenignSpliceClose e = false) ∨
  ∃ e, t.down.fault = some e ∧ isBenignSpliceClose e = false

def Tunnel.delivered (t : Tunnel) : SpliceStats := ⟨t.up.delivered, t.down.delivered⟩

theorem copyLoop_eq (lastRead : Option ErrorKind) (total : Nat)
    (chunks : List (Bytes × Option ErrorKind)) (h : total < u64Size) :
    copyLoop lastRead total chunks =
      ⟨(total + Direction.delivered ⟨chunks, lastRead⟩) % u64Size, Direction.fault ⟨chunks, lastRead⟩⟩ := by
  induction chunks generalizing total with
  | nil => simp [copyLoop, Direction.delivered, Direction.fault, Nat.mod_eq_of_lt h]
  | cons c chunks ih =>
    obtain ⟨chunk, write⟩ := c
    by_cases hnil : chunk = []
    · cases write <;> simp [copyLoop, Direction.delivered, Direction.fault, wrote, hnil, Nat.mod_eq_of_lt h]
    · cases write with
      | some error => simp [copyLoop, Direction.delivered, Direction.fault, wrote, hnil, Nat.mod_eq_of_lt h]
      | none =>
        rw [copyLoop, if_neg hnil, ih _ (Nat.mod_lt _ (by decide))]
        simp [Direction.delivered, Direction.fault, wrote, hnil, Nat.add_assoc]

theorem copyReport_eq (d : Direction) : copyReport d = ⟨d.delivered % u64Size, d.fault⟩ := by
  rw [copyReport, copyLoop_eq _ _ _ (by decide), Nat.zero_add]

/-- A tunnel that failed is recorded as empty, any other with what it delivered. -/
theorem Tunnel.bytes_eq (t : Tunnel) : (t.Failed ∧ t.bytes = ⟨0, 0⟩) ∨
    (¬ t.Failed ∧ t.bytes = ⟨t.up.delivered % u64Size, t.down.delivered % u64Size⟩) := by
  unfold Tunnel.Failed Tunnel.bytes splice
  rw [copyReport_eq, copyReport_eq]
  cases t.up.fault with
  | none =>
    cases t.down.fault with
    | none => simp
    | some e => cases h : isBenignSpliceClose e <;> simp [h]
  | some e =>
    cases t.down.fault with
    | none => cases h : isBenignSpliceClose e <;> simp [h]
    | some e' => cases h : isBenignSpliceClose e <;> cases h' : isBenignSpliceClose e' <;> simp [h, h']

/-! ## Totals -/

/-- The sum over some tunnels of a number of each. -/
def total (tunnels : List Tunnel) (p : Tunnel → Bool) (f : Tunnel → Nat) : Nat := ((tunnels.filter p).map f).sum

/-- Counters that wrap and that no tunnel overstates hold the sum exactly if it
fits and each tunnel is counted in full. -/
theorem total_mod_eq_iff {tunnels : List Tunnel} {p : Tunnel → Bool} {f g : Tunnel → Nat}
    (hle : ∀ t, f t ≤ g t) {M : Nat} (hM : 0 < M) :
    total tunnels p f % M = total tunnels p g ↔
      total tunnels p g < M ∧ ∀ t ∈ tunnels, p t = true → f t = g t := by
  have hsum : ∀ l : List Tunnel, (l.map f).sum ≤ (l.map g).sum ∧
    ((l.map f).sum = (l.map g).sum ↔ ∀ t ∈ l, f t = g t) := by
    intro l
    induction l with
    | nil => simp
    | cons t l ih =>
      have := hle t
      simp only [map_cons, sum_cons, forall_mem_cons]
      refine ⟨by omega, fun h => ⟨by omega, ih.2.1 (by omega)⟩, fun h => ?_⟩
      rw [h.1, ih.2.2 h.2]
  obtain ⟨hsum, hiff⟩ := hsum (tunnels.filter p)
  simp only [mem_filter, and_imp] at hiff
  rw [total, total, ← hiff]
  have hmod := Nat.mod_le ((tunnels.filter p).map f).sum M
  have hlt := Nat.mod_lt ((tunnels.filter p).map f).sum hM
  refine ⟨fun h => ⟨by omega, by omega⟩, fun h => ?_⟩
  rw [h.2, Nat.mod_eq_of_lt h.1]

def rowsAfter (rowOf : Tunnel → Option Str) (tunnels : List Tunnel) : HashMap Str SpliceStats :=
  tunnels.foldl (fun rows t => match rowOf t with
    | some name => recordRow rows name t.bytes
    | none => rows) ∅

theorem rowsAfter_get? (rowOf : Tunnel → Option Str) (tunnels : List Tunnel) (name : Str) :
    ((rowsAfter rowOf tunnels).get? name).getD {} =
      ⟨total tunnels (rowOf · = some name) (·.bytes.bytesUp) % u64Size,
        total tunnels (rowOf · = some name) (·.bytes.bytesDown) % u64Size⟩ := by
  induction tunnels using List.reverseRecOn with
  | nil => simp [total, rowsAfter]
  | append_singleton tunnels t ih =>
    rw [rowsAfter, foldl_concat, ← rowsAfter]
    generalize rowsAfter rowOf tunnels = rows at ih ⊢
    cases hrow : rowOf t with
    | none => simpa [total, hrow] using ih
    | some n =>
      by_cases hn : n = name
      · subst hn
        simp [recordRow, ih, total, hrow]
      · simpa [recordRow, HashMap.get?_insert_ne _ _ (Ne.symm hn), total, hrow, hn] using ih

/-- The rows of the statistics and the entries of the access log add up to what was delivered. -/
def Conserved (tunnels : List Tunnel) : Prop :=
  let r := tunnels.foldl Tunnel.finish {}
  (∀ name, (r.egress.get? name).getD {} = ⟨total tunnels (·.egressRow = name) (·.up.delivered),
      total tunnels (·.egressRow = name) (·.down.delivered)⟩) ∧
    (∀ name, (r.listeners.get? name).getD {} = ⟨total tunnels (·.listenerRow = some name) (·.up.delivered),
      total tunnels (·.listenerRow = some name) (·.down.delivered)⟩) ∧
    (r.accessLog.map (·.bytesUp)).sum = (tunnels.map (·.up.delivered)).sum ∧
    (r.accessLog.map (·.bytesDown)).sum = (tunnels.map (·.down.delivered)).sum

/-- No tunnel that failed had delivered anything, and no row outgrows its counters. -/
def Accounted (tunnels : List Tunnel) : Prop :=
  (∀ t ∈ tunnels, t.Failed → t.delivered = ⟨0, 0⟩) ∧
    (∀ name, total tunnels (·.egressRow = name) (·.up.delivered) < u64Size ∧
      total tunnels (·.egressRow = name) (·.down.delivered) < u64Size) ∧
    ∀ name, total tunnels (·.listenerRow = some name) (·.up.delivered) < u64Size ∧
      total tunnels (·.listenerRow = some name) (·.down.delivered) < u64Size

theorem finish_foldl (tunnels : List Tunnel) :
    (tunnels.foldl Tunnel.finish {}).listeners = rowsAfter Tunnel.listenerRow tunnels ∧
      (tunnels.foldl Tunnel.finish {}).egress = rowsAfter (fun t => some t.egressRow) tunnels ∧
      (tunnels.foldl Tunnel.finish {}).accessLog = tunnels.map (·.bytes) := by
  induction tunnels using List.reverseRecOn with
  | nil => exact ⟨rfl, rfl, rfl⟩
  | append_singleton tunnels t ih => simp [Tunnel.finish, ih, rowsAfter]

theorem Tunnel.bytes_le (t : Tunnel) : t.bytes.bytesUp ≤ t.up.delivered ∧ t.bytes.bytesDown ≤ t.down.delivered := by
  rcases t.bytes_eq with ⟨-, h⟩ | ⟨-, h⟩
  · simp [h]
  · simp [h, Nat.mod_le]

/-- The bytes recorded for any tunnels are those that were delivered, in each
row of the statistics and in the access log, if and only if every tunnel that
ended with an error other than a benign close had delivered nothing, and no row
outgrows its counters. -/
theorem traffic_recorded_iff (tunnels : List Tunnel) : Conserved tunnels ↔ Accounted tunnels := by
  obtain ⟨hlisteners, hegress, hlog⟩ := finish_foldl tunnels
  have hup := fun t => (Tunnel.bytes_le t).1
  have hdown := fun t => (Tunnel.bytes_le t).2
  have hpos : 0 < u64Size := by decide
  unfold Conserved Accounted
  simp only [hlisteners, hegress, hlog, rowsAfter_get?, SpliceStats.mk.injEq, Option.some.injEq,
    map_map, Function.comp_def, total_mod_eq_iff hup hpos, total_mod_eq_iff hdown hpos, decide_eq_true_eq]
  have hfits : ∀ t ∈ tunnels, ∀ f : Tunnel → Nat, f t ≤ total tunnels (·.egressRow = t.egressRow) f := by
    intro t ht f
    exact le_sum_of_mem (mem_map_of_mem (mem_filter.2 ⟨ht, by simp⟩))
  constructor
  · rintro ⟨he, hl, -, -⟩
    refine ⟨fun t ht hfailed => ?_, fun name => ⟨(he name).1.1, (he name).2.1⟩,
      fun name => ⟨(hl name).1.1, (hl name).2.1⟩⟩
    rcases t.bytes_eq with ⟨-, h⟩ | ⟨hnot, -⟩
    · have h₁ := (he t.egressRow).1.2 t ht rfl
      have h₂ := (he t.egressRow).2.2 t ht rfl
      rw [h] at h₁ h₂
      rw [Tunnel.delivered, ← h₁, ← h₂]
    · exact absurd hfailed hnot
  · rintro ⟨hempty, he, hl⟩
    have hall : ∀ t ∈ tunnels, t.bytes.bytesUp = t.up.delivered ∧ t.bytes.bytesDown = t.down.delivered := by
      intro t ht
      rcases t.bytes_eq with ⟨hfailed, h⟩ | ⟨-, h⟩
      · have := SpliceStats.mk.inj (hempty t ht hfailed)
        simp [h, this]
      · have h₁ := hfits t ht (·.up.delivered)
        have h₂ := hfits t ht (·.down.delivered)
        have := he t.egressRow
        rw [h]
        exact ⟨Nat.mod_eq_of_lt (by omega), Nat.mod_eq_of_lt (by omega)⟩
    refine ⟨fun name => ⟨⟨(he name).1, fun t ht _ => (hall t ht).1⟩, (he name).2, fun t ht _ => (hall t ht).2⟩,
      fun name => ⟨⟨(hl name).1, fun t ht _ => (hall t ht).1⟩, (hl name).2, fun t ht _ => (hall t ht).2⟩, ?_, ?_⟩
    · rw [map_congr_left fun t ht => (hall t ht).1]
    · rw [map_congr_left fun t ht => (hall t ht).2]

/-- A hop writes three bytes to the target, whose side then times out: nothing is recorded. -/
theorem timed_out_tunnel_unrecorded :
    let t : Tunnel := ⟨.hop "hop", ⟨[([1, 2, 3], none)], none⟩, ⟨[], some (.other 0)⟩⟩
    t.delivered = ⟨3, 0⟩ ∧ ([t].foldl Tunnel.finish {}).accessLog = [⟨0, 0⟩] ∧
      ((([t].foldl Tunnel.finish {}).egress.get? "direct").getD {}) = ⟨0, 0⟩ := by
  decide

end Rove.Splice
