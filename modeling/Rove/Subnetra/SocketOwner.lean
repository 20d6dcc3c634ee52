/-
Which table a socket of the stack belongs to. The life of a handle is a small
graph (`Life`): it is free, then a listener or a pending connect, then a
connection, and then free again. Every event moves every handle along it, with
one exception: a connection for which the accept channel has no place leaves
the listeners and enters no table, and its socket stays in the set for good.
-/
import Rove.Subnetra.Netstack
import Mathlib.Logic.Relation

namespace Rove.Subnetra

open List HashMap
open Relation (ReflTransGen)

inductive Status where
  | free
  | listener
  | pending
  | conn
  /-- Its socket is in the set and in no table. -/
  | leaked

/-- Whether the socket is in the set, and whether the handle is in the
listeners, the pending connects and the connections. -/
def Status.view : Status → Bool × Bool × Bool × Bool
  | .free => (false, false, false, false)
  | .listener => (true, true, false, false)
  | .pending => (true, false, true, false)
  | .conn => (true, false, false, true)
  | .leaked => (true, false, false, false)

theorem Status.view_inj {a b : Status} (h : a.view = b.view) : a = b := by
  cases a <;> cases b <;> first | rfl | cases h

inductive Life : Status → Status → Prop where
  | listen : Life .free .listener
  | connect : Life .free .pending
  | accept : Life .listener .conn
  | unlisten : Life .listener .free
  | connected : Life .pending .conn
  | refused : Life .pending .free
  | ended : Life .conn .free

theorem Life.leaked_iff {a b} (h : ReflTransGen Life a b) : b = .leaked ↔ a = .leaked := by
  induction h with
  | refl => exact Iff.rfl
  | tail _ hlast ih =>
    rw [← ih]
    cases hlast <;> simp

namespace Stack

def view (s : Stack) (h : Handle) : Bool × Bool × Bool × Bool :=
  ((s.sockets.get? h).isSome, s.listeners.containsKey h, s.pendingConnects.containsKey h, s.conns.containsKey h)

/-- The handle has a status: it is in at most one table, and in none without
its socket. -/
def Is (s : Stack) (h : Handle) (st : Status) : Prop := s.view h = st.view

/-- Every socket in the set belongs to exactly one table. -/
def OneTable (s : Stack) : Prop :=
  ∀ h, (s.sockets.get? h).isSome = true →
    [s.listeners.containsKey h, s.pendingConnects.containsKey h, s.conns.containsKey h].count true = 1

/-- From one state to another, every handle moves along its life. -/
def Moves (s s' : Stack) : Prop := ∀ h, ∃ st st', s.Is h st ∧ s'.Is h st' ∧ ReflTransGen Life st st'

variable {s : Stack} {h : Handle}

theorem Is.unique {st st' : Status} (h₁ : s.Is h st) (h₂ : s.Is h st') : st = st' :=
  Status.view_inj (h₁.symm.trans h₂)

theorem Moves.trans {s₁ s₂ s₃} (h₁ : Moves s₁ s₂) (h₂ : Moves s₂ s₃) : Moves s₁ s₃ := by
  intro h
  obtain ⟨a, b, ha, hb, hab⟩ := h₁ h
  obtain ⟨b', c, hb', hc, hbc⟩ := h₂ h
  obtain rfl := hb.unique hb'
  exact ⟨a, c, ha, hc, hab.trans hbc⟩

def Known (s : Stack) : Prop := ∀ h, ∃ st, s.Is h st

theorem Moves.known {s'} (h : Moves s s') : s'.Known := by
  intro k
  obtain ⟨-, st', -, hst', -⟩ := h k
  exact ⟨st', hst'⟩

theorem Known.moves_one {s'} (hs : s.Known) {st st'} (hst : s.Is h st) (hst' : s'.Is h st')
    (hlife : Life st st') (hother : ∀ k, k ≠ h → s'.view k = s.view k) : Moves s s' := by
  intro k
  by_cases hk : k = h
  · subst hk
    exact ⟨st, st', hst, hst', .single hlife⟩
  · obtain ⟨stk, hstk⟩ := hs k
    exact ⟨stk, stk, hstk, (hother k hk).trans hstk, .refl⟩

theorem Known.moves_of_view {s'} (hs : s.Known) (hview : ∀ k, s'.view k = s.view k) : Moves s s' := by
  intro k
  obtain ⟨st, hst⟩ := hs k
  exact ⟨st, st, hst, (hview k).trans hst, .refl⟩

theorem Known.moves_refl (hs : s.Known) : Moves s s := hs.moves_of_view fun _ => rfl

theorem Known.free_next (hs : s.Known) : s.Is s.sockets.next .free := by
  obtain ⟨st, hst⟩ := hs s.sockets.next
  have hnone : (s.sockets.get? s.sockets.next).isSome = false := by rw [Slots.get?_next]; rfl
  cases st with
  | free => exact hst
  | _ => simp [Is, view, Status.view, hnone] at hst

/-! ## The operations of the driver -/

theorem moves_addListener (hs : s.Known) (port : Nat) : Moves s (s.addListener port).1 := by
  rw [addListener]
  cases Socket.listen port with
  | none => exact hs.moves_refl
  | some sock =>
    refine hs.moves_one hs.free_next ?_ .listen fun k hk => ?_
    · have hfree := hs.free_next
      simp only [Is, view, Status.view, Prod.mk.injEq] at hfree ⊢
      simp [Slots.get?_add, containsKey_insert, hfree]
    · simp [view, Slots.get?_add, containsKey_insert, hk]

theorem moves_addListeners (hs : s.Known) (port missing : Nat) : Moves s (s.addListeners port missing) := by
  induction missing generalizing s with
  | zero => exact hs.moves_refl
  | succ missing ih =>
    have hone := moves_addListener hs port
    rw [addListeners]
    split
    · split
      · next s' h =>
        rw [h] at hone
        exact hone.trans (ih hone.known)
      · next s' h => rwa [h] at hone
    · exact hs.moves_refl

theorem moves_topUpListeners (hs : s.Known) : Moves s s.topUpListeners := by
  rw [topUpListeners]
  split
  · exact hs.moves_refl
  · exact moves_addListeners hs _ _

theorem view_removeListener {k} (hk : k ≠ h) : (s.removeListener h).view k = s.view k := by
  simp [view, removeListener, Slots.get?_remove, containsKey_erase, hk]

theorem moves_removeListener (hs : s.Known) (hst : s.Is h .listener) : Moves s (s.removeListener h) := by
  refine hs.moves_one hst ?_ .unlisten fun k hk => view_removeListener hk
  simp only [Is, view, Status.view, Prod.mk.injEq] at hst ⊢
  simp [removeListener, Slots.get?_remove, containsKey_erase, hst]

theorem moves_connect (hs : s.Known) (possible : Bool) : Moves s (s.connect possible) := by
  rw [connect]
  cases possible with
  | false => exact hs.moves_of_view fun _ => rfl
  | true =>
    refine hs.moves_one hs.free_next ?_ .connect fun k hk => ?_
    · have hfree := hs.free_next
      simp only [Is, view, Status.view, Prod.mk.injEq] at hfree ⊢
      simp [Slots.get?_add, containsKey_insert, hfree]
    · simp [view, Slots.get?_add, containsKey_insert, hk]

theorem view_resolveConnect {k} (hk : k ≠ h) : (s.resolveConnect h).view k = s.view k := by
  rw [resolveConnect]
  split
  · rfl
  · dsimp only
    split
    · simp [view, containsKey_erase, containsKey_insert, hk]
    · simp [view, Slots.get?_remove, containsKey_erase, hk]

/-- A handle in the pending connects is resolved one way or the other. -/
theorem moves_resolveConnect (hs : s.Known) (hst : s.Is h .pending) : Moves s (s.resolveConnect h) := by
  have hview := hst
  simp only [Is, view, Status.view, Prod.mk.injEq] at hview
  obtain ⟨waiting, hw⟩ := containsKey_iff.1 hview.2.2.1
  have hother : ∀ k, k ≠ h → (s.resolveConnect h).view k = s.view k := fun k hk => view_resolveConnect hk
  rw [resolveConnect, hw] at hother ⊢
  dsimp only at hother ⊢
  split at hother
  · next hestablished =>
    rw [if_pos hestablished]
    refine hs.moves_one hst ?_ .connected hother
    simp [Is, view, Status.view, containsKey_erase, containsKey_insert, hview]
  · next hclosed =>
    rw [if_neg hclosed]
    refine hs.moves_one hst ?_ .refused hother
    simp [Is, view, Status.view, Slots.get?_remove, containsKey_erase, hview]

theorem view_reapOne {k} (hk : k ≠ h) : (s.reapOne h).view k = s.view k := by
  simp [view, reapOne, Slots.get?_remove, containsKey_erase, hk]

theorem moves_reapOne (hs : s.Known) (hst : s.Is h .conn) : Moves s (s.reapOne h) := by
  refine hs.moves_one hst ?_ .ended fun k hk => view_reapOne hk
  simp only [Is, view, Status.view, Prod.mk.injEq] at hst ⊢
  simp [reapOne, Slots.get?_remove, containsKey_erase, hst]

/-- An operation that moves handles of one status, done for some of them. -/
theorem moves_foldl {op : Stack → Handle → Stack} {st : Status} (hop : ∀ {s h}, s.Known → s.Is h st → Moves s (op s h))
    (hother : ∀ {s h k}, k ≠ h → (op s h).view k = s.view k) {l : List Handle} (hl : l.Nodup) (hs : s.Known)
    (hst : ∀ h ∈ l, s.Is h st) : Moves s (l.foldl op s) := by
  induction l generalizing s with
  | nil => exact hs.moves_refl
  | cons h l ih =>
    obtain ⟨hnot, hl⟩ := nodup_cons.1 hl
    obtain ⟨hh, hrest⟩ := forall_mem_cons.1 hst
    have hone := hop hs hh
    refine hone.trans (ih hl hone.known fun k hk => ?_)
    exact (hother (ne_of_mem_of_not_mem hk hnot)).trans (hrest k hk)

theorem view_foldl {op : Stack → Handle → Stack} (hother : ∀ {s h k}, k ≠ h → (op s h).view k = s.view k)
    {l : List Handle} {k : Handle} (hk : k ∉ l) : (l.foldl op s).view k = s.view k := by
  induction l generalizing s with
  | nil => rfl
  | cons h l ih =>
    obtain ⟨hne, hk⟩ := ne_and_not_mem_of_not_mem_cons hk
    exact (ih hk).trans (hother hne)

/-! ## The invariant -/

theorem Known.listener_of_mem (hs : s.Known) (hmem : h ∈ s.listeners.keys) : s.Is h .listener := by
  have hl := containsKey_iff.2 (mem_keys_iff.1 hmem)
  obtain ⟨st, hst⟩ := hs h
  cases st with
  | listener => exact hst
  | _ => simp [Is, view, Status.view, hl] at hst

theorem Known.pending_of_mem (hs : s.Known) (hmem : h ∈ s.pendingConnects.keys) :
    s.Is h .pending := by
  have hp := containsKey_iff.2 (mem_keys_iff.1 hmem)
  obtain ⟨st, hst⟩ := hs h
  cases st with
  | pending => exact hst
  | _ => simp [Is, view, Status.view, hp] at hst

theorem Known.conn_of_get? (hs : s.Known) {id} (hget : s.conns.get? h = some id) :
    s.Is h .conn := by
  have hc := containsKey_iff.2 ⟨id, hget⟩
  obtain ⟨st, hst⟩ := hs h
  cases st with
  | conn => exact hst
  | _ => simp [Is, view, Status.view, hc] at hst

/-- What the driver remembers between its steps is so. -/
def PhaseOk (s : Stack) : Prop :=
  match s.phase with
  | .poll => True
  | .promote ready => ready.Nodup ∧ ∀ h ∈ ready, s.Is h .listener
  | .conns items dead =>
    (items.map Prod.fst ++ dead).Nodup ∧ (∀ x ∈ items, s.conns.get? x.1 = some x.2) ∧ ∀ h ∈ dead, s.Is h .conn

structure Tidy (s : Stack) : Prop where
  known : s.Known
  phase : s.PhaseOk

/-- The accept channel has a place for the connection handed out next. -/
def HasRoom (s : Stack) : Prop := s.acceptOpen = true ∧ s.acceptQueue.length < acceptCapacity

instance (s : Stack) : Decidable s.HasRoom := inferInstanceAs (Decidable (_ ∧ _))

theorem view_promote {k} (hk : k ≠ h) : (s.promote h).view k = s.view k := by
  rw [promote]
  split
  · simp [view, containsKey_erase, containsKey_insert, hk]
  · simp [view, Slots.get?_modify, containsKey_erase, containsKey_insert, hk]

/-- A connection that is handed out is in the connections if there was room,
and in no table if there was none. -/
theorem is_promote (hst : s.Is h .listener) :
    (s.promote h).Is h (if s.HasRoom then .conn else .leaked) := by
  simp only [Is, view, Status.view, Prod.mk.injEq] at hst
  by_cases hroom : s.HasRoom
  · have hroom' : s.acceptOpen ∧ s.acceptQueue.length < acceptCapacity := hroom
    simp only [promote, if_pos hroom', if_pos hroom]
    simp [Is, view, Status.view, containsKey_erase, containsKey_insert, hst]
  · have hroom' : ¬ (s.acceptOpen ∧ s.acceptQueue.length < acceptCapacity) := hroom
    simp only [promote, if_neg hroom', if_neg hroom]
    simp [Is, view, Status.view, Slots.get?_modify, containsKey_erase, hst]

/-! ## Steps -/

theorem Tidy.of_frame {s'} (hs : s.Tidy) (hphase : s'.phase = s.phase) (hconns : s'.conns = s.conns)
    (hview : ∀ k, s'.view k = s.view k) : s'.PhaseOk ∧ Moves s s' := by
  refine ⟨?_, hs.known.moves_of_view hview⟩
  have hp := hs.phase
  rw [PhaseOk] at hp ⊢
  simp only [hphase, hconns, Is, hview] at hp ⊢
  exact hp

theorem onStream_frame {α : Type} (s : Stack) (id : Nat) (f : Stream → Stream × α) :
    ∃ streams, (s.onStream id f).1 = { s with streams } := by
  rw [onStream]
  split
  · split
    · exact ⟨_, rfl⟩
    · exact ⟨s.streams, rfl⟩
  · exact ⟨s.streams, rfl⟩

theorem phaseOk_beginPass (hs : s.Known) : s.beginPass.PhaseOk ∧ Moves s s.beginPass := by
  have hnodup : s.listeners.keys.Nodup := s.listeners.nodup
  refine ⟨⟨hnodup.filter _, fun h hmem => ?_⟩, ?_⟩
  · obtain ⟨hlistener, hready⟩ := mem_filter.1 hmem
    rw [decide_eq_true_eq] at hready
    refine (view_foldl view_removeListener fun hdead => ?_).trans (hs.listener_of_mem hlistener)
    exact hready.1 (of_decide_eq_true (mem_filter.1 hdead).2)
  · have hmoves := moves_foldl (fun hs hst => moves_removeListener hs hst) view_removeListener
      (hnodup.filter fun h => decide (s.stateOf h = some .closed)) hs
      fun h hmem => hs.listener_of_mem (mem_filter.1 hmem).1
    exact hmoves.trans (hmoves.known.moves_of_view fun _ => rfl)

theorem phaseOk_resolve (hs : s.Known) : s.resolve.PhaseOk ∧ Moves s s.resolve := by
  have htop := moves_topUpListeners hs
  have hnodup : s.topUpListeners.pendingConnects.keys.Nodup := s.topUpListeners.pendingConnects.nodup
  have hmoves := moves_foldl (fun hs hst => moves_resolveConnect hs hst) view_resolveConnect
    (hnodup.filter fun h => decide (s.topUpListeners.stateOf h = some .established ∨
      s.topUpListeners.stateOf h = some .closed))
    htop.known fun h hmem => htop.known.pending_of_mem (mem_filter.1 hmem).1
  refine ⟨⟨?_, fun x hx => ?_, fun h hmem => ?_⟩, htop.trans (hmoves.trans (hmoves.known.moves_of_view fun _ => rfl))⟩
  · rw [append_nil]
    exact s.topUpListeners.resolveConnects.conns.nodup
  · exact get?_eq_some_iff.2 hx
  · cases hmem

theorem phaseOk_promote {ready : List Handle} (hready : ready.Nodup)
    (hst : ∀ k ∈ ready, s.Is k .listener) :
    ({ s.promote h with phase := .promote (ready.erase h) } : Stack).PhaseOk := by
  refine ⟨hready.erase h, fun k hk => ?_⟩
  obtain ⟨hne, hk⟩ := hready.mem_erase_iff.1 hk
  exact (view_promote hne).trans (hst k hk)

/-- A serviced connection leaves the items, and may be one to remove. -/
theorem nodup_items {items : List (Handle × Nat)} {dead : List Handle} (hnodup : (items.map Prod.fst ++ dead).Nodup)
    {id : Nat} (hmem : (h, id) ∈ items) (ended : Bool) :
    ((items.erase (h, id)).map Prod.fst ++ if ended then dead ++ [h] else dead).Nodup := by
  have hperm : (items.map Prod.fst ++ dead).Perm (h :: ((items.erase (h, id)).map Prod.fst ++ dead)) :=
    ((perm_cons_erase hmem).map Prod.fst).append_right dead
  have hcons := hperm.nodup_iff.1 hnodup
  cases ended with
  | false => exact (nodup_cons.1 hcons).2
  | true =>
    rw [if_pos rfl, ← append_assoc]
    exact (perm_append_singleton h _).symm.nodup_iff.1 hcons

theorem phaseOk_service {items : List (Handle × Nat)} {dead : List Handle} (hs : s.Tidy)
    (hphase : s.phase = .conns items dead) {id : Nat} (hmem : (h, id) ∈ items) (slice : Bytes → Nat) :
    (s.service items dead h id slice).PhaseOk ∧ Moves s (s.service items dead h id slice) := by
  have hok := hs.phase
  rw [PhaseOk, hphase] at hok
  obtain ⟨hnodup, hitems, hdead⟩ := hok
  rw [service]
  split
  · next sock stream hsock hstream =>
    obtain ⟨sock', g, ended⟩ := serviceConn slice sock stream.shared
    have hview : ∀ (phase : Phase) (streams : List Stream) (k : Handle), ({ s with
        sockets := s.sockets.modify h fun _ => sock', streams, phase } : Stack).view k = s.view k := by
      intro phase streams k
      simp only [view, Slots.get?_modify]
      split <;> simp
    refine ⟨⟨nodup_items hnodup hmem ended, fun x hx => hitems x (mem_of_mem_erase hx), fun k hk => ?_⟩,
      hs.known.moves_of_view (hview _ _)⟩
    refine (hview _ _ k).trans ?_
    cases ended with
    | false => exact hdead k hk
    | true =>
      rcases mem_append.1 hk with hk | hk
      · exact hdead k hk
      · rw [mem_singleton.1 hk]
        exact hs.known.conn_of_get? (hitems _ hmem)
  · exact ⟨hs.phase, hs.known.moves_refl⟩

variable {ν : Type} {net : Socket → ν → Socket}

/-- A connection is handed out without a place for it. -/
def Leaks (s : Stack) (e : StackEvent ν) (h : Handle) : Prop :=
  e = .promote h ∧ (∃ ready, s.phase = .promote ready ∧ h ∈ ready) ∧ ¬ s.HasRoom

/-- What one event does: every handle moves along its life, or a connection is
handed out without a place for it. -/
theorem step_spec (net : Socket → ν → Socket) (hs : s.Tidy) (e : StackEvent ν) :
    (s.step net e).1.PhaseOk ∧ (Moves s (s.step net e).1 ∨
      ∃ h, s.Leaks e h ∧ (s.step net e).1.Is h .leaked ∧ ∀ k, k ≠ h → (s.step net e).1.view k = s.view k) := by
  have hsame : s.PhaseOk ∧ (Moves s s ∨
      ∃ h, s.Leaks e h ∧ s.Is h .leaked ∧ ∀ k, k ≠ h → s.view k = s.view k) := ⟨hs.phase, .inl hs.known.moves_refl⟩
  have hframe : ∀ {s' : Stack}, s'.phase = s.phase → s'.conns = s.conns → (∀ k, s'.view k = s.view k) →
      s'.PhaseOk ∧ (Moves s s' ∨ ∃ h, s.Leaks e h ∧ s'.Is h .leaked ∧ ∀ k, k ≠ h → s'.view k = s.view k) := by
    intro s' hphase hconns hview
    obtain ⟨hp, hm⟩ := hs.of_frame hphase hconns hview
    exact ⟨hp, .inl hm⟩
  have hstream : ∀ {α : Type} (id : Nat) (f : Stream → Stream × α), (s.onStream id f).1.PhaseOk ∧
      (Moves s (s.onStream id f).1 ∨ ∃ h, s.Leaks e h ∧ (s.onStream id f).1.Is h .leaked ∧
        ∀ k, k ≠ h → (s.onStream id f).1.view k = s.view k) := by
    intro α id f
    obtain ⟨streams, h⟩ := onStream_frame s id f
    rw [h]
    exact hframe rfl rfl fun _ => rfl
  cases e with
  | net h e =>
    rw [step]
    split
    · refine hframe rfl rfl fun k => ?_
      simp only [view, Slots.get?_modify]
      split <;> simp
    · exact hsame
  | connect possible =>
    rw [step]
    split
    · next hphase =>
      refine ⟨?_, .inl (moves_connect hs.known possible)⟩
      have : (s.connect possible).phase = .poll := by
        cases possible <;> exact hphase
      rw [PhaseOk, this]
      trivial
    · exact hsame
  | beginPass =>
    rw [step]
    split
    · obtain ⟨hp, hm⟩ := phaseOk_beginPass hs.known
      exact ⟨hp, .inl hm⟩
    · exact hsame
  | promote h =>
    rw [step]
    split
    · next ready hphase =>
      have hok := hs.phase
      rw [PhaseOk, hphase] at hok
      obtain ⟨hnodup, hlisteners⟩ := hok
      split
      · next hmem =>
        refine ⟨phaseOk_promote hnodup hlisteners, ?_⟩
        have his := is_promote (hlisteners h hmem)
        by_cases hroom : s.HasRoom
        · rw [if_pos hroom] at his
          exact .inl (hs.known.moves_one (hlisteners h hmem) his .accept fun k hk => view_promote hk)
        · rw [if_neg hroom] at his
          exact .inr ⟨h, ⟨rfl, ⟨ready, hphase, hmem⟩, hroom⟩, his, fun k hk => view_promote hk⟩
      · exact hsame
    · exact hsame
  | resolve =>
    rw [step]
    split
    · obtain ⟨hp, hm⟩ := phaseOk_resolve hs.known
      exact ⟨hp, .inl hm⟩
    · exact hsame
  | service h slice =>
    rw [step]
    split
    · next items dead hphase =>
      split
      · next h' id hfind =>
        obtain rfl : h' = h := by simpa using find?_some hfind
        obtain ⟨hp, hm⟩ := phaseOk_service hs hphase (mem_of_find?_eq_some hfind) slice
        exact ⟨hp, .inl hm⟩
      · exact hsame
    · exact hsame
  | reap =>
    rw [step]
    split
    · next dead hphase =>
      have hok := hs.phase
      rw [PhaseOk, hphase] at hok
      have hmoves := moves_foldl (fun hs hst => moves_reapOne hs hst) view_reapOne hok.1 hs.known hok.2.2
      exact ⟨trivial, .inl (hmoves.trans (hmoves.known.moves_of_view fun _ => rfl))⟩
    · exact hsame
  | accept =>
    rw [step]
    split
    · exact hsame
    · exact hframe rfl rfl fun _ => rfl
  | closeAccept => exact hframe rfl rfl fun _ => rfl
  | cancelConnect h =>
    rw [step]
    split
    · next w hw =>
      refine hframe rfl rfl fun k => ?_
      simp only [view, containsKey_insert]
      split
      · next hk =>
        rw [hk, containsKey_iff.2 ⟨w, hw⟩]
      · rfl
    · exact hsame
  | read id remaining =>
    rw [step_read]
    exact hstream id _
  | write id data =>
    rw [step_write]
    exact hstream id _
  | flush id =>
    rw [step_flush]
    exact hstream id _
  | shutdown id =>
    rw [step_shutdown]
    exact hstream id _
  | drop id => exact hstream id _

theorem leaked_promote (hs : s.Tidy) {ready} (hphase : s.phase = .promote ready)
    (hmem : h ∈ ready) (hfull : ¬ s.HasRoom) : (s.step net (.promote h)).1.Is h .leaked := by
  have hok := hs.phase
  rw [PhaseOk, hphase] at hok
  have his := is_promote (hok.2 h hmem)
  rw [if_neg hfull] at his
  simp only [step, hphase, if_pos hmem]
  exact his

theorem tidy_step (hs : s.Tidy) (e : StackEvent ν) : (s.step net e).1.Tidy := by
  obtain ⟨hphase, hmoves | ⟨h, -, hleaked, hother⟩⟩ := step_spec net hs e
  · exact ⟨hmoves.known, hphase⟩
  · refine ⟨fun k => ?_, hphase⟩
    by_cases hk : k = h
    · rw [hk]
      exact ⟨_, hleaked⟩
    · obtain ⟨st, hst⟩ := hs.known k
      exact ⟨st, (hother k hk).trans hst⟩

/-- Without a leak in the step, what is leaked after it was leaked before. -/
theorem leaked_of_step (hs : s.Tidy) {e} (hroom : ∀ h, ¬ s.Leaks e h)
    (hleaked : (s.step net e).1.Is h .leaked) : s.Is h .leaked := by
  obtain ⟨-, hmoves | ⟨h', hleaks, -⟩⟩ := step_spec net hs e
  · obtain ⟨st, st', hst, hst', hlife⟩ := hmoves h
    rw [(Life.leaked_iff hlife).1 (hst'.unique hleaked)] at hst
    exact hst
  · exact absurd hleaks (hroom h')

theorem Known.oneTable_iff (hs : s.Known) : s.OneTable ↔ ∀ h, ¬ s.Is h .leaked := by
  refine ⟨fun hone h hleaked => ?_, fun hnot h hsome => ?_⟩
  · simp only [Is, view, Status.view, Prod.mk.injEq] at hleaked
    have := hone h hleaked.1
    simp [hleaked] at this
  · obtain ⟨st, hst⟩ := hs h
    cases st with
    | leaked => exact absurd hst (hnot h)
    | free =>
      simp only [Is, view, Status.view, Prod.mk.injEq] at hst
      rw [hst.1] at hsome
      cases hsome
    | _ =>
      simp only [Is, view, Status.view, Prod.mk.injEq] at hst
      simp [hst]

theorem addListener_frame (s : Stack) (port : Nat) :
    ∃ sockets listeners, (s.addListener port).1 = { s with sockets, listeners } := by
  rw [addListener]
  cases Socket.listen port with
  | none => exact ⟨s.sockets, s.listeners, rfl⟩
  | some sock => exact ⟨_, _, rfl⟩

theorem addListeners_frame (s : Stack) (port missing : Nat) :
    ∃ sockets listeners, s.addListeners port missing = { s with sockets, listeners } := by
  induction missing generalizing s with
  | zero => exact ⟨s.sockets, s.listeners, rfl⟩
  | succ missing ih =>
    obtain ⟨sockets, listeners, hone⟩ := addListener_frame s port
    rw [addListeners]
    split
    · split
      · next s' h =>
        obtain rfl : s' = { s with sockets, listeners } := by rw [← hone, h]
        exact ih _
      · next s' h => exact ⟨sockets, listeners, by rw [← hone, h]⟩
    · exact ⟨s.sockets, s.listeners, rfl⟩

theorem topUpListeners_frame (s : Stack) : ∃ sockets listeners, s.topUpListeners = { s with sockets, listeners } := by
  rw [topUpListeners]
  split
  · exact ⟨s.sockets, s.listeners, rfl⟩
  · exact addListeners_frame s _ _

theorem resolveConnect_frame (s : Stack) (h : Handle) : ∃ sockets conns pendingConnects streams,
    s.resolveConnect h = { s with sockets, conns, pendingConnects, streams } := by
  rw [resolveConnect]
  split
  · exact ⟨s.sockets, s.conns, s.pendingConnects, s.streams, rfl⟩
  · dsimp only
    split
    · exact ⟨_, _, _, _, rfl⟩
    · exact ⟨_, _, _, _, rfl⟩

theorem moves_listen (port : Nat) (l : List Nat) (hs : s.Known) :
    Moves s (l.foldl (fun s _ => (s.addListener port).1) s) ∧
      (l.foldl (fun s _ => (s.addListener port).1) s).phase = s.phase := by
  induction l generalizing s with
  | nil => exact ⟨hs.moves_refl, rfl⟩
  | cons _ l ih =>
    have hone := moves_addListener hs port
    obtain ⟨hrest, hphase⟩ := ih hone.known
    obtain ⟨sockets, listeners, h⟩ := addListener_frame s port
    exact ⟨hone.trans hrest, hphase.trans (by rw [h])⟩

theorem known_empty (listenPort : Option Nat) (h : Handle) : ({ listenPort } : Stack).Is h .free := rfl

theorem moves_start (listenPort : Option Nat) :
    Moves { listenPort } (start listenPort) ∧ (start listenPort).phase = .poll := by
  have hempty : ({ listenPort } : Stack).Known := fun h => ⟨_, known_empty listenPort h⟩
  cases listenPort with
  | none => exact ⟨hempty.moves_refl, rfl⟩
  | some port => exact moves_listen port _ hempty

theorem tidy_start (listenPort : Option Nat) : (start listenPort).Tidy := by
  obtain ⟨hmoves, hphase⟩ := moves_start listenPort
  refine ⟨hmoves.known, ?_⟩
  rw [PhaseOk, hphase]
  trivial

theorem not_leaked_start (listenPort : Option Nat) (h : Handle) : ¬ (start listenPort).Is h .leaked := by
  intro hleaked
  obtain ⟨st, st', hst, hst', hlife⟩ := (moves_start listenPort).1 h
  have hst := (Life.leaked_iff hlife).1 (hst'.unique hleaked) ▸ hst
  cases hst.unique (known_empty listenPort h)

theorem tidy_run (net : Socket → ν → Socket) (listenPort : Option Nat) (events : List (StackEvent ν)) :
    (run net listenPort events).Tidy := by
  have hstep : ∀ (s : Stack) (e : StackEvent ν), s.Tidy → (s.step net e).1.Tidy := fun s e hs => tidy_step hs e
  exact runState_induction hstep (tidy_start listenPort) events

theorem run_concat (listenPort : Option Nat) (events : List (StackEvent ν)) (e : StackEvent ν) :
    run net listenPort (events ++ [e]) = ((run net listenPort events).step net e).1 := runState_append _ _ _

theorem not_leaked_run {listenPort events}
    (hroom : ∀ done e rest, events = done ++ e :: rest → ∀ h, ¬ (run net listenPort done).Leaks e h) (h : Handle) :
    ¬ (run net listenPort events).Is h .leaked := by
  induction events using List.reverseRecOn with
  | nil => exact not_leaked_start listenPort h
  | append_singleton events e ih =>
    rw [run_concat]
    intro hleaked
    refine ih (fun done e' rest heq => ?_) (leaked_of_step (tidy_run net listenPort events)
        (hroom events e [] rfl) hleaked)
    exact hroom done e' (rest ++ [e]) (by rw [heq]; simp)

end Stack

/-- In every history, the socket set and the tables agree after each event
exactly when the accept channel has a place for every connection that is handed
out. -/
theorem one_table_iff_accept_room {ν : Type} (net : Socket → ν → Socket) (listenPort : Option Nat)
    (events : List (StackEvent ν)) :
    (∀ done rest, events = done ++ rest → (Stack.run net listenPort done).OneTable) ↔
      ∀ done h rest, events = done ++ .promote h :: rest →
        ∀ ready, (Stack.run net listenPort done).phase = .promote ready → h ∈ ready →
          (Stack.run net listenPort done).acceptOpen = true ∧
            (Stack.run net listenPort done).acceptQueue.length < acceptCapacity := by
  have hone : ∀ done, (Stack.run net listenPort done).OneTable ↔ ∀ h, ¬ (Stack.run net listenPort done).Is h .leaked :=
    fun done => (Stack.tidy_run net listenPort done).known.oneTable_iff
  simp only [hone]
  refine ⟨fun hnot done h rest heq ready hphase hmem => ?_, fun hroom done rest heq h => ?_⟩
  · -- a step that leaks leaves a leaked socket behind
    by_contra hfull
    refine hnot (done ++ [.promote h]) rest (by rw [heq]; simp) h ?_
    rw [Stack.run_concat]
    exact Stack.leaked_promote (Stack.tidy_run net listenPort done) hphase hmem hfull
  · refine Stack.not_leaked_run (fun done' e rest' heq' h' hleaks => ?_) h
    obtain ⟨rfl, ⟨ready, hphase, hmem⟩, hfull⟩ := hleaks
    exact hfull (hroom done' h' (rest' ++ rest) (by rw [heq, heq']; simp) ready hphase hmem)

/-- A connection completes its handshake when nobody accepts any more. -/
def refusedAccept : List (StackEvent NetEvent) :=
  [.closeAccept, .net 0 .syn, .net 0 .handshake, .beginPass, .promote 0, .resolve, .reap]

/-- Its socket is left in the set and in no table, also when the pass is over. -/
theorem refused_accept_leaks_socket :
    let s := Stack.run Socket.net (some 1080) refusedAccept
    s.phase = .poll ∧ (s.sockets.get? 0).isSome = true ∧ s.listeners.containsKey 0 = false ∧
      s.pendingConnects.containsKey 0 = false ∧ s.conns.containsKey 0 = false := by decide +kernel

end Rove.Subnetra
